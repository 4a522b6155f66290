import Mathlib.Algebra.BigOperators.Group.Finset.Basic
import Mathlib.Algebra.Order.BigOperators.Group.Finset

/-!
# Sums over a family, one member of which changes
-/

namespace TheGrind.Data

variable {ι α : Type*} [DecidableEq ι] {i : ι}

/-- The sum gains what the member gains. -/
theorem sum_update {T : Finset ι} (hi : i ∈ T) (r : α → Nat) (f : ι → α) (a : α) :
    ∑ j ∈ T, r (Function.update f i a j) + r (f i) = ∑ j ∈ T, r (f j) + r a := by
  have hothers : ∑ j ∈ T.erase i, r (Function.update f i a j) = ∑ j ∈ T.erase i, r (f j) :=
    Finset.sum_congr rfl fun j hj => by rw [Function.update_of_ne (Finset.ne_of_mem_erase hj)]
  have hafter := Finset.sum_erase_add T (fun j => r (Function.update f i a j)) hi
  have hbefore := Finset.sum_erase_add T (fun j => r (f j)) hi
  rw [Function.update_self] at hafter
  omega

theorem sum_update_univ [Fintype ι] (i : ι) (r : α → Nat) (f : ι → α) (a : α) :
    ∑ j, r (Function.update f i a j) + r (f i) = ∑ j, r (f j) + r a :=
  sum_update (Finset.mem_univ i) r f a

omit [DecidableEq ι] in
/-- A member counts for no more than the family. -/
theorem le_sum_univ [Fintype ι] (i : ι) (r : α → Nat) (f : ι → α) : r (f i) ≤ ∑ j, r (f j) :=
  Finset.single_le_sum (f := fun j => r (f j)) (fun _ _ => Nat.zero_le _) (Finset.mem_univ i)

end TheGrind.Data
