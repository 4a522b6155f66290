import Mathlib.Data.Nat.Periodic
import Mathlib.Data.List.Nodup

/-!
# Walks around a ring

A walk around the ring of the numbers below `n` visits `c % n`, `(c + 1) % n`, … from its start `c` on. In its first `n`
steps it is everywhere exactly once (`add_mod_inj`, `nodup_walk`, `exists_walk`).

* `landing n H c` : where the walk from `c` first meets the set `H`;
* `gap n H i` : how many places before `i` are outside `H`, up to the first that is not;
* `card_landing` : of any `n` successive starts, `gap n H i + 1` lead to `i`.
-/

namespace TheGrind.Data

section Walk
variable {n c i j : Nat}

theorem add_mod_inj (hi : i < n) (hj : j < n) (h : (c + i) % n = (c + j) % n) : i = j :=
  (Nat.ModEq.add_left_cancel' c h).eq_of_lt_of_lt hi hj

theorem nodup_walk {m : Nat} (h : m ≤ n) : ((List.range m).map fun j => (c + j) % n).Nodup := by
  refine List.Nodup.map_on (fun i hi j hj he => ?_) List.nodup_range
  rw [List.mem_range] at hi hj
  exact add_mod_inj (by omega) (by omega) he

theorem exists_walk (hi : i < n) (c : Nat) : ∃ j < n, (c + j) % n = i := by
  refine ⟨(i + (n - c % n)) % n, Nat.mod_lt _ (by omega), ?_⟩
  have hc : c % n < n := Nat.mod_lt _ (by omega)
  have hsum : c % n + (i + (n - c % n)) = i + n := by omega
  rw [Nat.add_mod_mod, ← Nat.mod_add_mod, hsum, Nat.add_mod_right, Nat.mod_eq_of_lt hi]

end Walk

/-- Where the walk from `c` first meets `H`, if it does within one round. -/
def landing (n : Nat) (H : Finset Nat) (c : Nat) : Option Nat :=
  ((List.range n).map fun j => (c + j) % n).find? (· ∈ H)

/-- The number of consecutive places outside `H` immediately before `i`, in cyclic order: those one, two, … steps back,
up to the first that is in `H`. -/
def gap (n : Nat) (H : Finset Nat) (i : Nat) : Nat :=
  (List.range (n - 1)).findIdx fun k => (i + (n - 1 - k)) % n ∈ H

section Landing
variable {n c i : Nat} {H : Finset Nat}

theorem landing_eq_some_iff :
    landing n H c = some i ↔ i ∈ H ∧ ∃ j < n, (c + j) % n = i ∧ ∀ k < j, (c + k) % n ∉ H := by
  unfold landing
  rw [List.find?_map, Option.map_eq_some_iff]
  constructor
  · rintro ⟨j, hj, rfl⟩
    obtain ⟨hjH, hjn, hbefore⟩ := List.find?_range_eq_some.mp hj
    exact ⟨by simpa using hjH, j, List.mem_range.mp hjn, rfl, fun k hk => by simpa using hbefore k hk⟩
  · rintro ⟨hi, j, hj, rfl, hbefore⟩
    refine ⟨j, List.find?_range_eq_some.mpr ⟨by simpa using hi, List.mem_range.mpr hj, fun k hk => ?_⟩, rfl⟩
    simpa using hbefore k hk

/-- A start `n` places on leads to the same place. -/
theorem landing_periodic (n : Nat) (H : Finset Nat) : Function.Periodic (landing n H) n := by
  intro c
  have hmod : ∀ j, (c + n + j) % n = (c + j) % n := by
    intro j
    rw [Nat.add_right_comm, Nat.add_mod_right]
  unfold landing
  simp only [hmod]

theorem le_gap_iff {e : Nat} (he : e < n) : e ≤ gap n H i ↔ ∀ k < e, (i + (n - 1 - k)) % n ∉ H := by
  unfold gap
  constructor
  · intro hle k hk
    have hnot := List.not_of_lt_findIdx (Nat.lt_of_lt_of_le hk hle)
    simpa using hnot
  · intro hout
    by_contra hlt
    have hidx : (List.range (n - 1)).findIdx (fun k => (i + (n - 1 - k)) % n ∈ H) < (List.range (n - 1)).length := by
      rw [List.length_range]
      omega
    have hmem := List.findIdx_getElem (w := hidx)
    rw [List.getElem_range] at hmem
    exact hout _ (not_le.mp hlt) (by simpa using hmem)

theorem gap_lt (hn : 0 < n) : gap n H i < n := by
  have hle : gap n H i ≤ (List.range (n - 1)).length := List.findIdx_le_length
  rw [List.length_range] at hle
  omega

/-- The start `e` steps before `i` leads to `i` when no place on the way is in `H`. -/
theorem landing_before_iff (hi : i ∈ H) (hin : i < n) {e : Nat} (he : e < n) (hc : c + e = i + n) :
    landing n H c = some i ↔ e ≤ gap n H i := by
  have hstep : ∀ k < e, (i + (n - 1 - k)) % n = (c + (e - 1 - k)) % n := by
    intro k hk
    congr 1
    omega
  have hend : (c + e) % n = i := by rw [hc, Nat.add_mod_right, Nat.mod_eq_of_lt hin]
  rw [landing_eq_some_iff, le_gap_iff he]
  constructor
  · rintro ⟨-, j, hj, hji, hbefore⟩ k hk
    obtain rfl := add_mod_inj hj he (hji.trans hend.symm)
    rw [hstep k hk]
    exact hbefore _ (by omega)
  · intro hout
    refine ⟨hi, e, he, hend, fun k hk => ?_⟩
    have hk' := hout (e - 1 - k) (by omega)
    rwa [hstep _ (by omega), Nat.sub_sub_self (by omega)] at hk'

/-- **The share of a place.** Of the walks from `n` successive starts, as many lead to `i` as there are places outside
`H` before it, and one more. -/
theorem card_landing (hi : i ∈ H) (hin : i < n) (c : Nat) :
    ((Finset.Ico c (c + n)).filter fun c => landing n H c = some i).card = gap n H i + 1 := by
  have hperiodic : Function.Periodic (fun c => landing n H c = some i) n := fun c => by
    show (landing n H (c + n) = some i) = _
    rw [landing_periodic n H c]
  -- any `n` successive starts will do: those that follow `i`
  rw [Nat.filter_Ico_card_eq_of_periodic c n _ hperiodic,
    ← Nat.filter_Ico_card_eq_of_periodic (i + 1) n _ hperiodic]
  have hgap : gap n H i < n := gap_lt (by omega)
  have heq : ((Finset.Ico (i + 1) (i + 1 + n)).filter fun c => landing n H c = some i) =
      Finset.Ico (i + n - gap n H i) (i + n + 1) := by
    ext c
    rw [Finset.mem_filter, Finset.mem_Ico, Finset.mem_Ico]
    constructor
    · rintro ⟨⟨hlo, hhi⟩, hland⟩
      have hle := (landing_before_iff hi hin (e := i + n - c) (by omega) (by omega)).mp hland
      omega
    · rintro ⟨hlo, hhi⟩
      exact ⟨by omega, (landing_before_iff hi hin (e := i + n - c) (by omega) (by omega)).mpr (by omega)⟩
  rw [heq, Nat.card_Ico]
  omega

/-- In a ring of five with two places in `H`, the one after three places outside has the share of four. -/
example : (gap 5 {0, 4} 0, gap 5 {0, 4} 4) = (0, 3) := by decide

end Landing

end TheGrind.Data
