import Mathlib.Data.List.Basic

/-!
# `character varying(n)`

The SQL type of texts with at most `n` characters. A text that is assigned to such a column is stored as it is if it is
short enough; of a longer one the rest is cut if it is blanks, and else it is refused.

* `Varchar.assign` : what is stored of a text;
* `assign_of_le`, `assign_blanks` : a text that is short enough, and one whose rest is cut.
-/

namespace TheGrind.Data

/-- A text of at most `n` characters. -/
@[ext] structure Varchar (n : Nat) where
  text : String
  length_le : text.length ≤ n
  deriving DecidableEq, Repr

namespace Varchar
variable {n : Nat} {s : String} {v : Varchar n}

/-- What a column stores of a text that is assigned to it. -/
def assign (n : Nat) (s : String) : Option (Varchar n) :=
  if h : s.length ≤ n then some ⟨s, h⟩
  else if (s.toList.drop n).all (· = ' ') then
    some ⟨String.ofList (s.toList.take n), by rw [String.length_ofList]; exact List.length_take_le _ _⟩
  else none

theorem assign_of_le (h : s.length ≤ n) : assign n s = some ⟨s, h⟩ := dif_pos h

/-- A text that is too long is not stored as it is. -/
theorem text_ne_of_lt (hlt : n < s.length) : v.text ≠ s := by
  rintro rfl
  exact absurd v.length_le (Nat.not_le.mpr hlt)

/-- Blanks after the first `n` characters are cut. -/
theorem assign_blanks {l : List Char} (hl : l.length = n) (k : Nat) :
    ∃ v : Varchar n, assign n (String.ofList (l ++ List.replicate k ' ')) = some v ∧ v.text = String.ofList l := by
  unfold assign
  split
  · next h =>
    rw [String.length_ofList, List.length_append, List.length_replicate, hl] at h
    obtain rfl : k = 0 := by omega
    exact ⟨_, rfl, by simp⟩
  · rw [if_pos]
    · refine ⟨_, rfl, ?_⟩
      show String.ofList (List.take n (String.ofList _).toList) = _
      rw [String.toList_ofList, List.take_append_of_le_length (Nat.le_of_eq hl.symm),
        List.take_of_length_le (Nat.le_of_eq hl)]
    · refine List.all_eq_true.mpr fun c hc => decide_eq_true ?_
      rw [String.toList_ofList, List.drop_append_of_le_length (Nat.le_of_eq hl.symm),
        List.drop_of_length_le (Nat.le_of_eq hl)] at hc
      exact List.eq_of_mem_replicate hc

end Varchar

end TheGrind.Data
