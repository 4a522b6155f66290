import Mathlib.Data.List.Nodup
import Mathlib.Data.List.Perm.Lattice

/-!
# Insertion-ordered dictionaries

`Dict κ ν` is a dictionary as Python has it: entries in insertion order, each key once. `set` keeps the place of a key
that is there and appends a new one; `del` raises `KeyError` on a missing key, and `foldlM_del` says when a sequence of
deletions goes through.
-/

namespace TheGrind.Data

/-- The error for a key that is not there. -/
structure KeyError (κ : Type*) where
  key : κ
  deriving DecidableEq, Repr

/-- A dictionary: entries in insertion order, each key once. -/
structure Dict (κ ν : Type*) where
  entries : List (κ × ν)
  nodup : (entries.map Prod.fst).Nodup
  deriving DecidableEq

namespace Dict
variable {κ ν : Type*} [DecidableEq κ]

def empty : Dict κ ν := ⟨[], List.nodup_nil⟩

def keys (d : Dict κ ν) : List κ := d.entries.map Prod.fst

def get? (d : Dict κ ν) (k : κ) : Option ν := (d.entries.find? (·.1 = k)).map Prod.snd

/-- `d[k] = v` -/
def set (d : Dict κ ν) (k : κ) (v : ν) : Dict κ ν :=
  if h : k ∈ d.entries.map Prod.fst then
    ⟨d.entries.map fun e => if e.1 = k then (k, v) else e, by
      have hkeys : (d.entries.map fun e => if e.1 = k then (k, v) else e).map Prod.fst = d.entries.map Prod.fst := by
        rw [List.map_map]
        apply List.map_congr_left
        intro e _
        by_cases he : e.1 = k <;> simp [he]
      rw [hkeys]
      exact d.nodup⟩
  else
    ⟨d.entries ++ [(k, v)], by
      rw [List.map_append]
      exact d.nodup.append (List.nodup_singleton _) (List.disjoint_singleton.mpr h)⟩

/-- `d` without the key `k`. -/
def erase (d : Dict κ ν) (k : κ) : Dict κ ν :=
  ⟨d.entries.filter (·.1 ≠ k), d.nodup.sublist (List.filter_sublist.map _)⟩

/-- `del d[k]` -/
def del (d : Dict κ ν) (k : κ) : Except (KeyError κ) (Dict κ ν) :=
  if k ∈ d.keys then .ok (d.erase k) else .error ⟨k⟩

variable {d d' : Dict κ ν} {k k' : κ} {v : ν}

omit [DecidableEq κ] in
theorem mem_keys_of_mem {e : κ × ν} (h : e ∈ d.entries) : e.1 ∈ d.keys := List.mem_map_of_mem h

theorem get?_eq_some_iff : d.get? k = some v ↔ (k, v) ∈ d.entries := by
  rw [get?, Option.map_eq_some_iff]
  constructor
  · rintro ⟨e, he, rfl⟩
    have hk : e.1 = k := by simpa using List.find?_some he
    rw [← hk]
    exact List.mem_of_find?_eq_some he
  · intro hmem
    cases hf : d.entries.find? (·.1 = k) with
    | none => simpa using List.find?_eq_none.mp hf (k, v) hmem
    | some e =>
      have hk : e.1 = k := by simpa using List.find?_some hf
      have he := List.inj_on_of_nodup_map d.nodup (List.mem_of_find?_eq_some hf) hmem hk
      exact ⟨e, rfl, by rw [he]⟩

theorem get?_eq_none_iff : d.get? k = none ↔ k ∉ d.keys := by
  rw [Option.eq_none_iff_forall_ne_some]
  constructor
  · intro h hk
    obtain ⟨e, he, rfl⟩ := List.mem_map.mp hk
    exact h e.2 (get?_eq_some_iff.mpr he)
  · intro h v hv
    exact h (mem_keys_of_mem (get?_eq_some_iff.mp hv))

theorem entries_set_of_not_mem (h : k ∉ d.keys) : (d.set k v).entries = d.entries ++ [(k, v)] := by
  unfold set
  rw [dif_neg (show k ∉ d.entries.map Prod.fst from h)]

theorem keys_set_of_not_mem (h : k ∉ d.keys) : (d.set k v).keys = d.keys ++ [k] := by
  rw [keys, entries_set_of_not_mem h, List.map_append, keys]
  rfl

theorem entries_erase : (d.erase k).entries = d.entries.filter (·.1 ≠ k) := rfl

theorem keys_erase : (d.erase k).keys = d.keys.filter (· ≠ k) := by
  simp only [keys, entries_erase, List.filter_map]
  rfl

theorem mem_erase {e : κ × ν} : e ∈ (d.erase k).entries ↔ e ∈ d.entries ∧ e.1 ≠ k := by
  rw [entries_erase, List.mem_filter, decide_eq_true_eq]

/-- A new key that is taken out again. -/
theorem erase_set_of_not_mem (h : k ∉ d.keys) : (d.set k v).erase k = d := by
  have hentries : ((d.set k v).erase k).entries = d.entries := by
    rw [entries_erase, entries_set_of_not_mem h, List.filter_append]
    have hkeep : d.entries.filter (·.1 ≠ k) = d.entries :=
      List.filter_eq_self.mpr fun e he => decide_eq_true fun hk => h (hk ▸ mem_keys_of_mem he)
    rw [hkeep]
    simp
  cases d
  cases hd : (set _ k v).erase k
  rw [hd] at hentries
  cases hentries
  rfl

theorem del_of_mem (h : k ∈ d.keys) : d.del k = .ok (d.erase k) := if_pos h

theorem del_of_not_mem (h : k ∉ d.keys) : d.del k = .error ⟨k⟩ := if_neg h

/-- Deleting distinct keys that are there, one after the other, raises nothing. -/
theorem foldlM_del {ks : List κ} (hn : ks.Nodup) (hk : ∀ k ∈ ks, k ∈ d.keys) :
    ∃ d', ks.foldlM del d = .ok d' ∧ d'.entries = d.entries.filter (·.1 ∉ ks) := by
  induction ks generalizing d with
  | nil => exact ⟨d, rfl, by simp⟩
  | cons k ks ih =>
    have hn' := List.nodup_cons.mp hn
    have hk' : ∀ k' ∈ ks, k' ∈ (d.erase k).keys := by
      intro k' hks
      rw [keys_erase, List.mem_filter]
      exact ⟨hk k' (List.mem_cons_of_mem _ hks), decide_eq_true fun he => hn'.1 (he ▸ hks)⟩
    obtain ⟨d', hd, he⟩ := ih hn'.2 hk'
    refine ⟨d', ?_, ?_⟩
    · rw [List.foldlM_cons, del_of_mem (hk k List.mem_cons_self)]
      exact hd
    · rw [he, entries_erase, List.filter_filter]
      apply List.filter_congr
      intro e _
      simp [Bool.and_comm]

/-- Deleting a key takes it from the keys and nothing else. -/
theorem keys_perm_erase (h : k ∈ d.keys) : d.keys.Perm (k :: (d.erase k).keys) := by
  have hkeys : (d.erase k).keys = d.keys.erase k := by
    rw [keys_erase, show d.keys.erase k = _ from List.Nodup.erase_eq_filter d.nodup k]
    exact List.filter_congr fun x _ => by by_cases hx : x = k <;> simp [hx]
  rw [hkeys]
  exact List.perm_cons_erase h

end Dict

end TheGrind.Data
