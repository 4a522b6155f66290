import Mathlib.Data.List.Perm.Lattice
import Mathlib.Data.Set.Insert

/-!
# Tokens in exactly one place

`Partition tokens contents` : the lists `contents p`, one for each place `p`, hold every token exactly once and nothing
else. What operations do to it is moving tokens from one place to another (`Partition.move`) and bringing a new one in
(`Partition.add`); both are stated up to permutation, so the order a place keeps its tokens in does not matter.
`Partition.exactly_one` reads the result off.
-/

namespace TheGrind.Data

variable {π τ : Type*}

/-- Every token is in exactly one place, once, and the places hold tokens only. -/
structure Partition (tokens : Set τ) (contents : π → List τ) : Prop where
  nodup : ∀ p, (contents p).Nodup
  disjoint : ∀ {p q c}, c ∈ contents p → c ∈ contents q → p = q
  mem_iff : ∀ c, c ∈ tokens ↔ ∃ p, c ∈ contents p

namespace Partition
variable {T : Set τ} {C D : π → List τ} {p q : π} {c : τ}

/-- All tokens in one place. -/
theorem init (p : π) (hp : (C p).Nodup) (hr : ∀ r, r ≠ p → C r = []) : Partition {c | c ∈ C p} C := by
  have heq : ∀ {r c}, c ∈ C r → r = p := by
    intro r c hc
    by_contra hne
    rw [hr r hne] at hc
    exact absurd hc List.not_mem_nil
  refine ⟨fun r => ?_, fun hc hc' => (heq hc).trans (heq hc').symm, fun c => ⟨fun hc => ⟨p, hc⟩, ?_⟩⟩
  · by_cases hrp : r = p
    · rw [hrp]
      exact hp
    · rw [hr r hrp]
      exact List.nodup_nil
  · rintro ⟨r, hc⟩
    exact heq hc ▸ hc

theorem mem (h : Partition T C) (hc : c ∈ C p) : c ∈ T := (h.mem_iff c).mpr ⟨p, hc⟩

/-- A token in one place is in no other. -/
theorem not_mem (h : Partition T C) (hc : c ∈ C p) (hpq : q ≠ p) : c ∉ C q := fun hq => hpq (h.disjoint hq hc)

/-- Moving the tokens `l` from `p` to `q`. -/
theorem move {l : List τ} (h : Partition T C) (hpq : p ≠ q) (hp : (C p).Perm (l ++ D p))
    (hq : (D q).Perm (l ++ C q)) (hr : ∀ r, r ≠ p → r ≠ q → (D r).Perm (C r)) : Partition T D := by
  have hnp : (l ++ D p).Nodup := hp.nodup_iff.mp (h.nodup p)
  have hl : ∀ {c}, c ∈ l → c ∈ C p := fun hc => hp.mem_iff.mpr (List.mem_append_left _ hc)
  have hmem : ∀ {r c}, c ∈ D r → (r = q ∧ c ∈ l) ∨ (c ∈ C r ∧ c ∉ l) := by
    intro r c hc
    by_cases hrq : r = q
    · subst hrq
      rcases List.mem_append.mp (hq.mem_iff.mp hc) with hc | hc
      · exact Or.inl ⟨rfl, hc⟩
      · exact Or.inr ⟨hc, fun hcl => hpq (h.disjoint (hl hcl) hc)⟩
    · by_cases hrp : r = p
      · subst hrp
        exact Or.inr ⟨hp.mem_iff.mpr (List.mem_append_right _ hc), fun hcl =>
          (List.disjoint_of_nodup_append hnp) hcl hc⟩
      · have hc' := (hr r hrp hrq).mem_iff.mp hc
        exact Or.inr ⟨hc', fun hcl => hrp (h.disjoint hc' (hl hcl))⟩
  refine ⟨fun r => ?_, fun {r r' c} hc hc' => ?_, fun c => ?_⟩
  · by_cases hrq : r = q
    · subst hrq
      refine hq.nodup_iff.mpr ((List.Nodup.of_append_left hnp).append (h.nodup r) fun c hc hc' => ?_)
      exact hpq (h.disjoint (hl hc) hc')
    · by_cases hrp : r = p
      · subst hrp
        exact List.Nodup.of_append_right hnp
      · exact (hr r hrp hrq).nodup_iff.mpr (h.nodup r)
  · rcases hmem hc with ⟨hr, hcl⟩ | ⟨hcr, hcl⟩ <;> rcases hmem hc' with ⟨hr', hcl'⟩ | ⟨hcr', hcl'⟩
    · rw [hr, hr']
    · exact absurd hcl hcl'
    · exact absurd hcl' hcl
    · exact h.disjoint hcr hcr'
  · rw [h.mem_iff c]
    constructor
    · rintro ⟨r, hc⟩
      by_cases hcl : c ∈ l
      · exact ⟨q, hq.mem_iff.mpr (List.mem_append_left _ hcl)⟩
      · by_cases hrq : r = q
        · subst hrq
          exact ⟨r, hq.mem_iff.mpr (List.mem_append_right _ hc)⟩
        · by_cases hrp : r = p
          · subst hrp
            exact ⟨r, (List.mem_append.mp (hp.mem_iff.mp hc)).resolve_left hcl⟩
          · exact ⟨r, (hr r hrp hrq).mem_iff.mpr hc⟩
    · rintro ⟨r, hc⟩
      rcases hmem hc with ⟨-, hcl⟩ | ⟨hcr, -⟩
      · exact ⟨p, hl hcl⟩
      · exact ⟨r, hcr⟩

/-- Moving one token. -/
theorem move_one (h : Partition T C) (hpq : p ≠ q) (hp : (C p).Perm (c :: D p)) (hq : (D q).Perm (c :: C q))
    (hr : ∀ r, r ≠ p → r ≠ q → D r = C r) : Partition T D :=
  h.move (l := [c]) hpq hp hq fun r hrp hrq => (hr r hrp hrq).symm ▸ List.Perm.refl _

/-- Bringing in a new token. -/
theorem add (h : Partition T C) (hc : c ∉ T) (hp : (D p).Perm (c :: C p)) (hr : ∀ r, r ≠ p → D r = C r) :
    Partition (insert c T) D := by
  have hmem : ∀ {r c'}, c' ∈ D r ↔ (r = p ∧ c' = c) ∨ c' ∈ C r := by
    intro r c'
    by_cases hrp : r = p
    · subst hrp
      simp [hp.mem_iff]
    · simp [hr r hrp, hrp]
  refine ⟨fun r => ?_, fun {r r' c'} h₁ h₂ => ?_, fun c' => ?_⟩
  · by_cases hrp : r = p
    · subst hrp
      exact hp.nodup_iff.mpr (List.nodup_cons.mpr ⟨fun hcr => hc (h.mem hcr), h.nodup r⟩)
    · rw [hr r hrp]
      exact h.nodup r
  · rcases hmem.mp h₁ with ⟨hr₁, hc₁⟩ | h₁ <;> rcases hmem.mp h₂ with ⟨hr₂, hc₂⟩ | h₂
    · rw [hr₁, hr₂]
    · exact absurd (h.mem (hc₁ ▸ h₂)) hc
    · exact absurd (h.mem (hc₂ ▸ h₁)) hc
    · exact h.disjoint h₁ h₂
  · rw [Set.mem_insert_iff, h.mem_iff c']
    constructor
    · rintro (rfl | ⟨r, hr'⟩)
      · exact ⟨p, hmem.mpr (Or.inl ⟨rfl, rfl⟩)⟩
      · exact ⟨r, hmem.mpr (Or.inr hr')⟩
    · rintro ⟨r, hr'⟩
      exact (hmem.mp hr').imp (fun h => h.2) fun h => ⟨r, h⟩

/-- A token is in one place, once there, and nowhere else. -/
theorem exactly_one [DecidableEq τ] (h : Partition T C) (hc : c ∈ T) :
    ∃ p, (C p).count c = 1 ∧ ∀ q, q ≠ p → (C q).count c = 0 := by
  obtain ⟨p, hp⟩ := (h.mem_iff c).mp hc
  exact ⟨p, List.count_eq_one_of_mem (h.nodup p) hp, fun q hq => List.count_eq_zero.mpr (h.not_mem hp hq)⟩

end Partition

end TheGrind.Data
