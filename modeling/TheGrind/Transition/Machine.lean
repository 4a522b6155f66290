import Mathlib.Data.List.Basic

/-!
# Machines and their runs

A `Machine` takes one input at a time: `step s a` is the output and the next state, or `none` when `a` cannot be
taken in `s`. Concurrency is interleaving: an input names the party that moves and every choice the environment makes.

* `run` : the outputs of a list of inputs, in order, and the last state (`run_cons_iff`, `run_append_iff`);
* `run_history` : the invariant rule, for invariants that read the outputs so far; `run_invariant` without them;
* `run_rank` : how often a run takes inputs that lower a rank;
* `Reaches` : some run leads from one state to another; `exists_reaches` : to a final one, by a rank;
* `Along Q` : every step of a run is taken where `Q` holds; `run_invariant_along` is the invariant rule for such runs;
* `run_outputs`, `run_along_iff` : what holds of every output, by an invariant, and when;
* `exists_along` : what holds along a run of a value that the run itself fixes;
* `along_of_not_doomed` : what a run must have met at every step, from the state it ends in;
* `guided` : a machine under a program that goes on with its outputs; `guided_run`, `guided_along` forget the program;
* `run_lockstep`, `run_map`, `run_simulates` : two machines compared step by step, along a function on states, and up
  to the outputs of a step.
-/

namespace TheGrind.Transition

/-- A machine with states `σ`, inputs `ι` and outputs `ω`. -/
structure Machine (σ ι ω : Type*) where
  step : σ → ι → Option (ω × σ)

namespace Machine

section Run
variable {σ ι ω : Type*} (M : Machine σ ι ω)

/-- The outputs of the inputs in order, and the last state. -/
def run (s : σ) : List ι → Option (List ω × σ)
  | [] => some ([], s)
  | a :: as => (M.step s a).bind fun r => (run r.2 as).map fun q => (r.1 :: q.1, q.2)

@[simp] theorem run_nil (s : σ) : M.run s [] = some ([], s) := rfl

theorem run_cons_iff {s t : σ} {a : ι} {as : List ι} {os : List ω} :
    M.run s (a :: as) = some (os, t) ↔
      ∃ o os' m, M.step s a = some (o, m) ∧ M.run m as = some (os', t) ∧ os = o :: os' := by
  constructor
  · intro h
    obtain ⟨⟨o, m⟩, hs, h⟩ := Option.bind_eq_some_iff.mp h
    obtain ⟨⟨os', t'⟩, hr, h⟩ := Option.map_eq_some_iff.mp h
    cases h
    exact ⟨o, os', m, hs, hr, rfl⟩
  · rintro ⟨o, os', m, hs, hr, rfl⟩
    simp only [run, hs, Option.bind_some, hr, Option.map_some]

theorem run_append_iff {as bs : List ι} : ∀ {s t : σ} {os : List ω},
    M.run s (as ++ bs) = some (os, t) ↔
      ∃ os₁ os₂ m, M.run s as = some (os₁, m) ∧ M.run m bs = some (os₂, t) ∧ os = os₁ ++ os₂ := by
  induction as with
  | nil =>
    intro s t os
    constructor
    · exact fun h => ⟨[], os, s, rfl, h, rfl⟩
    · rintro ⟨os₁, os₂, m, h₁, h₂, rfl⟩
      cases h₁
      exact h₂
  | cons a as ih =>
    intro s t os
    rw [List.cons_append, run_cons_iff]
    constructor
    · rintro ⟨o, os', m, hs, hr, rfl⟩
      obtain ⟨os₁, os₂, m', h₁, h₂, rfl⟩ := ih.mp hr
      exact ⟨o :: os₁, os₂, m', (run_cons_iff M).mpr ⟨o, os₁, m, hs, h₁, rfl⟩, h₂, rfl⟩
    · rintro ⟨os₁, os₂, m', h₁, h₂, rfl⟩
      obtain ⟨o, os', m, hs, hr, rfl⟩ := (run_cons_iff M).mp h₁
      exact ⟨o, os' ++ os₂, m, hs, ih.mpr ⟨os', os₂, m', hr, h₂, rfl⟩, rfl⟩

theorem run_singleton_iff {s t : σ} {a : ι} {os : List ω} :
    M.run s [a] = some (os, t) ↔ ∃ o, M.step s a = some (o, t) ∧ os = [o] := by
  rw [run_cons_iff]
  constructor
  · rintro ⟨o, os', m, hs, hr, rfl⟩
    cases hr
    exact ⟨o, hs, rfl⟩
  · rintro ⟨o, hs, rfl⟩
    exact ⟨o, [], t, hs, rfl, rfl⟩

/-- A run can be cut wherever its outputs can. -/
theorem run_split : ∀ {os₁ os₂ : List ω} {as : List ι} {s t : σ}, M.run s as = some (os₁ ++ os₂, t) →
    ∃ as₁ as₂ m, M.run s as₁ = some (os₁, m) ∧ M.run m as₂ = some (os₂, t) := by
  intro os₁
  induction os₁ with
  | nil => exact fun {os₂ as s t} h => ⟨[], as, s, rfl, h⟩
  | cons o os₁ ih =>
    intro os₂ as s t h
    cases as with
    | nil => cases h
    | cons a as =>
      obtain ⟨o', os', m, hs, hr, he⟩ := (run_cons_iff M).mp h
      obtain ⟨rfl, rfl⟩ := List.cons.inj he
      obtain ⟨as₁, as₂, m', h₁, h₂⟩ := ih hr
      exact ⟨a :: as₁, as₂, m', (run_cons_iff M).mpr ⟨o, os₁, m, hs, h₁, rfl⟩, h₂⟩

/-- A run with the given outputs. -/
theorem exists_run {s : σ} {as : List ι} {os : List ω} (h : (M.run s as).map Prod.fst = some os) :
    ∃ t, M.run s as = some (os, t) := by
  obtain ⟨⟨os', t⟩, h', rfl⟩ := Option.map_eq_some_iff.mp h
  exact ⟨t, h'⟩

/-- Every output of a run is the output of a step that took one of the inputs. -/
theorem exists_step_of_mem {as : List ι} : ∀ {s t : σ} {os : List ω}, M.run s as = some (os, t) → ∀ o ∈ os,
    ∃ a ∈ as, ∃ m m', M.step m a = some (o, m') := by
  induction as with
  | nil =>
    intro s t os h o ho
    cases h
    exact absurd ho List.not_mem_nil
  | cons a as ih =>
    intro s t os h o ho
    obtain ⟨o', os', m, hs, hr, rfl⟩ := (run_cons_iff M).mp h
    rcases List.mem_cons.mp ho with rfl | ho
    · exact ⟨a, List.mem_cons_self, s, m, hs⟩
    · obtain ⟨a', ha, h'⟩ := ih hr o ho
      exact ⟨a', List.mem_cons_of_mem _ ha, h'⟩

variable {M}

/-- **The invariant rule with history**: `P` holds of the outputs so far and the state they lead to. -/
theorem run_history {P : List ω → σ → Prop}
    (hstep : ∀ {l s a o t}, P l s → M.step s a = some (o, t) → P (l ++ [o]) t) :
    ∀ {as : List ι} {l os : List ω} {s t : σ}, P l s → M.run s as = some (os, t) → P (l ++ os) t := by
  intro as
  induction as with
  | nil =>
    intro l os s t hP h
    cases h
    simpa using hP
  | cons a as ih =>
    intro l os s t hP h
    obtain ⟨o, os', m, hs, hr, rfl⟩ := (run_cons_iff M).mp h
    have h' := ih (hstep hP hs) hr
    simpa using h'

/-- **The invariant rule with the inputs**: `P` holds of the inputs so far and the state they lead to. -/
theorem run_inputs {P : List ι → σ → Prop} (hstep : ∀ {l s a o t}, P l s → M.step s a = some (o, t) → P (l ++ [a]) t) :
    ∀ {as l : List ι} {os : List ω} {s t : σ}, P l s → M.run s as = some (os, t) → P (l ++ as) t := by
  intro as
  induction as with
  | nil =>
    intro l os s t hP h
    cases h
    simpa using hP
  | cons a as ih =>
    intro l os s t hP h
    obtain ⟨o, os', m, hs, hr, rfl⟩ := (run_cons_iff M).mp h
    have h' := ih (hstep hP hs) hr
    simpa using h'

theorem run_invariant {P : σ → Prop} (hstep : ∀ {s a o t}, P s → M.step s a = some (o, t) → P t)
    {as : List ι} {os : List ω} {s t : σ} (hP : P s) (h : M.run s as = some (os, t)) : P t :=
  run_history (P := fun _ s => P s) hstep (l := []) hP h

/-- **Ranks**: if no step raises the rank `r` and each that takes one of the inputs `p` lowers it, a run takes at most
as many of them as the rank it starts with. -/
theorem run_rank {P : σ → Prop} {r : σ → Nat} {p : ι → Bool}
    (hkeep : ∀ {s a o t}, P s → M.step s a = some (o, t) → P t)
    (hrank : ∀ {s a o t}, P s → M.step s a = some (o, t) → r t + (if p a then 1 else 0) ≤ r s) :
    ∀ {as : List ι} {os : List ω} {s t : σ}, P s → M.run s as = some (os, t) → r t + as.countP p ≤ r s := by
  intro as
  induction as with
  | nil =>
    intro os s t _ h
    cases h
    exact Nat.le_refl _
  | cons a as ih =>
    intro os s t hP h
    obtain ⟨o, os', m, hs, hr, rfl⟩ := (run_cons_iff M).mp h
    have hstep := hrank hP hs
    have hrest := ih (hkeep hP hs) hr
    rw [List.countP_cons]
    omega

end Run

/-! ## Reachable states -/

section Reaches
variable {σ ι ω : Type*} {M : Machine σ ι ω}

/-- Some run leads from `s` to `t`. -/
def Reaches (M : Machine σ ι ω) (s t : σ) : Prop := ∃ as os, M.run s as = some (os, t)

theorem Reaches.refl (s : σ) : M.Reaches s s := ⟨[], [], rfl⟩

theorem Reaches.trans {s m t : σ} (h₁ : M.Reaches s m) (h₂ : M.Reaches m t) : M.Reaches s t := by
  obtain ⟨as, os, h₁⟩ := h₁
  obtain ⟨bs, os', h₂⟩ := h₂
  exact ⟨as ++ bs, os ++ os', (run_append_iff M).mpr ⟨os, os', m, h₁, h₂, rfl⟩⟩

theorem Reaches.step {s m t : σ} {a : ι} {o : ω} (h : M.Reaches s m) (hs : M.step m a = some (o, t)) :
    M.Reaches s t :=
  h.trans ⟨[a], [o], (run_singleton_iff M).mpr ⟨o, hs, rfl⟩⟩

theorem Reaches.invariant {P : σ → Prop} (hstep : ∀ {s a o t}, P s → M.step s a = some (o, t) → P t) {s t : σ}
    (h : M.Reaches s t) (hP : P s) : P t := by
  obtain ⟨as, os, h⟩ := h
  exact run_invariant hstep hP h

/-- **Completion**: if every state that is not final has a step to a state of lower rank, every state reaches a final
one. -/
theorem exists_reaches {P F : σ → Prop} {r : σ → Nat}
    (hgo : ∀ {s}, P s → ¬F s → ∃ a o t, M.step s a = some (o, t) ∧ P t ∧ r t < r s) :
    ∀ {n : Nat} {s : σ}, r s ≤ n → P s → ∃ t, M.Reaches s t ∧ F t := by
  intro n
  induction n with
  | zero =>
    intro s hn hP
    by_cases hF : F s
    · exact ⟨s, .refl s, hF⟩
    · obtain ⟨a, o, t, -, -, hlt⟩ := hgo hP hF
      omega
  | succ n ih =>
    intro s hn hP
    by_cases hF : F s
    · exact ⟨s, .refl s, hF⟩
    · obtain ⟨a, o, t, hs, ht, hlt⟩ := hgo hP hF
      obtain ⟨u, hu, hFu⟩ := ih (by omega) ht
      exact ⟨u, ((Reaches.refl s).step hs).trans hu, hFu⟩

end Reaches

section Along
variable {σ ι ω : Type*} (M : Machine σ ι ω)

/-- Every step of the run over the inputs is taken in a state where `Q` holds of it. -/
def Along (Q : σ → ι → Prop) : σ → List ι → Prop
  | _, [] => True
  | s, a :: as => Q s a ∧ (M.step s a).elim True fun r => Along Q r.2 as

instance decidableAlong {Q : σ → ι → Prop} [∀ s a, Decidable (Q s a)] : ∀ s as, Decidable (M.Along Q s as)
  | _, [] => .isTrue trivial
  | s, a :: as =>
    have : Decidable ((M.step s a).elim True fun r => M.Along Q r.2 as) :=
      match M.step s a with
      | none => .isTrue trivial
      | some r => decidableAlong r.2 as
    inferInstanceAs (Decidable (Q s a ∧ _))

variable {M}

theorem along_cons_iff {Q : σ → ι → Prop} {s t : σ} {a : ι} {as : List ι} {o : ω} (hs : M.step s a = some (o, t)) :
    M.Along Q s (a :: as) ↔ Q s a ∧ M.Along Q t as := by
  show (Q s a ∧ (M.step s a).elim True fun r => M.Along Q r.2 as) ↔ _
  rw [hs]
  exact Iff.rfl

theorem along_of_forall {Q : σ → ι → Prop} : ∀ {as : List ι} {s : σ}, (∀ a ∈ as, ∀ s, Q s a) → M.Along Q s as := by
  intro as
  induction as with
  | nil => exact fun _ => trivial
  | cons a as ih =>
    intro s h
    refine ⟨h a List.mem_cons_self s, ?_⟩
    cases M.step s a with
    | none => exact trivial
    | some r => exact ih fun b hb => h b (List.mem_cons_of_mem _ hb)

/-- What holds along a run by an invariant that the run keeps along `Q`. -/
theorem along_of_invariant {P : σ → Prop} {Q R : σ → ι → Prop}
    (hstep : ∀ {s a o t}, P s → Q s a → M.step s a = some (o, t) → P t) (hR : ∀ {s a}, P s → Q s a → R s a) :
    ∀ {as : List ι} {s : σ}, P s → M.Along Q s as → M.Along R s as := by
  intro as
  induction as with
  | nil => exact fun _ _ => trivial
  | cons a as ih =>
    intro s hP hQ
    refine ⟨hR hP hQ.1, ?_⟩
    have hrest := hQ.2
    cases hs : M.step s a with
    | none => exact trivial
    | some r =>
      rw [hs] at hrest
      exact ih (hstep hP hQ.1 hs) hrest

/-- What holds along a run of a value that the run itself fixes at some step: `P` until then, `I x` from then on. -/
theorem exists_along {κ : Type*} {K : κ → Prop} {P : σ → Prop} {I : κ → σ → Prop} {Q : σ → ι → Prop}
    {R : κ → σ → ι → Prop} (hK : ∃ x, K x)
    (hfix : ∀ {s a o t}, P s → Q s a → M.step s a = some (o, t) → P t ∨ ∃ x, K x ∧ I x t)
    (hkeep : ∀ {x s a o t}, I x s → Q s a → M.step s a = some (o, t) → I x t)
    (hbefore : ∀ {x s a}, P s → Q s a → R x s a) (hafter : ∀ {x s a}, I x s → Q s a → R x s a) :
    ∀ {as : List ι} {s : σ}, P s → M.Along Q s as → ∃ x, K x ∧ M.Along (R x) s as := by
  intro as
  induction as with
  | nil => exact fun _ _ => hK.imp fun x hx => ⟨hx, trivial⟩
  | cons a as ih =>
    intro s hP hQ
    cases hs : M.step s a with
    | none =>
      obtain ⟨x, hx⟩ := hK
      refine ⟨x, hx, hbefore hP hQ.1, ?_⟩
      rw [hs]
      exact trivial
    | some r =>
      obtain ⟨hQa, hQas⟩ := (along_cons_iff hs).mp hQ
      rcases hfix hP hQa hs with hP' | ⟨x, hx, hI⟩
      · obtain ⟨x, hx, hR⟩ := ih hP' hQas
        exact ⟨x, hx, (along_cons_iff hs).mpr ⟨hbefore hP hQa, hR⟩⟩
      · exact ⟨x, hx, (along_cons_iff hs).mpr ⟨hbefore hP hQa, along_of_invariant hkeep hafter hI hQas⟩⟩

/-- If, while an invariant holds, a step's output is good exactly when `Q` holds of the step, a run's outputs are good
exactly along `Q`. -/
theorem run_along_iff_of_invariant {P : σ → Prop} {Q : σ → ι → Prop} {G : ω → Prop}
    (hkeep : ∀ {s a o t}, P s → M.step s a = some (o, t) → P t)
    (hstep : ∀ {s a o t}, P s → M.step s a = some (o, t) → (G o ↔ Q s a)) :
    ∀ {as : List ι} {os : List ω} {s t : σ}, P s → M.run s as = some (os, t) → ((∀ o ∈ os, G o) ↔ M.Along Q s as) := by
  intro as
  induction as with
  | nil =>
    intro os s t _ h
    cases h
    exact ⟨fun _ => trivial, fun _ o ho => absurd ho List.not_mem_nil⟩
  | cons a as ih =>
    intro os s t hP h
    obtain ⟨o, os', m, hs, hr, rfl⟩ := (run_cons_iff M).mp h
    rw [List.forall_mem_cons, hstep hP hs, ih (hkeep hP hs) hr, along_cons_iff hs]

theorem run_along_iff {Q : σ → ι → Prop} {G : ω → Prop}
    (hstep : ∀ {s a o t}, M.step s a = some (o, t) → (G o ↔ Q s a)) {as : List ι} {os : List ω} {s t : σ}
    (h : M.run s as = some (os, t)) : (∀ o ∈ os, G o) ↔ M.Along Q s as :=
  run_along_iff_of_invariant (P := fun _ => True) (fun _ _ => trivial) (fun _ => hstep) trivial h

theorem run_history_along {Q : σ → ι → Prop} {P : List ω → σ → Prop}
    (hstep : ∀ {l s a o t}, P l s → Q s a → M.step s a = some (o, t) → P (l ++ [o]) t) :
    ∀ {as : List ι} {l os : List ω} {s t : σ}, P l s → M.Along Q s as → M.run s as = some (os, t) →
      P (l ++ os) t := by
  intro as
  induction as with
  | nil =>
    intro l os s t hP _ h
    cases h
    simpa using hP
  | cons a as ih =>
    intro l os s t hP hQ h
    obtain ⟨o, os', m, hs, hr, rfl⟩ := (run_cons_iff M).mp h
    obtain ⟨hQa, hQas⟩ := (along_cons_iff hs).mp hQ
    have h' := ih (hstep hP hQa hs) hQas hr
    simpa using h'

theorem run_invariant_along {Q : σ → ι → Prop} {P : σ → Prop}
    (hstep : ∀ {s a o t}, P s → Q s a → M.step s a = some (o, t) → P t)
    {as : List ι} {os : List ω} {s t : σ} (hP : P s) (hQ : M.Along Q s as) (h : M.run s as = some (os, t)) :
    P t :=
  run_history_along (P := fun _ s => P s) hstep (l := []) hP hQ h

/-- Every output of a run is good if the output of each of its steps is, taken where the invariant and `Q` hold. -/
theorem run_outputs_along {P : σ → Prop} {Q : σ → ι → Prop} {G : ω → Prop}
    (hstep : ∀ {s a o t}, P s → Q s a → M.step s a = some (o, t) → G o ∧ P t)
    {as : List ι} {os : List ω} {s t : σ} (hP : P s) (hQ : M.Along Q s as) (h : M.run s as = some (os, t)) :
    (∀ o ∈ os, G o) ∧ P t :=
  run_history_along (P := fun os s => (∀ o ∈ os, G o) ∧ P s)
    (fun hl hq hs => by
      obtain ⟨ho, ht⟩ := hstep hl.2 hq hs
      exact ⟨List.forall_mem_append.mpr ⟨hl.1, List.forall_mem_singleton.mpr ho⟩, ht⟩)
    (l := []) ⟨List.forall_mem_nil _, hP⟩ hQ h

/-- Of inputs alone, what holds along a run holds of all its inputs. -/
theorem along_iff_forall {p : ι → Prop} {as : List ι} : ∀ {os : List ω} {s t : σ}, M.run s as = some (os, t) →
    (M.Along (fun _ => p) s as ↔ ∀ a ∈ as, p a) := by
  induction as with
  | nil => exact fun _ => iff_of_true trivial fun _ ha => absurd ha List.not_mem_nil
  | cons a as ih =>
    intro os s t h
    obtain ⟨o, os', m, hs, hr, rfl⟩ := (run_cons_iff M).mp h
    rw [along_cons_iff hs, ih hr, List.forall_mem_cons]

/-- Two conditions that agree on every step, while an invariant holds, agree along a run. -/
theorem along_congr {P : σ → Prop} {Q R : σ → ι → Prop} (hkeep : ∀ {s a o t}, P s → M.step s a = some (o, t) → P t)
    (hstep : ∀ {s a o t}, P s → M.step s a = some (o, t) → (Q s a ↔ R s a)) {as : List ι} :
    ∀ {os : List ω} {s t : σ}, P s → M.run s as = some (os, t) → (M.Along Q s as ↔ M.Along R s as) := by
  induction as with
  | nil => exact fun _ _ => Iff.rfl
  | cons a as ih =>
    intro os s t hP h
    obtain ⟨o, os', m, hs, hr, rfl⟩ := (run_cons_iff M).mp h
    rw [along_cons_iff hs, along_cons_iff hs, hstep hP hs, ih (hkeep hP hs) hr]

theorem along_and {Q R : σ → ι → Prop} : ∀ {as : List ι} {s : σ}, M.Along Q s as → M.Along R s as →
    M.Along (fun s a => Q s a ∧ R s a) s as := by
  intro as
  induction as with
  | nil => exact fun _ _ => trivial
  | cons a as ih =>
    intro s hQ hR
    refine ⟨⟨hQ.1, hR.1⟩, ?_⟩
    have hQ' := hQ.2
    have hR' := hR.2
    cases hs : M.step s a with
    | none => exact trivial
    | some r =>
      rw [hs] at hQ' hR'
      exact ih hQ' hR'

/-- A run that is not doomed at its end meets `Q` at every step: if a step outside `Q` dooms a run, and a doomed run
stays so along `R`. -/
theorem along_of_not_doomed {P B : σ → Prop} {Q R : σ → ι → Prop}
    (hkeep : ∀ {s a o t}, P s → R s a → M.step s a = some (o, t) → P t)
    (hbegin : ∀ {s a o t}, P s → ¬Q s a → M.step s a = some (o, t) → B t)
    (hstay : ∀ {s a o t}, P s → B s → R s a → M.step s a = some (o, t) → B t) :
    ∀ {as : List ι} {os : List ω} {s t : σ}, P s → M.run s as = some (os, t) → ¬B t → M.Along R s as →
      M.Along Q s as := by
  intro as
  induction as with
  | nil => exact fun _ _ _ _ => trivial
  | cons a as ih =>
    intro os s t hP h hB hR
    obtain ⟨o, os', m, hs, hr, rfl⟩ := (run_cons_iff M).mp h
    obtain ⟨hRa, hR'⟩ := (along_cons_iff hs).mp hR
    refine (along_cons_iff hs).mpr ⟨?_, ih (hkeep hP hRa hs) hr hB hR'⟩
    by_contra hQ
    refine hB (run_invariant_along (P := fun s => P s ∧ B s) ?_ ⟨hkeep hP hRa hs, hbegin hP hQ hs⟩ hR' hr).2
    exact fun hPB hRa hs => ⟨hkeep hPB.1 hRa hs, hstay hPB.1 hPB.2 hRa hs⟩

theorem run_outputs {P : σ → Prop} {G : ω → Prop} (hstep : ∀ {s a o t}, P s → M.step s a = some (o, t) → G o ∧ P t)
    {as : List ι} {os : List ω} {s t : σ} (hP : P s) (h : M.run s as = some (os, t)) : (∀ o ∈ os, G o) ∧ P t :=
  run_outputs_along (Q := fun _ _ => True) (fun hP _ => hstep hP) hP (along_of_forall fun _ _ _ => trivial) h

end Along

/-! ## Guided machines -/

section Guided
variable {σ ι ω κ : Type*} (M : Machine σ ι ω) (next : κ → ι → ω → Option κ)

/-- The machine under a program: `next k a o` is where the program goes from `k` by the input `a` with the output `o`,
or `none` if it does not take `a` there. -/
def guided : Machine (σ × κ) ι ω where
  step s a := (M.step s.1 a).bind fun r => (next s.2 a r.1).map fun k => (r.1, r.2, k)

variable {M next}

theorem guided_step_iff {s t : σ} {k l : κ} {a : ι} {o : ω} :
    (M.guided next).step (s, k) a = some (o, t, l) ↔ M.step s a = some (o, t) ∧ next k a o = some l := by
  simp only [guided, Option.bind_eq_some_iff, Option.map_eq_some_iff]
  constructor
  · rintro ⟨⟨o', t'⟩, hs, l', hl, h⟩
    cases h
    exact ⟨hs, hl⟩
  · rintro ⟨hs, hl⟩
    exact ⟨(o, t), hs, l, hl, rfl⟩

/-- A run under a program is a run of the machine. -/
theorem guided_run {as : List ι} : ∀ {s t : σ} {k l : κ} {os : List ω},
    (M.guided next).run (s, k) as = some (os, t, l) → M.run s as = some (os, t) := by
  induction as with
  | nil =>
    intro s t k l os h
    cases h
    rfl
  | cons a as ih =>
    intro s t k l os h
    obtain ⟨o, os', ⟨m, j⟩, hs, hr, rfl⟩ := (run_cons_iff _).mp h
    exact (run_cons_iff _).mpr ⟨o, os', m, (guided_step_iff.mp hs).1, ih hr, rfl⟩

/-- What holds along a run under a program holds along it as a run of the machine. -/
theorem guided_along {Q : σ → ι → Prop} {as : List ι} : ∀ {s t : σ} {k l : κ} {os : List ω},
    (M.guided next).run (s, k) as = some (os, t, l) → (M.guided next).Along (fun s a => Q s.1 a) (s, k) as →
      M.Along Q s as := by
  induction as with
  | nil => exact fun _ _ => trivial
  | cons a as ih =>
    intro s t k l os h hQ
    obtain ⟨o, os', ⟨m, j⟩, hs, hr, rfl⟩ := (run_cons_iff _).mp h
    obtain ⟨hQa, hQas⟩ := (along_cons_iff hs).mp hQ
    exact (along_cons_iff (guided_step_iff.mp hs).1).mpr ⟨hQa, ih hr hQas⟩

end Guided

section Simulation
variable {σ σ' ι ι' ω ω' : Type*} {M : Machine σ ι ω}

/-- **Lockstep**: related states take the same inputs to the same outputs, while inputs are admissible. -/
theorem run_lockstep {N : Machine σ' ι ω} {p : ι → Prop} {R : σ → σ' → Prop}
    (hstep : ∀ {s s' a o t}, R s s' → p a → M.step s a = some (o, t) → ∃ t', N.step s' a = some (o, t') ∧ R t t') :
    ∀ {as : List ι} {os : List ω} {s t : σ} {s' : σ'}, R s s' → (∀ a ∈ as, p a) → M.run s as = some (os, t) →
      ∃ t', N.run s' as = some (os, t') ∧ R t t' := by
  intro as
  induction as with
  | nil =>
    intro os s t s' hR _ h
    cases h
    exact ⟨s', rfl, hR⟩
  | cons a as ih =>
    intro os s t s' hR hin h
    obtain ⟨o, os', m, hs, hr, rfl⟩ := (run_cons_iff M).mp h
    obtain ⟨m', hs', hR'⟩ := hstep hR (hin a List.mem_cons_self) hs
    obtain ⟨t', hr', hR''⟩ := ih hR' (fun b hb => hin b (List.mem_cons_of_mem _ hb)) hr
    exact ⟨t', (run_cons_iff N).mpr ⟨o, os', m', hs', hr', rfl⟩, hR''⟩

/-- **Functional simulation**: if every step of `M` is the step of `N` under `f`, so is every run. -/
theorem run_map {N : Machine σ' ι ω} {P : σ → Prop} {f : σ → σ'}
    (hkeep : ∀ {s a o t}, P s → M.step s a = some (o, t) → P t)
    (hstep : ∀ {s}, P s → ∀ a, N.step (f s) a = (M.step s a).map (Prod.map id f)) :
    ∀ {as : List ι} {s : σ}, P s → N.run (f s) as = (M.run s as).map (Prod.map id f) := by
  intro as
  induction as with
  | nil => exact fun _ => rfl
  | cons a as ih =>
    intro s hP
    rw [run, run, hstep hP]
    cases hs : M.step s a with
    | none => rfl
    | some r =>
      show (N.run (f r.2) as).map _ = ((M.run r.2 as).map _).map _
      rw [ih (hkeep hP hs), Option.map_map, Option.map_map]
      rfl

/-- **Simulation up to outputs**: a step with output `o` is matched by a run with outputs `f o`. -/
theorem run_simulates {N : Machine σ' ι' ω'} {f : ω → List ω'} {R : σ → σ' → Prop}
    (hstep : ∀ {s s' a o t}, R s s' → M.step s a = some (o, t) →
      ∃ bs t', N.run s' bs = some (f o, t') ∧ R t t') :
    ∀ {as : List ι} {os : List ω} {s t : σ} {s' : σ'}, R s s' → M.run s as = some (os, t) →
      ∃ bs t', N.run s' bs = some (os.flatMap f, t') ∧ R t t' := by
  intro as
  induction as with
  | nil =>
    intro os s t s' hR h
    cases h
    exact ⟨[], s', rfl, hR⟩
  | cons a as ih =>
    intro os s t s' hR h
    obtain ⟨o, os', m, hs, hr, rfl⟩ := (run_cons_iff M).mp h
    obtain ⟨bs, m', hb, hR'⟩ := hstep hR hs
    obtain ⟨bs', t', hb', hR''⟩ := ih hR' hr
    exact ⟨bs ++ bs', t', (run_append_iff N).mpr ⟨f o, os'.flatMap f, m', hb, hb', by simp⟩, hR''⟩

end Simulation

end Machine

end TheGrind.Transition
