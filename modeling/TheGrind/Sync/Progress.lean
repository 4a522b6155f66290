import TheGrind.Sync.Monitor

/-!
# Progress of monitors

What keeps the threads of a monitor from going on. A thread with the lock always can, if its own computations can
(`Program.Able`); so when none can, the lock is free, and every thread is in no call or asleep.

* `Settled` : the threads are where the lists of the condition have them, and a waiting thread is at a wait;
* `Stuck` : no thread has a next step; `stuck_iff` : what that means in a settled state.
-/

namespace TheGrind.Sync
open TheGrind.Transition

/-- Every computation under the lock has an outcome, for some choice of the environment. -/
def Program.Able {τ π δ ε ω : Type*} (P : Program τ π δ ε ω) : Prop :=
  ∀ p f, P.code p = .act f → ∀ t now d, ∃ e r, f t now e d = some r

/-- A step of a thread in its method. -/
def Move.isRun {τ π ε : Type*} : Move τ π ε → Bool
  | .run _ _ => true
  | _ => false

namespace Monitor
variable {τ π δ ε ω : Type*} [DecidableEq τ] {P : Program τ π δ ε ω} {m m' : Monitor τ π δ} {a : Move τ π ε}
  {o : Option ω} {t : τ}

/-- The owner is inside, and the threads in a wait are at a wait. -/
structure Settled (P : Program τ π δ ε ω) (m : Monitor τ π δ) : Prop extends Placed P m where
  waits : ∀ t p deadline, m.threads t = .waiting p deadline → ∃ timeout next, P.code p = .wait timeout next

omit [DecidableEq τ] in
theorem settled_init [DecidableEq τ] {d : δ} {p : π} (hp : ¬(P.code p).Locked) : Settled P (init (τ := τ) d p) where
  toPlaced := placed_init hp
  waits _ _ _ h := nomatch h

/-- A thread comes to wait at a wait only. -/
theorem Settled.steps (h : Settled P m) (hs : Steps P m a o m') : Settled P m' := by
  refine ⟨h.toPlaced.steps hs, ?_⟩
  have hgoto {t : τ} {th : Thread π} (ht : ∀ p deadline, th = .waiting p deadline →
      ∃ timeout next, P.code p = .wait timeout next) : ∀ u p deadline, Function.update m.threads t th u =
        .waiting p deadline → ∃ timeout next, P.code p = .wait timeout next :=
    (Function.forall_update_iff m.threads fun _ th => ∀ p deadline, th = .waiting p deadline →
      ∃ timeout next, P.code p = .wait timeout next).mpr ⟨ht, fun u _ => h.waits u⟩
  cases hs with
  | tick _ => exact h.waits
  | call _ _ _ | acquire _ _ _ | act _ _ _ | notify _ _ | notifyAll _ _ | release _ _ _ | reacquire _ _ _ =>
    exact hgoto fun _ _ hth => nomatch hth
  | wait _ hcode _ =>
    refine hgoto fun _ _ hth => ?_
    cases hth
    exact ⟨_, _, hcode⟩
  | expire hp _ _ | rouse hp _ =>
    refine hgoto fun _ _ hth => ?_
    cases hth
    exact h.waits _ _ _ hp

theorem Settled.run {moves : List (Move τ π ε)} {os : List (Option ω)} (h : Settled P m)
    (hrun : (machine P).run m moves = some (os, m')) : Settled P m' :=
  Machine.run_invariant (fun h hs => h.steps (step_steps hs)) h hrun

/-- No thread has a next step. -/
def Stuck (P : Program τ π δ ε ω) (m : Monitor τ π δ) : Prop := ∀ t e, (machine P).step m (.run t e) = none

/-- The thread is in no call. -/
def Idle (P : Program τ π δ ε ω) : Thread π → Prop
  | .running p => P.code p = .idle
  | .waiting _ _ => False

/-- What a step of a thread does, it can do. -/
theorem run_of_steps {e : ε} (hs : Steps P m (.run t e) o m') : (machine P).step m (.run t e) = some (o, m') := by
  show runThread P m t e = some (o, m')
  unfold runThread
  cases hs with
  | acquire hp hcode hc | wait hp hcode hc | release hp hcode hc | reacquire hp hcode hc =>
    simp only [hp, hcode, hc, Option.map_some]
  | act hp hcode hf => simp only [hp, hcode, hf, Option.map_some]
  | notify hp hcode | notifyAll hp hcode => simp only [hp, hcode]

omit [DecidableEq τ] in
theorem idle_iff {outside : π} (h : ∀ p, P.code p = .idle ↔ p = outside) {th : Thread π} :
    Idle P th ↔ th = .running outside := by
  cases th with
  | running p => exact (h p).trans ⟨fun hp => congrArg _ hp, fun hp => Thread.running.inj hp⟩
  | waiting p deadline => exact ⟨fun hi => absurd hi fun hi => hi, fun he => nomatch he⟩

/-- A thread in no call may make one. -/
theorem step_call {p q : π} (hp : m.threads t = .running p) (hcode : P.code p = .idle)
    (hq : P.entry t m.data q = true) :
    (machine P).step m (.call t q) = some (none, m.goto t (.running q) m.cond m.data) := by
  simp only [machine, hp, hcode, if_pos hq]

/-- The owner can go on. -/
theorem Placed.owner_goes [Nonempty ε] (h : Placed P m) (hable : P.Able) (ho : m.cond.owner = some t) :
    ∃ e r, (machine P).step m (.run t e) = some r := by
  obtain ⟨e⟩ := ‹Nonempty ε›
  have hin := (h.owner t).mp ho
  cases hp : m.threads t with
  | waiting p deadline =>
    rw [hp] at hin
    exact absurd hin fun hin => hin
  | running p =>
    rw [hp] at hin
    change (P.code p).Locked at hin
    cases hcode : P.code p with
    | idle | acquire q =>
      rw [hcode] at hin
      exact absurd hin fun hin => hin
    | act f =>
      obtain ⟨e, ⟨o, d, q⟩, hf⟩ := hable p f hcode t m.clock m.data
      exact ⟨e, _, run_of_steps (.act hp hcode hf)⟩
    | wait timeout next =>
      obtain ⟨c, hc⟩ := Condition.exists_wait ho
      exact ⟨e, _, run_of_steps (.wait hp hcode hc)⟩
    | notify q => exact ⟨e, _, run_of_steps (.notify hp hcode)⟩
    | notifyAll q => exact ⟨e, _, run_of_steps (.notifyAll hp hcode)⟩
    | release output q =>
      obtain ⟨c, hc⟩ := Condition.exists_release ho
      exact ⟨e, _, run_of_steps (.release hp hcode hc)⟩

/-- While the lock is free, a thread in a call goes on unless it sleeps. -/
theorem Settled.others_go [Nonempty ε] (h : Settled P m) (ho : m.cond.owner = none) (hi : ¬Idle P (m.threads t))
    (ha : ¬m.cond.Asleep t) : ∃ e r, (machine P).step m (.run t e) = some r := by
  obtain ⟨e⟩ := ‹Nonempty ε›
  cases hp : m.threads t with
  | waiting p deadline =>
    obtain ⟨timeout, next, hcode⟩ := h.waits t p deadline hp
    obtain ⟨⟨b, c⟩, hc⟩ := Condition.exists_reacquire ho ha
    exact ⟨e, _, run_of_steps (.reacquire hp hcode hc)⟩
  | running p =>
    rw [hp] at hi
    have hout : ¬(P.code p).Locked := fun hl =>
      absurd ((h.owner t).mpr (by rw [hp]; exact hl)) (by rw [ho]; exact (Option.some_ne_none t).symm)
    cases hcode : P.code p with
    | idle => exact absurd hcode hi
    | acquire q =>
      obtain ⟨c, hc⟩ := Condition.exists_acquire ho (h.outside t p hp)
      exact ⟨e, _, run_of_steps (.acquire hp hcode hc)⟩
    | act _ | wait _ _ | notify _ | notifyAll _ | release _ _ =>
      rw [hcode] at hout
      exact absurd trivial hout

/-- An idle thread, and one that sleeps in a wait, has no next step. -/
theorem step_of_idle {e : ε} (hi : Idle P (m.threads t)) : (machine P).step m (.run t e) = none := by
  cases hs : (machine P).step m (.run t e) with
  | none => rfl
  | some r =>
    obtain ⟨o, m'⟩ := r
    cases step_steps hs with
    | acquire hp hcode _ | act hp hcode _ | wait hp hcode _ | notify hp hcode | notifyAll hp hcode
    | release hp hcode _ =>
      rw [hp] at hi
      exact nomatch hcode.symm.trans hi
    | reacquire hp _ _ =>
      rw [hp] at hi
      exact absurd hi fun hi => hi

theorem Placed.step_of_asleep {e : ε} (h : Placed P m) (ha : m.cond.Asleep t) :
    (machine P).step m (.run t e) = none := by
  cases hs : (machine P).step m (.run t e) with
  | none => rfl
  | some r =>
    obtain ⟨o, m'⟩ := r
    cases step_steps hs with
    | acquire hp _ _ | act hp _ _ | wait hp _ _ | notify hp _ | notifyAll hp _ | release hp _ _ =>
      exact absurd ha.1 (h.outside t _ hp).1
    | reacquire _ _ hc => exact absurd ha (Condition.reacquire_awake hc)

/-- **Deadlocks.** No thread can go on exactly if the lock is free and every thread is in no call or asleep. -/
theorem Settled.stuck_iff [Nonempty ε] (h : Settled P m) (hable : P.Able) :
    Stuck P m ↔ m.cond.owner = none ∧ ∀ t, Idle P (m.threads t) ∨ m.cond.Asleep t := by
  constructor
  · intro hstuck
    have hfree : m.cond.owner = none := by
      cases ho : m.cond.owner with
      | none => rfl
      | some t =>
        obtain ⟨e, r, hs⟩ := h.owner_goes hable ho
        exact nomatch (hstuck t e).symm.trans hs
    refine ⟨hfree, fun t => ?_⟩
    by_contra hne
    push Not at hne
    obtain ⟨e, r, hs⟩ := h.others_go hfree hne.1 hne.2
    exact nomatch (hstuck t e).symm.trans hs
  · rintro ⟨-, hall⟩ t e
    rcases hall t with hi | ha
    · exact step_of_idle hi
    · exact h.step_of_asleep ha

end Monitor

end TheGrind.Sync
