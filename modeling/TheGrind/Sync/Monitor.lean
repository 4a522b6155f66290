import Mathlib.Logic.Function.Basic
import Mathlib.Algebra.Order.Ring.Rat
import TheGrind.Sync.Condition
import TheGrind.Transition.Machine

/-!
# Monitors

A `Program` says what a thread does at each point `π` of the methods of a monitor: data `δ` behind one lock with a
condition variable. Its threads run under every interleaving (`Monitor.machine`), one instruction a step.

* `Program.flows` : the points at which a thread has the lock are the ones the instructions make them to be, so a
  thread is at such a point exactly when it is the owner (`Placed`);
* `Outline` : a proof outline. `free` holds while nobody has the lock, `held` is what the owner knows at its point, and
  `off` what a thread knows without the lock;
* `Outline.Sound` : one condition for each point of the program;
* `Outline.Holds` : the outline holds; `holds_step`, `holds_run` : it holds of every state of a run.
-/

namespace TheGrind.Sync
open TheGrind.Transition

/-- What a thread does at a point: `act` computes on the data, with the clock and a choice of the environment. -/
inductive Instr (τ π δ ε ω : Type*) where
  | idle
  | acquire (next : π)
  | act (f : τ → ℚ → ε → δ → Option (Option ω × δ × π))
  | wait (timeout : Option ℚ) (next : Bool → π)
  | notify (next : π)
  | notifyAll (next : π)
  | release (output : τ → Option ω) (next : π)

/-- The thread has the lock. -/
def Instr.Locked {τ π δ ε ω : Type*} : Instr τ π δ ε ω → Prop
  | .idle => False
  | .acquire _ => False
  | _ => True

/-- Where an instruction leads has the lock, or has it not, as the instruction says. -/
def Instr.Flows {τ π δ ε ω : Type*} (code : π → Instr τ π δ ε ω) : Instr τ π δ ε ω → Prop
  | .idle => True
  | .acquire q => (code q).Locked
  | .act f => ∀ t now e d o d' q, f t now e d = some (o, d', q) → (code q).Locked
  | .wait _ next => ∀ b, (code (next b)).Locked
  | .notify q => (code q).Locked
  | .notifyAll q => (code q).Locked
  | .release _ q => ¬(code q).Locked

/-- The methods of a monitor. `entry` says which point a call of a thread may enter. -/
structure Program (τ π δ ε ω : Type*) where
  code : π → Instr τ π δ ε ω
  entry : τ → δ → π → Bool
  flows : ∀ p, (code p).Flows code
  entry_flows : ∀ t d p, entry t d p = true → ¬(code p).Locked

section Program
variable {τ π δ ε ω : Type*} (P : Program τ π δ ε ω) {p : π} {i : Instr τ π δ ε ω}

theorem Program.locked_of_code (hcode : P.code p = i) (hi : i.Locked) : (P.code p).Locked := by
  rw [hcode]
  exact hi

theorem Program.flows_of_code (hcode : P.code p = i) : i.Flows P.code := by
  have hflows := P.flows p
  rw [hcode] at hflows
  exact hflows

end Program

/-- A thread is at a point, or in the wait of a point until a deadline. -/
inductive Thread (π : Type*) where
  | running (p : π)
  | waiting (p : π) (deadline : Option ℚ)

structure Monitor (τ π δ : Type*) where
  data : δ
  cond : Condition τ
  clock : ℚ
  threads : τ → Thread π

/-- One move: the clock advances, a thread calls a method, makes a step, sees its timeout elapse or is roused. -/
inductive Move (τ π ε : Type*) where
  | tick (now : ℚ)
  | call (t : τ) (p : π)
  | run (t : τ) (choice : ε)
  | expire (t : τ)
  | rouse (t : τ)

/-- The thread that moves. -/
def Move.thread {τ π ε : Type*} : Move τ π ε → Option τ
  | .tick _ => none
  | .call t _ => some t
  | .run t _ => some t
  | .expire t => some t
  | .rouse t => some t

namespace Monitor
variable {τ π δ ε ω : Type*} [DecidableEq τ]

/-- All threads at the point `p` outside. -/
def init (d : δ) (p : π) : Monitor τ π δ := ⟨d, .init, 0, fun _ => .running p⟩

/-- A step of `t`. -/
def goto (m : Monitor τ π δ) (t : τ) (th : Thread π) (c : Condition τ) (d : δ) : Monitor τ π δ :=
  { m with data := d, cond := c, threads := Function.update m.threads t th }

@[simp] theorem threads_goto (m : Monitor τ π δ) (t : τ) (th : Thread π) (c : Condition τ) (d : δ) :
    (m.goto t th c d).threads t = th := Function.update_self _ _ _

/-- The next step of `t`. -/
def runThread (P : Program τ π δ ε ω) (m : Monitor τ π δ) (t : τ) (choice : ε) : Option (Option ω × Monitor τ π δ) :=
  match m.threads t with
  | .running p =>
    match P.code p with
    | .idle => none
    | .acquire q => (m.cond.acquire t).map fun c => (none, m.goto t (.running q) c m.data)
    | .act f => (f t m.clock choice m.data).map fun r => (r.1, m.goto t (.running r.2.2) m.cond r.2.1)
    | .wait timeout _ =>
      (m.cond.wait t).map fun c => (none, m.goto t (.waiting p (timeout.map (m.clock + ·))) c m.data)
    | .notify q => some (none, m.goto t (.running q) m.cond.notify m.data)
    | .notifyAll q => some (none, m.goto t (.running q) m.cond.notifyAll m.data)
    | .release output q => (m.cond.release t).map fun c => (output t, m.goto t (.running q) c m.data)
  | .waiting p _ =>
    match P.code p with
    | .wait _ next => (m.cond.reacquire t).map fun r => (none, m.goto t (.running (next r.1)) r.2 m.data)
    | _ => none

/-- A monitor under any number of threads. -/
def machine (P : Program τ π δ ε ω) : Machine (Monitor τ π δ) (Move τ π ε) (Option ω) where
  step m
    | .tick now => if m.clock ≤ now then some (none, { m with clock := now }) else none
    | .call t q =>
      match m.threads t with
      | .running p =>
        match P.code p with
        | .idle => if P.entry t m.data q then some (none, m.goto t (.running q) m.cond m.data) else none
        | _ => none
      | .waiting _ _ => none
    | .run t choice => runThread P m t choice
    | .expire t =>
      match m.threads t with
      | .waiting p (some deadline) =>
        if deadline ≤ m.clock then
          (m.cond.expire t).map fun c => (none, m.goto t (.waiting p (some deadline)) c m.data)
        else none
      | _ => none
    | .rouse t =>
      match m.threads t with
      | .waiting p deadline => (m.cond.rouse t).map fun c => (none, m.goto t (.waiting p deadline) c m.data)
      | .running _ => none

variable {P : Program τ π δ ε ω} {m m' : Monitor τ π δ} {a : Move τ π ε} {o : Option ω}

/-- What a step can do. -/
inductive Steps (P : Program τ π δ ε ω) (m : Monitor τ π δ) : Move τ π ε → Option ω → Monitor τ π δ → Prop
  | tick {now : ℚ} : m.clock ≤ now → Steps P m (.tick now) none { m with clock := now }
  | call {t : τ} {p q : π} : m.threads t = .running p → P.code p = .idle → P.entry t m.data q = true →
      Steps P m (.call t q) none (m.goto t (.running q) m.cond m.data)
  | acquire {t : τ} {p q : π} {e : ε} {c : Condition τ} : m.threads t = .running p → P.code p = .acquire q →
      m.cond.acquire t = some c → Steps P m (.run t e) none (m.goto t (.running q) c m.data)
  | act {t : τ} {p q : π} {e : ε} {f : τ → ℚ → ε → δ → Option (Option ω × δ × π)} {o : Option ω} {d : δ} :
      m.threads t = .running p → P.code p = .act f → f t m.clock e m.data = some (o, d, q) →
      Steps P m (.run t e) o (m.goto t (.running q) m.cond d)
  | wait {t : τ} {p : π} {e : ε} {timeout : Option ℚ} {next : Bool → π} {c : Condition τ} : m.threads t = .running p →
      P.code p = .wait timeout next → m.cond.wait t = some c →
      Steps P m (.run t e) none (m.goto t (.waiting p (timeout.map (m.clock + ·))) c m.data)
  | notify {t : τ} {p q : π} {e : ε} : m.threads t = .running p → P.code p = .notify q →
      Steps P m (.run t e) none (m.goto t (.running q) m.cond.notify m.data)
  | notifyAll {t : τ} {p q : π} {e : ε} : m.threads t = .running p → P.code p = .notifyAll q →
      Steps P m (.run t e) none (m.goto t (.running q) m.cond.notifyAll m.data)
  | release {t : τ} {p q : π} {e : ε} {output : τ → Option ω} {c : Condition τ} : m.threads t = .running p →
      P.code p = .release output q → m.cond.release t = some c →
      Steps P m (.run t e) (output t) (m.goto t (.running q) c m.data)
  | reacquire {t : τ} {p : π} {e : ε} {deadline timeout : Option ℚ} {next : Bool → π} {b : Bool} {c : Condition τ} :
      m.threads t = .waiting p deadline → P.code p = .wait timeout next → m.cond.reacquire t = some (b, c) →
      Steps P m (.run t e) none (m.goto t (.running (next b)) c m.data)
  | expire {t : τ} {p : π} {deadline : ℚ} {c : Condition τ} : m.threads t = .waiting p (some deadline) →
      deadline ≤ m.clock → m.cond.expire t = some c →
      Steps P m (.expire t) none (m.goto t (.waiting p (some deadline)) c m.data)
  | rouse {t : τ} {p : π} {deadline : Option ℚ} {c : Condition τ} : m.threads t = .waiting p deadline →
      m.cond.rouse t = some c → Steps P m (.rouse t) none (m.goto t (.waiting p deadline) c m.data)

theorem runThread_steps {t : τ} {e : ε} (h : runThread P m t e = some (o, m')) : Steps P m (.run t e) o m' := by
  unfold runThread at h
  split at h
  · next p hp =>
    split at h
    · cases h
    · next hcode =>
      obtain ⟨c, hc, h⟩ := Option.map_eq_some_iff.mp h
      cases h
      exact .acquire hp hcode hc
    · next hcode =>
      obtain ⟨⟨o', d, q⟩, hf, h⟩ := Option.map_eq_some_iff.mp h
      cases h
      exact .act hp hcode hf
    · next hcode =>
      obtain ⟨c, hc, h⟩ := Option.map_eq_some_iff.mp h
      cases h
      exact .wait hp hcode hc
    · next hcode =>
      cases h
      exact .notify hp hcode
    · next hcode =>
      cases h
      exact .notifyAll hp hcode
    · next hcode =>
      obtain ⟨c, hc, h⟩ := Option.map_eq_some_iff.mp h
      cases h
      exact .release hp hcode hc
  · next p deadline hp =>
    split at h
    · next hcode =>
      obtain ⟨⟨b, c⟩, hc, h⟩ := Option.map_eq_some_iff.mp h
      cases h
      exact .reacquire hp hcode hc
    · cases h

theorem step_steps (h : (machine P).step m a = some (o, m')) : Steps P m a o m' := by
  cases a with
  | tick now =>
    simp only [machine] at h
    split at h
    · next hle =>
      cases h
      exact .tick hle
    · cases h
  | call t q =>
    simp only [machine] at h
    split at h
    · next p hp =>
      split at h
      · next hcode =>
        split at h
        · next hentry =>
          cases h
          exact .call hp hcode hentry
        · cases h
      · cases h
    · cases h
  | run t e => exact runThread_steps h
  | expire t =>
    simp only [machine] at h
    split at h
    · next p deadline hp =>
      split at h
      · next hle =>
        obtain ⟨c, hc, h⟩ := Option.map_eq_some_iff.mp h
        cases h
        exact .expire hp hle hc
      · cases h
    · cases h
  | rouse t =>
    simp only [machine] at h
    split at h
    · next p deadline hp =>
      obtain ⟨c, hc, h⟩ := Option.map_eq_some_iff.mp h
      cases h
      exact .rouse hp hc
    · cases h

/-- A step leaves the other threads where they are. -/
theorem Steps.frame {u : τ} (hs : Steps P m a o m') (hu : a.thread ≠ some u) : m'.threads u = m.threads u := by
  have hne : ∀ {t : τ}, some t ≠ some u → u ≠ t := fun h he => h (congrArg some he.symm)
  cases hs with
  | tick _ => rfl
  | call _ _ _ | acquire _ _ _ | act _ _ _ | wait _ _ _ | notify _ _ | notifyAll _ _ | release _ _ _
  | reacquire _ _ _ | expire _ _ _ | rouse _ _ => exact Function.update_of_ne (hne hu) _ _

theorem Steps.clock_le (hs : Steps P m a o m') : m.clock ≤ m'.clock := by
  cases hs with
  | tick hle => exact hle
  | call _ _ _ | acquire _ _ _ | act _ _ _ | wait _ _ _ | notify _ _ | notifyAll _ _ | release _ _ _
  | reacquire _ _ _ | expire _ _ _ | rouse _ _ => exact le_rfl

/-! ## The owner -/

/-- A thread at a point where it has the lock. -/
def Inside (P : Program τ π δ ε ω) : Thread π → Prop
  | .running p => (P.code p).Locked
  | .waiting _ _ => False

/-- The owner is the one thread inside, and only waiting threads are on the lists of the condition. -/
structure Placed (P : Program τ π δ ε ω) (m : Monitor τ π δ) : Prop where
  owner : ∀ t, m.cond.owner = some t ↔ Inside P (m.threads t)
  outside : ∀ t p, m.threads t = .running p → m.cond.Outside t

omit [DecidableEq τ] in
theorem placed_init {d : δ} {p : π} (hp : ¬(P.code p).Locked) : Placed P (init (τ := τ) d p) where
  owner t := ⟨fun h => absurd h (by simp [init, Condition.init]), fun h => absurd h hp⟩
  outside t p _ := ⟨List.not_mem_nil, Finset.notMem_empty _, Finset.notMem_empty _⟩

namespace Placed

theorem goto {t : τ} {th : Thread π} {c : Condition τ} {d : δ} {w : Option τ} (h : Placed P m)
    (hc : Condition.Passes t w m.cond c) (hown : w = some t ↔ Inside P th)
    (hother : ∀ u, u ≠ t → (w = some u ↔ m.cond.owner = some u)) (hout : ∀ p, th = .running p → c.Outside t) :
    Placed P (m.goto t th c d) := by
  constructor
  · intro u
    show c.owner = some u ↔ Inside P (Function.update m.threads t th u)
    rw [hc.owner]
    by_cases hu : u = t
    · subst hu
      rw [Function.update_self]
      exact hown
    · rw [Function.update_of_ne hu, hother u hu]
      exact h.owner u
  · intro u p hp
    have hp' : Function.update m.threads t th u = .running p := hp
    by_cases hu : u = t
    · subst hu
      rw [Function.update_self] at hp'
      exact hout p hp'
    · rw [Function.update_of_ne hu] at hp'
      exact hc.outside u hu (h.outside u p hp')

/-- `t` makes a step with the lock and keeps it. -/
theorem inside {t : τ} {p q : π} {c : Condition τ} {d : δ} (h : Placed P m) (hp : m.threads t = .running p)
    (hl : (P.code p).Locked) (hq : (P.code q).Locked) (hc : Condition.Passes t m.cond.owner m.cond c) :
    Placed P (m.goto t (.running q) c d) := by
  have ho : m.cond.owner = some t := (h.owner t).mpr (by rw [hp]; exact hl)
  exact h.goto hc ⟨fun _ => hq, fun _ => ho⟩ (fun u _ => Iff.rfl) fun _ _ =>
    Condition.outside_of_owner (hc.owner.trans ho)

/-- `t` makes a step without the lock and does not take it. -/
theorem aside {t : τ} {th : Thread π} {c : Condition τ} {d : δ} (h : Placed P m) (ht : ¬Inside P (m.threads t))
    (hth : ¬Inside P th) (hc : Condition.Passes t m.cond.owner m.cond c) (hout : ∀ p, th = .running p → c.Outside t) :
    Placed P (m.goto t th c d) :=
  h.goto hc ⟨fun ho => absurd ((h.owner t).mp ho) ht, fun hi => absurd hi hth⟩ (fun _ _ => Iff.rfl) hout

/-- `t` takes the free lock. -/
theorem enter {t : τ} {q : π} {c : Condition τ} {d : δ} (h : Placed P m) (ho : m.cond.owner = none)
    (hq : (P.code q).Locked) (hc : Condition.Passes t (some t) m.cond c) : Placed P (m.goto t (.running q) c d) := by
  refine h.goto hc ⟨fun _ => hq, fun _ => rfl⟩ (fun u hu => ?_) fun _ _ => Condition.outside_of_owner hc.owner
  rw [ho]
  exact ⟨fun he => absurd (Option.some.inj he).symm hu, fun he => absurd he (by simp)⟩

/-- `t` gives the lock up. -/
theorem leave {t : τ} {th : Thread π} {c : Condition τ} {d : δ} (h : Placed P m) (ho : m.cond.owner = some t)
    (hth : ¬Inside P th) (hc : Condition.Passes t none m.cond c) (hout : ∀ p, th = .running p → c.Outside t) :
    Placed P (m.goto t th c d) := by
  refine h.goto hc ⟨fun he => absurd he (by simp), fun hi => absurd hi hth⟩ (fun u hu => ?_) hout
  rw [ho]
  exact ⟨fun he => absurd he (by simp), fun he => absurd (Option.some.inj he).symm hu⟩

theorem steps (h : Placed P m) (hs : Steps P m a o m') : Placed P m' := by
  cases hs with
  | tick _ => exact ⟨h.owner, h.outside⟩
  | @call t p q hp hcode hentry =>
    refine h.aside ?_ (P.entry_flows t _ q hentry) ⟨rfl, fun _ _ hu => hu⟩ fun _ _ => h.outside t p hp
    rw [hp]
    show ¬(P.code p).Locked
    rw [hcode]
    exact fun hi => hi
  | @acquire t p q e c hp hcode hc =>
    obtain ⟨ho, hpass, -⟩ := Condition.acquire_eq_some hc
    exact h.enter ho (P.flows_of_code hcode) hpass
  | @act t p q e f o d hp hcode hf =>
    have hq := P.flows_of_code hcode
    exact h.inside hp (P.locked_of_code hcode trivial) (hq _ _ _ _ _ _ _ hf) ⟨rfl, fun _ _ hu => hu⟩
  | wait hp hcode hc =>
    obtain ⟨ho, hpass⟩ := Condition.wait_eq_some hc
    exact h.leave ho (fun hi => hi) hpass fun _ hp => by cases hp
  | @notify t p q e hp hcode =>
    exact h.inside hp (P.locked_of_code hcode trivial) (P.flows_of_code hcode) Condition.passes_notify
  | @notifyAll t p q e hp hcode =>
    exact h.inside hp (P.locked_of_code hcode trivial) (P.flows_of_code hcode) Condition.passes_notifyAll
  | @release t p q e output c hp hcode hc =>
    obtain ⟨ho, hout, hpass, -⟩ := Condition.release_eq_some hc
    exact h.leave ho (P.flows_of_code hcode) hpass fun _ _ => hout
  | @reacquire t p e deadline timeout next b c hp hcode hc =>
    obtain ⟨ho, hpass, -⟩ := Condition.reacquire_eq_some hc
    exact h.enter ho (P.flows_of_code hcode b) hpass
  | expire hp _ hc =>
    obtain ⟨hpass, -⟩ := Condition.expire_eq_some hc
    exact h.aside (by rw [hp]; exact fun hi => hi) (fun hi => hi) hpass fun _ hp => by cases hp
  | rouse hp hc =>
    obtain ⟨hpass, -⟩ := Condition.rouse_eq_some hc
    exact h.aside (by rw [hp]; exact fun hi => hi) (fun hi => hi) hpass fun _ hp => by cases hp

theorem run {moves : List (Move τ π ε)} {os : List (Option ω)} (h : Placed P m)
    (hrun : (machine P).run m moves = some (os, m')) : Placed P m' :=
  Machine.run_invariant (fun h hs => h.steps (step_steps hs)) h hrun

/-- Only the owner changes the data. -/
theorem data (h : Placed P m) (hs : Steps P m a o m') :
    m'.data = m.data ∨ ∃ t, a.thread = some t ∧ m.cond.owner = some t := by
  cases hs with
  | tick _ | call _ _ _ | acquire _ _ _ | wait _ _ _ | notify _ _ | notifyAll _ _ | release _ _ _ | reacquire _ _ _
  | expire _ _ _ | rouse _ _ => exact Or.inl rfl
  | @act t p q e f o d hp hcode hf =>
    right
    refine ⟨t, rfl, (h.owner t).mpr ?_⟩
    rw [hp]
    exact P.locked_of_code hcode trivial

end Placed

/-! ## Proof outlines -/

end Monitor

/-- A proof outline: what holds while the lock is free, what the owner knows at its point, and what a thread knows
without the lock. -/
structure Outline (τ π δ : Type*) where
  free : δ → Condition τ → Prop
  held : τ → π → δ → Condition τ → Prop
  off : τ → π → δ → Prop

namespace Outline
variable {τ π δ ε ω : Type*} [DecidableEq τ]

/-- The condition for a point of the program. `N` is what the threads that notify may rely on. -/
def SoundAt (A : Outline τ π δ) (P : Program τ π δ ε ω) (N : Condition τ → Prop) (p : π) : Prop :=
  match P.code p with
  | .idle => True
  | .acquire q => ∀ t d c, A.free d c → A.off t p d → A.held t q d c
  | .act f => ∀ t now e d c o d' q, A.held t p d c → f t now e d = some (o, d', q) →
      A.held t q d' c ∧ ∀ u r, u ≠ t → A.off u r d → A.off u r d'
  | .wait _ next => (∀ t d c c', A.held t p d c → c.wait t = some c' → A.free d c' ∧ A.off t p d) ∧
      ∀ t d c c' b, A.free d c → A.off t p d → c.reacquire t = some (b, c') → A.held t (next b) d c'
  | .notify q => ∀ t d c, A.held t p d c → N c → A.held t q d c.notify
  | .notifyAll q => ∀ t d c, A.held t p d c → A.held t q d c.notifyAll
  | .release _ q => ∀ t d c, A.held t p d c → A.free d c ∧ A.off t q d

/-- The outline is one of the program. -/
structure Sound (A : Outline τ π δ) (P : Program τ π δ ε ω) (N : Condition τ → Prop) : Prop where
  free_quiet : ∀ d c c', A.free d c → Condition.Quiet c c' → A.free d c'
  held_quiet : ∀ t p d c c', A.held t p d c → Condition.Quiet c c' → A.held t p d c'
  entry : ∀ t d p, P.entry t d p = true → A.off t p d
  steps : ∀ p, A.SoundAt P N p

/-- What the outline says of a thread. -/
def Knows (A : Outline τ π δ) (P : Program τ π δ ε ω) (d : δ) (c : Condition τ) (t : τ) : Thread π → Prop
  | .running p => ((P.code p).Locked → A.held t p d c) ∧ (¬(P.code p).Locked → A.off t p d)
  | .waiting p _ => A.off t p d

/-- The outline holds. -/
structure Holds (A : Outline τ π δ) (P : Program τ π δ ε ω) (m : Monitor τ π δ) : Prop where
  placed : Monitor.Placed P m
  free : m.cond.owner = none → A.free m.data m.cond
  knows : ∀ t, A.Knows P m.data m.cond t (m.threads t)

/-- A thread that notifies finds what it relies on. -/
def NotifiesIf (P : Program τ π δ ε ω) (N : Condition τ → Prop) (m : Monitor τ π δ) : Move τ π ε → Prop
  | .run t _ =>
    match m.threads t with
    | .running p =>
      match P.code p with
      | .notify _ => N m.cond
      | _ => True
    | .waiting _ _ => True
  | _ => True

instance (P : Program τ π δ ε ω) (N : Condition τ → Prop) [DecidablePred N] (m : Monitor τ π δ) (a : Move τ π ε) :
    Decidable (NotifiesIf P N m a) := by
  unfold NotifiesIf
  repeat' split
  all_goals infer_instance

omit [DecidableEq τ] in
theorem notifiesIf_true {P : Program τ π δ ε ω} {m : Monitor τ π δ} {a : Move τ π ε} :
    NotifiesIf P (fun _ => True) m a := by
  unfold NotifiesIf
  repeat' split
  all_goals trivial

variable {A : Outline τ π δ} {P : Program τ π δ ε ω} {N : Condition τ → Prop} {m m' : Monitor τ π δ} {a : Move τ π ε}
  {o : Option ω}

namespace Holds

theorem goto {t : τ} {th : Thread π} {c : Condition τ} {d : δ} (h : A.Holds P m)
    (hplaced : Monitor.Placed P (m.goto t th c d)) (hfree : c.owner = none → A.free d c) (hth : A.Knows P d c t th)
    (hoff : ∀ u r, u ≠ t → A.off u r m.data → A.off u r d)
    (hat : ∀ u p, u ≠ t → m.threads u = .running p → (P.code p).Locked → A.held u p d c) :
    A.Holds P (m.goto t th c d) := by
  refine ⟨hplaced, hfree, fun u => ?_⟩
  show A.Knows P d c u (Function.update m.threads t th u)
  by_cases hu : u = t
  · subst hu
    rw [Function.update_self]
    exact hth
  · rw [Function.update_of_ne hu]
    have hk := h.knows u
    cases hthu : m.threads u with
    | running p =>
      rw [hthu] at hk
      exact ⟨hat u p hu hthu, fun hl => hoff u p hu (hk.2 hl)⟩
    | waiting p deadline =>
      rw [hthu] at hk
      exact hoff u p hu hk

/-- The owner makes a step: the other threads have no lock. -/
theorem owned {t : τ} {th : Thread π} {c : Condition τ} {d : δ} (h : A.Holds P m) (ho : m.cond.owner = some t)
    (hplaced : Monitor.Placed P (m.goto t th c d)) (hfree : c.owner = none → A.free d c) (hth : A.Knows P d c t th)
    (hoff : ∀ u r, u ≠ t → A.off u r m.data → A.off u r d) : A.Holds P (m.goto t th c d) := by
  apply h.goto hplaced hfree hth hoff
  intro u p hu hthu hl
  have hou : m.cond.owner = some u := (h.placed.owner u).mpr (by rw [hthu]; exact hl)
  exact absurd (Option.some.inj (hou.symm.trans ho)) hu

/-- A thread takes the free lock. -/
theorem entered {t : τ} {q : π} {c : Condition τ} (h : A.Holds P m) (ho : m.cond.owner = none)
    (hc : c.owner = some t) (hplaced : Monitor.Placed P (m.goto t (.running q) c m.data)) (hq : (P.code q).Locked)
    (hat : A.held t q m.data c) : A.Holds P (m.goto t (.running q) c m.data) := by
  refine h.goto hplaced (fun hn => absurd (hn.symm.trans hc) (by simp)) ⟨fun _ => hat, fun hl => absurd hq hl⟩
    (fun _ _ _ hu => hu) fun u p _ hthu hl => ?_
  have hou : m.cond.owner = some u := (h.placed.owner u).mpr (by rw [hthu]; exact hl)
  exact absurd (hou.symm.trans ho) (by simp)

/-- A thread without the lock makes a step that wakes nobody. -/
theorem aside {t : τ} {th : Thread π} {c : Condition τ} (hA : A.Sound P N) (h : A.Holds P m)
    (hplaced : Monitor.Placed P (m.goto t th c m.data)) (ho : c.owner = m.cond.owner)
    (hquiet : Condition.Quiet m.cond c) (hth : A.Knows P m.data c t th) : A.Holds P (m.goto t th c m.data) := by
  refine h.goto hplaced (fun hn => hA.free_quiet _ _ _ (h.free (ho.symm.trans hn)) hquiet) hth (fun _ _ _ hu => hu)
    fun u p _ hthu hl => ?_
  have hk := h.knows u
  rw [hthu] at hk
  exact hA.held_quiet _ _ _ _ _ (hk.1 hl) hquiet

omit [DecidableEq τ] in
theorem held_of_threads {t : τ} {p : π} (h : A.Holds P m) (hp : m.threads t = .running p) (hl : (P.code p).Locked) :
    m.cond.owner = some t ∧ A.held t p m.data m.cond := by
  have hk := h.knows t
  rw [hp] at hk
  exact ⟨(h.placed.owner t).mpr (by rw [hp]; exact hl), hk.1 hl⟩

omit [DecidableEq τ] in
theorem off_of_threads {t : τ} {p : π} (h : A.Holds P m) (hp : m.threads t = .running p) (hl : ¬(P.code p).Locked) :
    A.off t p m.data := by
  have hk := h.knows t
  rw [hp] at hk
  exact hk.2 hl

omit [DecidableEq τ] in
theorem off_of_waiting {t : τ} {p : π} {deadline : Option ℚ} (h : A.Holds P m)
    (hp : m.threads t = .waiting p deadline) : A.off t p m.data := by
  have hk := h.knows t
  rw [hp] at hk
  exact hk

omit [DecidableEq τ] in
/-- What holds at every point of the outline holds of the data. -/
theorem data {I : δ → Prop} (h : A.Holds P m) (hfree : ∀ d c, A.free d c → I d)
    (hheld : ∀ t p d c, A.held t p d c → I d) : I m.data := by
  cases ho : m.cond.owner with
  | none => exact hfree _ _ (h.free ho)
  | some t =>
    have hin := (h.placed.owner t).mp ho
    cases hp : m.threads t with
    | running p =>
      rw [hp] at hin
      exact hheld _ _ _ _ (h.held_of_threads hp hin).2
    | waiting p deadline =>
      rw [hp] at hin
      exact absurd hin fun hin => hin

theorem steps (hA : A.Sound P N) (h : A.Holds P m) (hN : NotifiesIf P N m a) (hs : Monitor.Steps P m a o m') :
    A.Holds P m' := by
  have hplaced := h.placed.steps hs
  cases hs with
  | tick _ => exact ⟨hplaced, h.free, h.knows⟩
  | @call t p q hp hcode hentry =>
    exact h.aside hA hplaced rfl ⟨fun _ hu => hu, rfl⟩
      ⟨fun hl => absurd hl (P.entry_flows t _ q hentry), fun _ => hA.entry t _ q hentry⟩
  | @acquire t p q e c hp hcode hc =>
    obtain ⟨ho, hpass, hquiet⟩ := Condition.acquire_eq_some hc
    have hoff : A.off t p m.data := h.off_of_threads hp (by rw [hcode]; exact fun hl => hl)
    have hstep := hA.steps p
    rw [SoundAt, hcode] at hstep
    have hat := hA.held_quiet _ _ _ _ _ (hstep t _ _ (h.free ho) hoff) hquiet
    exact h.entered ho hpass.owner hplaced (P.flows_of_code hcode) hat
  | @act t p q e f o d hp hcode hf =>
    obtain ⟨ho, hat⟩ := h.held_of_threads hp (P.locked_of_code hcode trivial)
    have hq := P.flows_of_code hcode
    have hstep := hA.steps p
    rw [SoundAt, hcode] at hstep
    obtain ⟨hat', hoff⟩ := hstep t _ _ _ _ _ _ _ hat hf
    exact h.owned ho hplaced (fun hn => absurd (hn.symm.trans ho) (by simp))
      ⟨fun _ => hat', fun hl => absurd (hq _ _ _ _ _ _ _ hf) hl⟩ hoff
  | @wait t p e timeout next c hp hcode hc =>
    obtain ⟨ho, hat⟩ := h.held_of_threads hp (P.locked_of_code hcode trivial)
    have hstep := hA.steps p
    rw [SoundAt, hcode] at hstep
    obtain ⟨hfree, hoff⟩ := hstep.1 t _ _ _ hat hc
    exact h.owned ho hplaced (fun _ => hfree) hoff fun _ _ _ hu => hu
  | @notify t p q e hp hcode =>
    obtain ⟨ho, hat⟩ := h.held_of_threads hp (P.locked_of_code hcode trivial)
    have hstep := hA.steps p
    rw [SoundAt, hcode] at hstep
    have hn : N m.cond := by
      simp only [NotifiesIf, hp, hcode] at hN
      exact hN
    exact h.owned ho hplaced (fun hn => absurd (hn.symm.trans ho) (by simp))
      ⟨fun _ => hstep t _ _ hat hn, fun hl => absurd (P.flows_of_code hcode) hl⟩ fun _ _ _ hu => hu
  | @notifyAll t p q e hp hcode =>
    obtain ⟨ho, hat⟩ := h.held_of_threads hp (P.locked_of_code hcode trivial)
    have hstep := hA.steps p
    rw [SoundAt, hcode] at hstep
    have ho' : m.cond.notifyAll.owner = some t := (Condition.passes_notifyAll (t := t)).owner.trans ho
    exact h.owned ho hplaced (fun hn => absurd (hn.symm.trans ho') (by simp))
      ⟨fun _ => hstep t _ _ hat, fun hl => absurd (P.flows_of_code hcode) hl⟩ fun _ _ _ hu => hu
  | @release t p q e output c hp hcode hc =>
    obtain ⟨ho, hat⟩ := h.held_of_threads hp (P.locked_of_code hcode trivial)
    obtain ⟨-, -, hpass, hquiet⟩ := Condition.release_eq_some hc
    have hstep := hA.steps p
    rw [SoundAt, hcode] at hstep
    obtain ⟨hfree, hoff⟩ := hstep t _ _ hat
    exact h.owned ho hplaced (fun _ => hA.free_quiet _ _ _ hfree hquiet)
      ⟨fun hl => absurd hl (P.flows_of_code hcode), fun _ => hoff⟩ fun _ _ _ hu => hu
  | @reacquire t p e deadline timeout next b c hp hcode hc =>
    obtain ⟨ho, hpass, -⟩ := Condition.reacquire_eq_some hc
    have hstep := hA.steps p
    rw [SoundAt, hcode] at hstep
    have hat := hstep.2 t _ _ _ b (h.free ho) (h.off_of_waiting hp) hc
    exact h.entered ho hpass.owner hplaced (P.flows_of_code hcode b) hat
  | @expire t p deadline c hp _ hc =>
    obtain ⟨hpass, hquiet⟩ := Condition.expire_eq_some hc
    exact h.aside hA hplaced hpass.owner hquiet (h.off_of_waiting hp)
  | @rouse t p deadline c hp hc =>
    obtain ⟨hpass, hquiet⟩ := Condition.rouse_eq_some hc
    exact h.aside hA hplaced hpass.owner hquiet (h.off_of_waiting hp)

end Holds

/-- **The rule for monitors.** An outline that is sound and holds at first holds in every state of a run whose
notifications find what they rely on. -/
theorem Sound.run (hA : A.Sound P N) (h : A.Holds P m) {moves : List (Move τ π ε)} {os : List (Option ω)}
    (hN : (Monitor.machine P).Along (NotifiesIf P N) m moves)
    (hrun : (Monitor.machine P).run m moves = some (os, m')) : A.Holds P m' :=
  Machine.run_invariant_along (M := Monitor.machine P) (P := A.Holds P)
    (fun hP hQ hs => hP.steps hA hQ (Monitor.step_steps hs)) h hN hrun

theorem Sound.run_true (hA : A.Sound P fun _ => True) (h : A.Holds P m) {moves : List (Move τ π ε)}
    {os : List (Option ω)} (hrun : (Monitor.machine P).run m moves = some (os, m')) : A.Holds P m' :=
  hA.run h (Machine.along_of_forall fun _ _ _ => notifiesIf_true) hrun

end Outline

end TheGrind.Sync
