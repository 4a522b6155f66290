import Mathlib
import TheGrind.Data.Family
import TheGrind.Transition.Machine

/-!
# A counter without a lock

`increment_unsafe` of `01-threads-and-locks.py`: each thread makes a number of rounds of `counter += 1`, which reads,
adds and writes in steps of their own.

* `updates` : how many increments the threads have completed;
* `counter_eq_updates_iff` : no update is lost exactly if every write finds the counter as its thread has read it;
* `unsafe_counter_iff` : the values that the counter can have at the end.
-/

namespace TheGrind.Threads
open TheGrind.Data TheGrind.Transition

/-- Where a thread is in `counter += 1`. -/
inductive Stage where
  | ready
  | read (x : Nat)
  | added (x : Nat)
  deriving DecidableEq

/-- A thread: how many rounds it has made, and where it is in the next one. -/
structure Worker where
  rounds : Nat
  stage : Stage
  deriving DecidableEq

/-- The global `counter`, and the threads. -/
structure Counter (τ : Type) where
  counter : Nat
  threads : τ → Worker

namespace Counter
variable {τ : Type}

def init (τ : Type) : Counter τ := ⟨0, fun _ => ⟨0, .ready⟩⟩

def goto [DecidableEq τ] (s : Counter τ) (t : τ) (w : Worker) : Counter τ :=
  { s with threads := Function.update s.threads t w }

/-- All threads have made all their rounds. -/
def Finished (times : Nat) (s : Counter τ) : Prop := ∀ t, (s.threads t).rounds = times

/-- The increments that the threads have completed. -/
def updates [Fintype τ] (s : Counter τ) : Nat := ∑ t, (s.threads t).rounds

end Counter

/-- Threads in `increment_unsafe`, with `for _ in range(times)`. A step is one of a thread. -/
def incrementUnsafe (τ : Type) [DecidableEq τ] (times : Nat) : Machine (Counter τ) τ Unit where
  step s t :=
    match s.threads t with
    | ⟨rounds, .ready⟩ => if rounds < times then some ((), s.goto t ⟨rounds, .read s.counter⟩) else none
    | ⟨rounds, .read x⟩ => some ((), s.goto t ⟨rounds, .added (x + 1)⟩)
    | ⟨rounds, .added x⟩ => some ((), Counter.goto { s with counter := x } t ⟨rounds + 1, .ready⟩)

variable {τ : Type} [DecidableEq τ] {times : Nat} {s s' : Counter τ} {t u : τ} {o : Unit}

/-- What a step does: a thread reads the counter, adds one to what it has read, or writes. -/
inductive Increment (times : Nat) (s : Counter τ) (t : τ) : Counter τ → Prop
  | read {n : Nat} : s.threads t = ⟨n, .ready⟩ → n < times → Increment times s t (s.goto t ⟨n, .read s.counter⟩)
  | add {n x : Nat} : s.threads t = ⟨n, .read x⟩ → Increment times s t (s.goto t ⟨n, .added (x + 1)⟩)
  | write {n x : Nat} : s.threads t = ⟨n, .added x⟩ →
      Increment times s t (Counter.goto { s with counter := x } t ⟨n + 1, .ready⟩)

theorem step_iff : (incrementUnsafe τ times).step s t = some (o, s') ↔ Increment times s t s' := by
  constructor
  · intro h
    simp only [incrementUnsafe] at h
    split at h
    · next n hn =>
      split at h
      · next hlt =>
        cases h
        exact .read hn hlt
      · cases h
    · next n x hn =>
      cases h
      exact .add hn
    · next n x hn =>
      cases h
      exact .write hn
  · intro h
    cases h with
    | read hn hlt => simp only [incrementUnsafe, hn, if_pos hlt]
    | add hn => simp only [incrementUnsafe, hn]
    | write hn => simp only [incrementUnsafe, hn]

@[simp] theorem threads_goto (s : Counter τ) (t : τ) (w : Worker) : (s.goto t w).threads t = w :=
  Function.update_self _ _ _

theorem threads_goto_of_ne (h : u ≠ t) (s : Counter τ) (w : Worker) : (s.goto t w).threads u = s.threads u :=
  Function.update_of_ne h _ _

/-- What holds of the thread that goes on, and of the others, holds of all. -/
theorem forall_goto {P : τ → Worker → Prop} {w : Worker} (ht : P t w) (hother : ∀ u, u ≠ t → P u (s.threads u)) :
    ∀ u, P u ((s.goto t w).threads u) := by
  intro u
  by_cases hu : u = t
  · subst hu
    rw [threads_goto]
    exact ht
  · rw [threads_goto_of_ne hu]
    exact hother u hu

theorem Increment.reaches (h : Increment times s t s') : (incrementUnsafe τ times).Reaches s s' :=
  (Machine.Reaches.refl s).step (step_iff (o := ()) |>.mpr h)

variable (times) in
/-- A thread that has read the counter adds and writes. -/
theorem reaches_write {n x : Nat} (hn : s.threads t = ⟨n, .read x⟩) :
    (incrementUnsafe τ times).Reaches s (Counter.goto { s with counter := x + 1 } t ⟨n + 1, .ready⟩) := by
  have hadd := (Increment.add hn : Increment times s t _).reaches
  have hwrite := (Increment.write (threads_goto s t ⟨n, .added (x + 1)⟩) : Increment times _ t _).reaches
  have hsame : Counter.goto { s.goto t ⟨n, .added (x + 1)⟩ with counter := x + 1 } t ⟨n + 1, .ready⟩ =
      Counter.goto { s with counter := x + 1 } t ⟨n + 1, .ready⟩ := by
    simp [Counter.goto]
  rw [hsame] at hwrite
  exact hadd.trans hwrite

variable [Fintype τ]

theorem updates_goto (s : Counter τ) (t : τ) (w : Worker) :
    (s.goto t w).updates + (s.threads t).rounds = s.updates + w.rounds :=
  sum_update_univ t Worker.rounds s.threads w

theorem updates_write {n x : Nat} {st : Stage} (h : s.threads t = ⟨n, st⟩) :
    (Counter.goto { s with counter := x } t ⟨n + 1, .ready⟩).updates = s.updates + 1 := by
  have hgoto := updates_goto { s with counter := x } t ⟨n + 1, .ready⟩
  have hsame : Counter.updates { s with counter := x } = s.updates := rfl
  simp only [h, hsame] at hgoto
  omega

theorem updates_still {n : Nat} {st st' : Stage} (h : s.threads t = ⟨n, st⟩) :
    (s.goto t ⟨n, st'⟩).updates = s.updates := by
  have hgoto := updates_goto s t ⟨n, st'⟩
  simp only [h] at hgoto
  omega

/-! ## Lost updates -/

/-- The value of the counter as a thread has read it. -/
def Stage.seen : Stage → Option Nat
  | .ready => none
  | .read x => some x
  | .added x => some (x - 1)

/-- A thread that has added one has added it to what it has read. -/
def Stage.Ok : Stage → Prop
  | .added x => 0 < x
  | _ => True

/-- What the counter and the registers of the threads can be after some number of updates. -/
structure Counts (times : Nat) (s : Counter τ) : Prop where
  rounds : ∀ t, (s.threads t).rounds ≤ times ∧ ((s.threads t).stage ≠ .ready → (s.threads t).rounds < times)
  ok : ∀ t, (s.threads t).stage.Ok
  counter : s.counter ≤ s.updates
  seen : ∀ t, ∀ x ∈ (s.threads t).stage.seen, x ≤ s.updates ∧ (x = s.updates → s.counter = s.updates)

omit [DecidableEq τ] in
theorem counts_init (times : Nat) : Counts times (Counter.init τ) where
  rounds _ := ⟨Nat.zero_le _, fun h => absurd rfl h⟩
  ok _ := trivial
  counter := Nat.zero_le _
  seen _ _ h := nomatch h

theorem counts_step (h : Counts times s) (hs : Increment times s t s') : Counts times s' := by
  cases hs with
  | @read n hn hlt =>
    have hup : (s.goto t ⟨n, .read s.counter⟩).updates = s.updates := updates_still hn
    refine ⟨?_, ?_, hup ▸ h.counter, ?_⟩
    · exact forall_goto (P := fun _ w => w.rounds ≤ times ∧ (w.stage ≠ .ready → w.rounds < times))
        ⟨hlt.le, fun _ => hlt⟩ fun u _ => h.rounds u
    · exact forall_goto (P := fun _ w => w.stage.Ok) trivial fun u _ => h.ok u
    · rw [hup]
      refine forall_goto (P := fun _ w => ∀ x ∈ w.stage.seen, x ≤ s.updates ∧ (x = s.updates → s.counter = s.updates))
        ?_ fun u _ => h.seen u
      intro x hx
      obtain rfl := Option.some.inj hx
      exact ⟨h.counter, id⟩
  | @add n x hn =>
    have hup : (s.goto t ⟨n, .added (x + 1)⟩).updates = s.updates := updates_still hn
    have hrounds := h.rounds t
    have hseen := h.seen t
    rw [hn] at hrounds hseen
    refine ⟨?_, ?_, hup ▸ h.counter, ?_⟩
    · exact forall_goto (P := fun _ w => w.rounds ≤ times ∧ (w.stage ≠ .ready → w.rounds < times))
        ⟨hrounds.1, fun _ => hrounds.2 Stage.noConfusion⟩ fun u _ => h.rounds u
    · exact forall_goto (P := fun _ w => w.stage.Ok) (Nat.succ_pos x) fun u _ => h.ok u
    · rw [hup]
      exact forall_goto (P := fun _ w => ∀ x ∈ w.stage.seen, x ≤ s.updates ∧ (x = s.updates → s.counter = s.updates))
        hseen fun u _ => h.seen u
  | @write n x hn =>
    have hup := updates_write (x := x) hn
    have hrounds := h.rounds t
    have hseen := h.seen t
    have hpos := h.ok t
    rw [hn] at hrounds hseen hpos
    have hpos' : 0 < x := hpos
    have hx := (hseen (x - 1) rfl).1
    refine ⟨?_, ?_, ?_, ?_⟩
    · exact forall_goto (P := fun _ w => w.rounds ≤ times ∧ (w.stage ≠ .ready → w.rounds < times))
        ⟨hrounds.2 Stage.noConfusion, fun hne => absurd rfl hne⟩ fun u _ => h.rounds u
    · exact forall_goto (P := fun _ w => w.stage.Ok) trivial fun u _ => h.ok u
    · rw [hup]
      show x ≤ _
      omega
    · rw [hup]
      refine forall_goto (s := { s with counter := x }) (P := fun _ w => ∀ y ∈ w.stage.seen, y ≤ s.updates + 1 ∧
        (y = s.updates + 1 → x = s.updates + 1)) (fun y hy => nomatch hy) fun u _ y hy => ?_
      have hle := (h.seen u y hy).1
      exact ⟨by omega, fun he => by omega⟩

/-- If the thread is about to write, the counter is as it has read it. -/
def FindsSeen (s : Counter τ) (t : τ) : Prop := ∀ x, (s.threads t).stage = .added x → x = s.counter + 1

instance (s : Counter τ) : DecidablePred (FindsSeen s) := fun t =>
  match h : (s.threads t).stage with
  | .added x => decidable_of_iff (x = s.counter + 1) (by simp [FindsSeen, h])
  | .ready | .read _ => .isTrue (by simp [FindsSeen, h])

/-- An update has been lost: the counter, and all that the threads have read of it, is behind. -/
def Behind (s : Counter τ) : Prop :=
  s.counter < s.updates ∧ ∀ t, ∀ x ∈ (s.threads t).stage.seen, x < s.updates

/-- A thread that writes over what it has not read loses an update. -/
theorem behind_of_not_findsSeen (hc : Counts times s) (hf : ¬FindsSeen s t) (hs : Increment times s t s') :
    Behind s' := by
  cases hs with
  | @read n hn hlt => exact absurd (fun x hx => by rw [hn] at hx; cases hx) hf
  | @add n x hn => exact absurd (fun y hy => by rw [hn] at hy; cases hy) hf
  | @write n x hn =>
    have hseen := hc.seen t
    have hpos := hc.ok t
    rw [hn] at hseen hpos
    have hpos' : 0 < x := hpos
    obtain ⟨hle, heq⟩ := hseen (x - 1) rfl
    have hne : x ≠ s.counter + 1 := fun he => hf fun y hy => by
      rw [hn] at hy
      cases hy
      exact he
    have hup := updates_write (x := x) hn
    refine ⟨?_, ?_⟩
    · rw [hup]
      show x < _
      by_cases hx : x - 1 = s.updates
      · have hcounter := heq hx
        omega
      · omega
    · rw [hup]
      refine forall_goto (s := { s with counter := x }) (P := fun _ w => ∀ y ∈ w.stage.seen, y < s.updates + 1)
        (fun y hy => nomatch hy) fun u _ y hy => ?_
      exact Nat.lt_succ_of_le (hc.seen u y hy).1

/-- No thread makes up for a lost update. -/
theorem behind_step (hc : Counts times s) (hb : Behind s) (hs : Increment times s t s') : Behind s' := by
  have hseen := hb.2 t
  cases hs with
  | @read n hn hlt =>
    have hup : (s.goto t ⟨n, .read s.counter⟩).updates = s.updates := updates_still hn
    refine ⟨hup ▸ hb.1, ?_⟩
    rw [hup]
    refine forall_goto (P := fun _ w => ∀ x ∈ w.stage.seen, x < s.updates) (fun x hx => ?_) fun u _ => hb.2 u
    obtain rfl := Option.some.inj hx
    exact hb.1
  | @add n x hn =>
    have hup : (s.goto t ⟨n, .added (x + 1)⟩).updates = s.updates := updates_still hn
    rw [hn] at hseen
    refine ⟨hup ▸ hb.1, ?_⟩
    rw [hup]
    exact forall_goto (P := fun _ w => ∀ x ∈ w.stage.seen, x < s.updates) hseen fun u _ => hb.2 u
  | @write n x hn =>
    have hup := updates_write (x := x) hn
    have hpos := hc.ok t
    rw [hn] at hseen hpos
    have hpos' : 0 < x := hpos
    have hx := hseen (x - 1) rfl
    refine ⟨?_, ?_⟩
    · rw [hup]
      show x < _
      omega
    · rw [hup]
      refine forall_goto (s := { s with counter := x }) (P := fun _ w => ∀ y ∈ w.stage.seen, y < s.updates + 1)
        (fun y hy => nomatch hy) fun u _ y hy => ?_
      exact Nat.lt_succ_of_lt (hb.2 u y hy)

theorem counter_eq_updates_step (he : s.counter = s.updates) (hf : FindsSeen s t)
    (hs : Increment times s t s') : s'.counter = s'.updates := by
  cases hs with
  | @read n hn hlt => exact he.trans (updates_still hn).symm
  | @add n x hn => exact he.trans (updates_still hn).symm
  | @write n x hn =>
    rw [updates_write hn]
    show x = _
    have hx := hf x (by rw [hn])
    omega

/-- **Lost updates.** In every run, the counter is the number of increments completed exactly if every thread that has
written found the counter as it had read it. -/
theorem counter_eq_updates_iff {ts : List τ} {os : List Unit}
    (h : (incrementUnsafe τ times).run (Counter.init τ) ts = some (os, s)) :
    s.counter = s.updates ↔ (incrementUnsafe τ times).Along FindsSeen (Counter.init τ) ts := by
  have hkeep : ∀ {s : Counter τ} {t o s'}, Counts times s → (incrementUnsafe τ times).step s t = some (o, s') →
      Counts times s' := fun hc hs => counts_step hc (step_iff.mp hs)
  constructor
  · intro he
    refine Machine.along_of_not_doomed (B := Behind) (R := fun _ _ => True) (fun hc _ hs => hkeep hc hs)
      (fun hc hf hs => behind_of_not_findsSeen hc hf (step_iff.mp hs))
      (fun hc hb _ hs => behind_step hc hb (step_iff.mp hs)) (counts_init times) h ?_
      (Machine.along_of_forall fun _ _ _ => trivial)
    exact fun hb => (Nat.ne_of_lt hb.1) he
  · intro hf
    have hinit : (Counter.init τ).counter = (Counter.init τ).updates := by
      simp [Counter.init, Counter.updates]
    refine (Machine.run_invariant_along (P := fun s => Counts times s ∧ s.counter = s.updates) ?_
      ⟨counts_init times, hinit⟩ hf h).2
    exact fun hP hf hs => ⟨hkeep hP.1 hs, counter_eq_updates_step hP.2 hf (step_iff.mp hs)⟩

/-- Two threads read the counter, and both write what they have made of it. -/
theorem counter_eq_updates_two :
    ∃ os s, (incrementUnsafe (Fin 2) 1).run (Counter.init (Fin 2)) [0, 1, 0, 0, 1, 1] = some (os, s) ∧
      (s.counter = s.updates ↔
        (incrementUnsafe (Fin 2) 1).Along FindsSeen (Counter.init (Fin 2)) [0, 1, 0, 0, 1, 1]) := by
  have hrun : ((incrementUnsafe (Fin 2) 1).run (Counter.init (Fin 2)) [0, 1, 0, 0, 1, 1]).isSome := by decide
  obtain ⟨⟨os, s⟩, h⟩ := Option.isSome_iff_exists.mp hrun
  exact ⟨os, s, h, counter_eq_updates_iff h⟩

/-! ## The values at the end -/

/-- What holds of small counters: only a first round reads zero, and only a first round leaves a one. -/
structure Small (s : Counter τ) : Prop where
  counter : 1 ≤ s.updates → 1 ≤ s.counter
  seen : ∀ t, ∀ x ∈ (s.threads t).stage.seen, 1 ≤ (s.threads t).rounds → 1 ≤ x
  one : s.counter ≤ 1 → ∃ t, (s.threads t).rounds ≤ 1

theorem small_step (hc : Counts times s) (h : Small s) (hs : Increment times s t s') : Small s' := by
  have hseen := h.seen t
  have hone {w : Worker} (hw : w.rounds = (s.threads t).rounds) (hle : s.counter ≤ 1) :
      ∃ u, ((s.goto t w).threads u).rounds ≤ 1 := by
    obtain ⟨u, hu⟩ := h.one hle
    refine ⟨u, ?_⟩
    by_cases hut : u = t
    · subst hut
      rwa [threads_goto, hw]
    · rwa [threads_goto_of_ne hut]
  cases hs with
  | @read n hn hlt =>
    have hup : (s.goto t ⟨n, .read s.counter⟩).updates = s.updates := updates_still hn
    refine ⟨hup ▸ h.counter, ?_, hone (by rw [hn])⟩
    refine forall_goto (P := fun _ w => ∀ x ∈ w.stage.seen, 1 ≤ w.rounds → 1 ≤ x) ?_ fun u _ => h.seen u
    intro x hx hpos
    obtain rfl := Option.some.inj hx
    have hle : (s.threads t).rounds ≤ s.updates := le_sum_univ t Worker.rounds s.threads
    rw [hn] at hle
    exact h.counter (le_trans hpos hle)
  | @add n x hn =>
    have hup : (s.goto t ⟨n, .added (x + 1)⟩).updates = s.updates := updates_still hn
    rw [hn] at hseen
    refine ⟨hup ▸ h.counter, ?_, hone (by rw [hn])⟩
    exact forall_goto (P := fun _ w => ∀ x ∈ w.stage.seen, 1 ≤ w.rounds → 1 ≤ x) hseen fun u _ => h.seen u
  | @write n x hn =>
    have hpos := hc.ok t
    rw [hn] at hseen hpos
    have hpos' : 0 < x := hpos
    refine ⟨fun _ => hpos', ?_, fun hle => ⟨t, ?_⟩⟩
    · exact forall_goto (s := { s with counter := x }) (P := fun _ w => ∀ y ∈ w.stage.seen, 1 ≤ w.rounds → 1 ≤ y)
        (fun y hy => nomatch hy) fun u _ => h.seen u
    · rw [threads_goto]
      have hle' : x ≤ 1 := hle
      show n + 1 ≤ 1
      by_contra hn'
      have hx := hseen (x - 1) rfl (show 1 ≤ n by omega)
      omega

/-- These threads are between two rounds. -/
def Idle (times : Nat) (T : Finset τ) (s : Counter τ) : Prop :=
  ∀ u ∈ T, (s.threads u).stage = .ready ∧ (s.threads u).rounds ≤ times

/-- One after the other, some threads make `k` increments. -/
structure Sequential (times : Nat) (T : Finset τ) (k : Nat) (s s' : Counter τ) : Prop where
  reaches : (incrementUnsafe τ times).Reaches s s'
  counter : s'.counter = s.counter + k
  updates : s'.updates = s.updates + k
  idle : Idle times T s'
  others : ∀ u ∉ T, s'.threads u = s.threads u

/-- Threads between two rounds can make any number of increments that they have left. -/
theorem exists_sequential {T : Finset τ} : ∀ {k : Nat} {s : Counter τ}, Idle times T s →
    ∑ u ∈ T, (s.threads u).rounds + k ≤ T.card * times → ∃ s', Sequential times T k s s' := by
  intro k
  induction k with
  | zero => exact fun {s} hidle _ => ⟨s, .refl s, rfl, rfl, hidle, fun _ _ => rfl⟩
  | succ k ih =>
    intro s hidle hle
    have hsum : ∑ u ∈ T, (s.threads u).rounds < ∑ _u ∈ T, times := by
      rw [Finset.sum_const, smul_eq_mul]
      omega
    obtain ⟨t, ht, hlt⟩ := Finset.exists_lt_of_sum_lt hsum
    have hw : s.threads t = ⟨(s.threads t).rounds, .ready⟩ := by rw [← (hidle t ht).1]
    generalize hn : (s.threads t).rounds = n at hw hlt
    set m := Counter.goto { s with counter := s.counter + 1 } t ⟨n + 1, .ready⟩ with hm
    have hone : (incrementUnsafe τ times).Reaches s m := by
      have hread := (Increment.read hw hlt).reaches
      have hwrite := reaches_write times (threads_goto s t ⟨n, .read s.counter⟩)
      have hsame :
          Counter.goto { s.goto t ⟨n, .read s.counter⟩ with counter := s.counter + 1 } t ⟨n + 1, .ready⟩ = m := by
        simp [hm, Counter.goto]
      rw [hsame] at hwrite
      exact hread.trans hwrite
    have hidle' : Idle times T m :=
      forall_goto (s := { s with counter := s.counter + 1 })
        (P := fun u w => u ∈ T → w.stage = .ready ∧ w.rounds ≤ times) (fun _ => ⟨rfl, hlt⟩) fun u _ => hidle u
    have hrounds : ∑ u ∈ T, (m.threads u).rounds + n = ∑ u ∈ T, (s.threads u).rounds + (n + 1) := by
      have hsum := sum_update ht Worker.rounds s.threads ⟨n + 1, .ready⟩
      rwa [hn] at hsum
    have hupdates : m.updates = s.updates + 1 := updates_write hw
    obtain ⟨s', h⟩ := ih hidle' (by omega)
    refine ⟨s', hone.trans h.reaches, ?_, ?_, h.idle, ?_⟩
    · rw [h.counter]
      show s.counter + 1 + k = _
      omega
    · rw [h.updates]
      omega
    · intro u hu
      rw [h.others u hu]
      exact threads_goto_of_ne (fun hut : u = t => hu (hut ▸ ht)) _ _

/-- Threads that are all between two rounds can make the rest of their rounds one after the other. -/
theorem exists_finished (hidle : Idle times Finset.univ s) :
    ∃ s', (incrementUnsafe τ times).Reaches s s' ∧ s'.Finished times ∧
      s'.counter + s.updates = s.counter + Fintype.card τ * times := by
  have hle : s.updates ≤ Fintype.card τ * times := by
    have hsum := Finset.sum_le_sum fun u hu => (hidle u hu).2
    rwa [Finset.sum_const, smul_eq_mul] at hsum
  obtain ⟨s', h⟩ := exists_sequential (k := Fintype.card τ * times - s.updates) hidle (by
    show s.updates + _ ≤ Fintype.card τ * times
    omega)
  refine ⟨s', h.reaches, fun t => ?_, ?_⟩
  · have hsum : ∑ u, (s'.threads u).rounds = ∑ _u : τ, times := by
      have hupdates := h.updates
      rw [Finset.sum_const, smul_eq_mul]
      show s'.updates = Fintype.card τ * times
      omega
    exact (Finset.sum_eq_sum_iff_of_le fun u hu => (h.idle u hu).2).mp hsum t (Finset.mem_univ t)
  · have hcounter := h.counter
    omega

/-- A thread writes over what it has read, and then all threads make the rest of their rounds one after the other. -/
theorem exists_finished_of_read {a : τ} {n x : Nat} (hidle : Idle times (Finset.univ.erase a) s)
    (ha : s.threads a = ⟨n, .read x⟩) (hlt : n < times) :
    ∃ s', (incrementUnsafe τ times).Reaches s s' ∧ s'.Finished times ∧
      s'.counter + s.updates = x + Fintype.card τ * times := by
  have hwrite := reaches_write times ha
  have hidle' : Idle times Finset.univ (Counter.goto { s with counter := x + 1 } a ⟨n + 1, .ready⟩) := by
    intro u _
    refine forall_goto (s := { s with counter := x + 1 }) (P := fun _ w => w.stage = .ready ∧ w.rounds ≤ times)
      ⟨rfl, Nat.succ_le_of_lt hlt⟩ (fun u hu => hidle u ?_) u
    exact Finset.mem_erase.mpr ⟨hu, Finset.mem_univ u⟩
  obtain ⟨s', hr, hf, hcounter⟩ := exists_finished hidle'
  refine ⟨s', hwrite.trans hr, hf, ?_⟩
  have hx : (Counter.goto { s with counter := x + 1 } a ⟨n + 1, .ready⟩).counter = x + 1 := rfl
  rw [updates_write ha, hx] at hcounter
  omega

variable (times) in
/-- A thread reads the counter first, and the others make `k` increments. -/
theorem exists_first (a : τ) {k : Nat} (htimes : 0 < times) (hk : k ≤ (Fintype.card τ - 1) * times) :
    ∃ s, (incrementUnsafe τ times).Reaches (Counter.init τ) s ∧ s.threads a = ⟨0, .read 0⟩ ∧
      Idle times (Finset.univ.erase a) s ∧ s.counter = k ∧ s.updates = k := by
  set m := (Counter.init τ).goto a ⟨0, .read 0⟩ with hm
  have hread : (incrementUnsafe τ times).Reaches (Counter.init τ) m := (Increment.read rfl htimes).reaches
  have hothers : ∀ u ∈ Finset.univ.erase a, m.threads u = ⟨0, .ready⟩ := fun u hu =>
    threads_goto_of_ne (Finset.ne_of_mem_erase hu) _ _
  have hsum : ∑ u ∈ Finset.univ.erase a, (m.threads u).rounds = 0 :=
    Finset.sum_eq_zero fun u hu => by rw [hothers u hu]
  have hcard : (Finset.univ.erase a).card = Fintype.card τ - 1 := Finset.card_erase_of_mem (Finset.mem_univ a)
  have hidle : Idle times (Finset.univ.erase a) m := fun u hu => by
    rw [hothers u hu]
    exact ⟨rfl, htimes.le⟩
  obtain ⟨s, h⟩ := exists_sequential (k := k) hidle (by rw [hsum, hcard]; omega)
  have hupdates : m.updates = 0 := by
    have hgoto := updates_goto (Counter.init τ) a ⟨0, .read 0⟩
    have hinit : (Counter.init τ).updates = 0 := Finset.sum_eq_zero fun _ _ => rfl
    rw [hinit, ← hm] at hgoto
    exact hgoto
  refine ⟨s, hread.trans h.reaches, ?_, h.idle, ?_, ?_⟩
  · rw [h.others a (Finset.notMem_erase a _)]
    exact threads_goto _ _ _
  · rw [h.counter]
    exact Nat.zero_add k
  · rw [h.updates, hupdates, Nat.zero_add]

/-- Small values: the first thread reads zero, the others make all their rounds but one, and it writes one; another
thread reads that, the first makes all but the last `k` of its rounds, and the other writes two. -/
theorem exists_finished_small {a : τ} {k : Nat} (hcard : 2 ≤ Fintype.card τ) (hk : k < times) :
    ∃ s, (incrementUnsafe τ times).Reaches (Counter.init τ) s ∧ s.Finished times ∧ s.counter = k + 2 := by
  have hpos : times ≤ (Fintype.card τ - 1) * times := Nat.le_mul_of_pos_left times (by omega)
  have hcard' : (Fintype.card τ - 1) * times + times = Fintype.card τ * times := by
    rw [← Nat.succ_mul]
    congr 1
    omega
  obtain ⟨s, hs, ha, hidle, -, hupdates⟩ :=
    exists_first times a (k := (Fintype.card τ - 1) * times - 1) (by omega) (by omega)
  obtain ⟨b, hb, hlt⟩ : ∃ b ∈ Finset.univ.erase a, (s.threads b).rounds < times := by
    by_contra hall
    push Not at hall
    have hsum := Finset.sum_le_sum hall
    have hle : ∑ u ∈ Finset.univ.erase a, (s.threads u).rounds ≤ s.updates :=
      Finset.sum_le_sum_of_subset (Finset.erase_subset a _)
    rw [Finset.sum_const, smul_eq_mul, Finset.card_erase_of_mem (Finset.mem_univ a), Finset.card_univ] at hsum
    omega
  have hba : b ≠ a := Finset.ne_of_mem_erase hb
  have hw : s.threads b = ⟨(s.threads b).rounds, .ready⟩ := by rw [← (hidle b hb).1]
  generalize (s.threads b).rounds = n at hw hlt
  -- the first thread writes one over the increments of the others, and the other thread reads it
  set m := Counter.goto { s with counter := 1 } a ⟨1, .ready⟩ with hm
  have hwrite : (incrementUnsafe τ times).Reaches s m := reaches_write times ha
  have hmb : m.threads b = ⟨n, .ready⟩ := (threads_goto_of_ne hba _ _).trans hw
  have hread : (incrementUnsafe τ times).Reaches m (m.goto b ⟨n, .read 1⟩) := (Increment.read hmb hlt).reaches
  have hma : (m.goto b ⟨n, .read 1⟩).threads a = ⟨1, .ready⟩ :=
    (threads_goto_of_ne hba.symm _ _).trans (threads_goto _ _ _)
  have hm' : (m.goto b ⟨n, .read 1⟩).updates = s.updates + 1 := (updates_still hmb).trans (updates_write ha)
  have hidlea : Idle times {a} (m.goto b ⟨n, .read 1⟩) := by
    intro u hu
    obtain rfl := Finset.mem_singleton.mp hu
    rw [hma]
    exact ⟨rfl, show 1 ≤ times by omega⟩
  obtain ⟨s', h⟩ := exists_sequential (k := times - 1 - k) hidlea (by
    rw [Finset.sum_singleton, Finset.card_singleton, hma]
    show 1 + _ ≤ _
    omega)
  have hidle' : Idle times (Finset.univ.erase b) s' := by
    intro u hu
    by_cases hua : u = a
    · exact h.idle u (Finset.mem_singleton.mpr hua)
    · rw [h.others u (fun hmem => hua (Finset.mem_singleton.mp hmem)), threads_goto_of_ne (Finset.ne_of_mem_erase hu),
        hm, threads_goto_of_ne hua]
      exact hidle u (Finset.mem_erase.mpr ⟨hua, Finset.mem_univ u⟩)
  have hs'b : s'.threads b = ⟨n, .read 1⟩ := by
    rw [h.others b (fun hmem => hba (Finset.mem_singleton.mp hmem))]
    exact threads_goto _ _ _
  obtain ⟨s'', hr, hf, hcounter⟩ := exists_finished_of_read hidle' hs'b hlt
  refine ⟨s'', (((hs.trans hwrite).trans hread).trans h.reaches).trans hr, hf, ?_⟩
  have hupdates' := h.updates
  omega

/-- **The values at the end.** Two or more threads that make two or more rounds each can leave any value from two to the
number of all rounds, and no other. -/
theorem unsafe_counter_iff {v : Nat} (hcard : 2 ≤ Fintype.card τ) (htimes : 2 ≤ times) :
    (∃ s, (incrementUnsafe τ times).Reaches (Counter.init τ) s ∧ s.Finished times ∧ s.counter = v) ↔
      2 ≤ v ∧ v ≤ Fintype.card τ * times := by
  have hne : Nonempty τ := Fintype.card_pos_iff.mp (by omega)
  obtain ⟨a⟩ := hne
  constructor
  · rintro ⟨s, hr, hf, rfl⟩
    have hinit : Small (Counter.init τ) :=
      ⟨fun hpos => absurd hpos (by simp [Counter.init, Counter.updates]), fun _ _ hx => (nomatch hx),
        fun _ => ⟨a, Nat.zero_le 1⟩⟩
    obtain ⟨hc, hsmall⟩ := hr.invariant (P := fun s => Counts times s ∧ Small s)
      (fun hP hs => ⟨counts_step hP.1 (step_iff.mp hs), small_step hP.1 hP.2 (step_iff.mp hs)⟩)
      ⟨counts_init times, hinit⟩
    constructor
    · by_contra hlt
      obtain ⟨t, ht⟩ := hsmall.one (by omega)
      rw [hf t] at ht
      omega
    · have hsum : s.updates = Fintype.card τ * times := by
        unfold Counter.updates
        rw [Finset.sum_congr rfl fun t _ => hf t, Finset.sum_const, smul_eq_mul, Finset.card_univ]
      exact hsum ▸ hc.counter
  · rintro ⟨hlow, hhigh⟩
    by_cases hv : v ≤ times
    · obtain ⟨k, rfl⟩ := Nat.exists_eq_add_of_le' hlow
      exact exists_finished_small (a := a) hcard (by omega)
    · have hcard' : (Fintype.card τ - 1) * times + times = Fintype.card τ * times := by
        rw [← Nat.succ_mul]
        congr 1
        omega
      obtain ⟨s, hs, ha, hidle, -, hupdates⟩ :=
        exists_first times a (k := Fintype.card τ * times - v) (by omega) (by omega)
      obtain ⟨s', hr, hf, hcounter⟩ := exists_finished_of_read hidle ha (by omega)
      exact ⟨s', hs.trans hr, hf, by omega⟩

/-- The program's own threads and rounds. -/
theorem unsafe_counter_two :
    (∃ s, (incrementUnsafe (Fin 2) 1000000).Reaches (Counter.init (Fin 2)) s ∧ s.Finished 1000000 ∧ s.counter = 2) ↔
      2 ≤ 2 ∧ 2 ≤ Fintype.card (Fin 2) * 1000000 :=
  unsafe_counter_iff (by decide) (by omega)

end TheGrind.Threads
