import TheGrind.Sync.Progress
import TheGrind.Threads.UnsafeCounter

/-!
# A counter with a lock, and one counter for each thread

`increment_safe` of `01-threads-and-locks.py` as a program of a monitor (`code`): `counter += 1` reads, adds and writes
as in `increment_unsafe`, but with the lock; and `increment_isolated`, in which a thread writes its own entry of
`results` when it is done.

* `safe_counter` : the lock is exclusive, the counter exact and the threads never stuck;
* `isolated_counter` : the entries of `results`, under every interleaving.
-/

namespace TheGrind.Threads
open TheGrind.Data TheGrind.Transition TheGrind.Sync

/-- The points of `increment_safe`, in the round after the first `n`. -/
inductive Point where
  | loop (n : Nat)
  | read (n : Nat)
  | add (n x : Nat)
  | write (n x : Nat)
  | leave (n : Nat)
  deriving DecidableEq

def code (τ : Type) (times : Nat) : Point → Instr τ Point Nat Unit Unit
  | .loop n => if n < times then .acquire (.read n) else .idle
  | .read n => .act fun _ _ _ counter => some (none, counter, .add n counter)
  | .add n x => .act fun _ _ _ counter => some (none, counter, .write n (x + 1))
  | .write n x => .act fun _ _ _ _ => some (none, x, .leave n)
  | .leave n => .release (fun _ => none) (.loop (n + 1))

theorem code_loop (τ : Type) (times n : Nat) :
    code τ times (.loop n) = if n < times then .acquire (.read n) else .idle := rfl

/-- No thread uses a condition variable. -/
theorem code_cases (τ : Type) (times : Nat) (p : Point) : code τ times p = .idle ∨
    (∃ q, code τ times p = .acquire q) ∨ (∃ f, code τ times p = .act f) ∨
      ∃ q, code τ times p = .release (fun _ => none) q := by
  cases p with
  | loop n =>
    rw [code_loop]
    split
    · exact Or.inr (Or.inl ⟨_, rfl⟩)
    · exact Or.inl rfl
  | read _ | add _ _ | write _ _ => exact Or.inr (Or.inr (Or.inl ⟨_, rfl⟩))
  | leave _ => exact Or.inr (Or.inr (Or.inr ⟨_, rfl⟩))

theorem not_locked_loop (τ : Type) (times n : Nat) : ¬(code τ times (.loop n)).Locked := by
  rw [code_loop]
  split <;> exact fun h => h

/-- `increment_safe`. The threads are in it from the start. -/
def incrementSafe (τ : Type) (times : Nat) : Program τ Point Nat Unit Unit where
  code := code τ times
  entry _ _ _ := false
  flows p := by
    cases p with
    | loop n =>
      rw [code_loop]
      split <;> exact trivial
    | read n | add n x | write n x =>
      intro t now _ d o d' q h
      cases h
      exact trivial
    | leave n => exact not_locked_loop τ times (n + 1)
  entry_flows _ _ _ h := nomatch h

def start (τ : Type) [DecidableEq τ] : Monitor τ Point Nat := .init 0 (.loop 0)

namespace Point

/-- The increments completed. -/
def updates : Point → Nat
  | .loop n | .read n | .add n _ | .write n _ => n
  | .leave n => n + 1

/-- The steps that are left. -/
def left (times : Nat) : Point → Nat
  | .loop n => 5 * (times - n)
  | .read n => 5 * (times - n) - 1
  | .add n _ => 5 * (times - n) - 2
  | .write n _ => 5 * (times - n) - 3
  | .leave n => 5 * (times - n) - 4

/-- A thread with the lock has read the counter as it is. -/
def Fits (times counter : Nat) : Point → Prop
  | .loop n => n ≤ times
  | .read n | .leave n => n < times
  | .add n x => n < times ∧ x = counter
  | .write n x => n < times ∧ x = counter + 1

end Point

/-- What holds of the point of a thread; no thread waits. -/
def OfPoint (F : Point → Prop) : Thread Point → Prop
  | .running p => F p
  | .waiting _ _ => False

theorem OfPoint.mono {F G : Point → Prop} {th : Thread Point} (h : OfPoint F th) (hG : ∀ p, F p → G p) :
    OfPoint G th := by
  cases th with
  | running p => exact hG p h
  | waiting p deadline => exact h

def updates : Thread Point → Nat
  | .running p | .waiting p _ => p.updates

def left (times : Nat) : Thread Point → Nat
  | .running p | .waiting p _ => p.left times

section Safe
variable {τ : Type} [DecidableEq τ] {times : Nat} {m m' : Monitor τ Point Nat} {a : Move τ Point Unit} {o : Option Unit}

/-- What a thread does next: where it goes, and the counter then. -/
inductive Round (times : Nat) (m : Monitor τ Point Nat) : Point → Point → Nat → Prop
  | acquire {n : Nat} : n < times → m.cond.owner = none → Round times m (.loop n) (.read n) m.data
  | read {n : Nat} : Round times m (.read n) (.add n m.data) m.data
  | add {n x : Nat} : Round times m (.add n x) (.write n (x + 1)) m.data
  | write {n x : Nat} : Round times m (.write n x) (.leave n) x
  | leave {n : Nat} : Round times m (.leave n) (.loop (n + 1)) m.data

/-- While no thread waits, the threads make such steps, and the clock moves. -/
theorem round_of_steps (hw : ∀ t, OfPoint (fun _ => True) (m.threads t))
    (hs : Monitor.Steps (incrementSafe τ times) m a o m') :
    (a.thread = none ∧ m'.data = m.data ∧ m'.threads = m.threads) ∨
      ∃ t e p p', a = .run t e ∧ m.threads t = .running p ∧ m'.threads = Function.update m.threads t (.running p') ∧
        Round times m p p' m'.data := by
  cases hs with
  | tick _ => exact Or.inl ⟨rfl, rfl, rfl⟩
  | call _ _ hentry => exact nomatch hentry
  | @acquire t p q e c hp hcode hc =>
    have ho := (Condition.acquire_eq_some hc).1
    cases p with
    | loop n =>
      have hcode' : code τ times (.loop n) = .acquire q := hcode
      rw [code_loop] at hcode'
      split at hcode'
      · next hlt =>
        cases hcode'
        exact Or.inr ⟨t, e, _, _, rfl, hp, rfl, .acquire hlt ho⟩
      · cases hcode'
    | read _ | add _ _ | write _ _ | leave _ => cases hcode
  | @act t p q e f o d hp hcode hf =>
    cases p with
    | loop n =>
      have hcode' : code τ times (.loop n) = .act f := hcode
      rw [code_loop] at hcode'
      split at hcode' <;> cases hcode'
    | read n =>
      cases hcode
      cases hf
      exact Or.inr ⟨t, e, _, _, rfl, hp, rfl, .read⟩
    | add n x =>
      cases hcode
      cases hf
      exact Or.inr ⟨t, e, _, _, rfl, hp, rfl, .add⟩
    | write n x =>
      cases hcode
      cases hf
      exact Or.inr ⟨t, e, _, _, rfl, hp, rfl, .write⟩
    | leave n => cases hcode
  | @release t p q e output c hp hcode hc =>
    cases p with
    | loop n =>
      have hcode' : code τ times (.loop n) = .release output q := hcode
      rw [code_loop] at hcode'
      split at hcode' <;> cases hcode'
    | leave n =>
      cases hcode
      exact Or.inr ⟨t, e, _, _, rfl, hp, rfl, .leave⟩
    | read _ | add _ _ | write _ _ => cases hcode
  | @wait t p e timeout next c hp hcode hc =>
    rcases code_cases τ times p with h | ⟨q, h⟩ | ⟨f, h⟩ | ⟨q, h⟩ <;> exact nomatch hcode.symm.trans h
  | @notify t p q e hp hcode | @notifyAll t p q e hp hcode =>
    rcases code_cases τ times p with h | ⟨q, h⟩ | ⟨f, h⟩ | ⟨q, h⟩ <;> exact nomatch hcode.symm.trans h
  | @reacquire t p e deadline timeout next b c hp _ _ =>
    have hth := hw t
    rw [hp] at hth
    exact absurd hth fun hth => hth
  | @expire t p deadline c hp _ _ =>
    have hth := hw t
    rw [hp] at hth
    exact absurd hth fun hth => hth
  | @rouse t p deadline c hp _ =>
    have hth := hw t
    rw [hp] at hth
    exact absurd hth fun hth => hth

/-- The lock is exclusive, and the counter is the number of increments completed. -/
structure Exact [Fintype τ] (times : Nat) (m : Monitor τ Point Nat) : Prop extends
    Monitor.Placed (incrementSafe τ times) m where
  fits : ∀ t, OfPoint (Point.Fits times m.data) (m.threads t)
  counter : m.data = ∑ t, updates (m.threads t)

omit [DecidableEq τ] in
/-- A step of one thread. -/
theorem Round.fits {p p' : Point} {counter : Nat} (h : Round times m p p' counter) (hp : p.Fits times m.data) :
    p'.Fits times counter ∧ counter + p.updates = m.data + p'.updates ∧ p'.left times + 1 = p.left times ∧
      (counter = m.data ∨ (code τ times p).Locked) := by
  cases h with
  | @acquire n hlt _ =>
    refine ⟨hlt, rfl, ?_, Or.inl rfl⟩
    show 5 * (times - n) - 1 + 1 = 5 * (times - n)
    omega
  | @read n =>
    have hlt : n < times := hp
    refine ⟨⟨hlt, rfl⟩, rfl, ?_, Or.inl rfl⟩
    show 5 * (times - n) - 2 + 1 = 5 * (times - n) - 1
    omega
  | @add n x =>
    obtain ⟨hlt, rfl⟩ := hp
    refine ⟨⟨hlt, rfl⟩, rfl, ?_, Or.inl rfl⟩
    show 5 * (times - n) - 3 + 1 = 5 * (times - n) - 2
    omega
  | @write n x =>
    obtain ⟨hlt, rfl⟩ := hp
    refine ⟨hlt, ?_, ?_, Or.inr trivial⟩
    · show m.data + 1 + n = m.data + (n + 1)
      omega
    · show 5 * (times - n) - 4 + 1 = 5 * (times - n) - 3
      omega
  | @leave n =>
    have hlt : n < times := hp
    refine ⟨hlt, rfl, ?_, Or.inl rfl⟩
    show 5 * (times - (n + 1)) + 1 = 5 * (times - n) - 4
    omega

omit [DecidableEq τ] in
/-- What holds of a thread without the lock does not depend on the counter. -/
theorem Point.Fits.of_not_locked {p : Point} {counter counter' : Nat} (h : p.Fits times counter)
    (hl : ¬(code τ times p).Locked) : p.Fits times counter' := by
  cases p with
  | loop n => exact h
  | read _ | add _ _ | write _ _ | leave _ => exact absurd trivial hl

variable [Fintype τ]

theorem exact_start (times : Nat) : Exact times (start τ) where
  toPlaced := Monitor.placed_init (not_locked_loop τ times 0)
  fits _ := Nat.zero_le times
  counter := (Finset.sum_eq_zero fun _ _ => rfl).symm

theorem exact_step (h : Exact times m) (hs : Monitor.Steps (incrementSafe τ times) m a o m') :
    Exact times m' ∧ ∑ t, left times (m'.threads t) + (if a.isRun then 1 else 0) = ∑ t, left times (m.threads t) := by
  have hplaced := h.toPlaced.steps hs
  rcases round_of_steps (fun t => (h.fits t).mono fun _ _ => trivial) hs with
    ⟨ha, hdata, hthreads⟩ | ⟨t, e, p, p', rfl, hp, hthreads, hround⟩
  · have hrun : a.isRun = false := by
      cases a with
      | tick _ => rfl
      | call _ _ | run _ _ | expire _ | rouse _ => cases ha
    refine ⟨⟨hplaced, ?_, ?_⟩, ?_⟩
    · rw [hdata, hthreads]
      exact h.fits
    · rw [hdata, hthreads]
      exact h.counter
    · rw [hthreads, hrun]
      rfl
  · have hfits := h.fits t
    rw [hp] at hfits
    obtain ⟨hfits', hcounter, hleft, hlocked⟩ := hround.fits hfits
    have hupdates := sum_update_univ t updates m.threads (.running p')
    have hlefts := sum_update_univ t (left times) m.threads (.running p')
    rw [hp] at hupdates hlefts
    refine ⟨⟨hplaced, ?_, ?_⟩, ?_⟩
    · rw [hthreads]
      refine (Function.forall_update_iff m.threads fun _ => OfPoint (Point.Fits times m'.data)).mpr ⟨hfits', ?_⟩
      intro u hu
      rcases hlocked with heq | hl
      · rw [heq]
        exact h.fits u
      · -- the thread has the lock, so the others are not inside
        have ho : m.cond.owner = some t := (h.owner t).mpr (by rw [hp]; exact hl)
        have hu' : ¬Monitor.Inside (incrementSafe τ times) (m.threads u) := fun hin =>
          hu (Option.some.inj (((h.owner u).mpr hin).symm.trans ho))
        have hfitsu := h.fits u
        cases hpu : m.threads u with
        | running q =>
          rw [hpu] at hu' hfitsu
          exact Point.Fits.of_not_locked (τ := τ) hfitsu hu'
        | waiting q deadline =>
          rw [hpu] at hfitsu
          exact hfitsu
    · have hsum := h.counter
      rw [hthreads]
      change _ + p.updates = _ + p'.updates at hupdates
      omega
    · rw [hthreads]
      change _ + p.left times = _ + p'.left times at hlefts
      show _ + 1 = _
      omega

/-- All threads are done. -/
def Finished (times : Nat) (m : Monitor τ Point Nat) : Prop := ∀ t, m.threads t = .running (.loop times)

theorem exact_run {moves : List (Move τ Point Unit)} {os : List (Option Unit)}
    (h : (Monitor.machine (incrementSafe τ times)).run (start τ) moves = some (os, m)) :
    Exact times m ∧ ∑ t, left times (m.threads t) + moves.countP Move.isRun = Fintype.card τ * (5 * times) := by
  have hstart : ∑ t, left times ((start τ).threads t) = Fintype.card τ * (5 * times) := by
    show ∑ _t : τ, 5 * (times - 0) = _
    rw [Finset.sum_const, smul_eq_mul, Finset.card_univ, Nat.sub_zero]
  refine Machine.run_inputs (M := Monitor.machine (incrementSafe τ times)) (l := [])
    (P := fun l m => Exact times m ∧
      ∑ t, left times (m.threads t) + l.countP Move.isRun = Fintype.card τ * (5 * times)) ?_
    ⟨exact_start times, hstart⟩ h
  rintro l m a o m' ⟨hexact, hleft⟩ hs
  obtain ⟨hexact', hleft'⟩ := exact_step hexact (Monitor.step_steps hs)
  refine ⟨hexact', ?_⟩
  rw [List.countP_append, List.countP_singleton]
  omega

theorem able (τ : Type) (times : Nat) : (incrementSafe τ times).Able := by
  intro p f hcode t now d
  cases p with
  | loop n =>
    have hcode' : code τ times (.loop n) = .act f := hcode
    rw [code_loop] at hcode'
    split at hcode' <;> cases hcode'
  | read n | add n x | write n x =>
    cases hcode
    exact ⟨(), _, rfl⟩
  | leave n => cases hcode

omit [DecidableEq τ] in
theorem done_iff {t : τ} (h : Exact times m) :
    m.threads t = .running (.loop times) ↔ Monitor.Idle (incrementSafe τ times) (m.threads t) := by
  have hfits := h.fits t
  cases hp : m.threads t with
  | waiting p deadline =>
    rw [hp] at hfits
    exact absurd hfits fun hfits => hfits
  | running p =>
    rw [hp] at hfits
    cases p with
    | loop n =>
      have hle : n ≤ times := hfits
      constructor
      · intro hn
        cases hn
        exact if_neg (Nat.lt_irrefl times)
      · intro hi
        have hi' : code τ times (.loop n) = .idle := hi
        rw [code_loop] at hi'
        split at hi'
        · cases hi'
        · next hlt =>
          obtain rfl : n = times := by omega
          rfl
    | read _ | add _ _ | write _ _ | leave _ => exact ⟨fun hn => (nomatch hn), fun hi => (nomatch hi)⟩

/-- The threads are stuck when they are done, and not before. -/
theorem stuck_iff_finished (h : Exact times m) : Monitor.Stuck (incrementSafe τ times) m ↔ Finished times m := by
  have hrunning : ∀ t, ∃ p, m.threads t = .running p := fun t => by
    have hfits := h.fits t
    cases hp : m.threads t with
    | running p => exact ⟨p, rfl⟩
    | waiting p deadline =>
      rw [hp] at hfits
      exact absurd hfits fun hfits => hfits
  have hsettled : Monitor.Settled (incrementSafe τ times) m := ⟨h.toPlaced, fun t p deadline hp => by
    obtain ⟨q, hq⟩ := hrunning t
    exact nomatch hp.symm.trans hq⟩
  rw [hsettled.stuck_iff (able τ times)]
  constructor
  · rintro ⟨-, hall⟩ t
    obtain ⟨p, hp⟩ := hrunning t
    exact (done_iff h).mpr ((hall t).resolve_right fun ha => (h.outside t p hp).1 ha.1)
  · intro hf
    refine ⟨?_, fun t => Or.inl ((done_iff h).mp (hf t))⟩
    cases ho : m.cond.owner with
    | none => rfl
    | some t =>
      have hin := (h.owner t).mp ho
      rw [hf t] at hin
      exact absurd hin (not_locked_loop τ times times)

omit [DecidableEq τ] in
theorem left_eq_zero_iff {t : τ} (h : Exact times m) :
    left times (m.threads t) = 0 ↔ m.threads t = .running (.loop times) := by
  have hfits := h.fits t
  cases hp : m.threads t with
  | waiting p deadline =>
    rw [hp] at hfits
    exact absurd hfits fun hfits => hfits
  | running p =>
    rw [hp] at hfits
    cases p with
    | loop n =>
      have hle : n ≤ times := hfits
      constructor
      · intro hl
        have hl' : 5 * (times - n) = 0 := hl
        obtain rfl : n = times := by omega
        rfl
      · intro hn
        cases hn
        show 5 * (times - times) = 0
        omega
    | read n | leave n =>
      have hlt : n < times := hfits
      refine ⟨fun hl => ?_, fun hn => nomatch hn⟩
      unfold left Point.left at hl
      simp only at hl
      omega
    | add n x | write n x =>
      have hlt : n < times := hfits.1
      refine ⟨fun hl => ?_, fun hn => nomatch hn⟩
      unfold left Point.left at hl
      simp only at hl
      omega

/-- **The counter with a lock.** In every run: no two threads have the lock; the counter is the number of increments
completed; the threads take five steps a round, and can go on until all are done, with every increment counted. -/
theorem safe_counter (moves : List (Move τ Point Unit)) (os : List (Option Unit)) (m : Monitor τ Point Nat)
    (h : (Monitor.machine (incrementSafe τ times)).run (start τ) moves = some (os, m)) :
    (∀ t u, Monitor.Inside (incrementSafe τ times) (m.threads t) →
      Monitor.Inside (incrementSafe τ times) (m.threads u) → t = u) ∧
    m.data = ∑ t, updates (m.threads t) ∧
    (Monitor.Stuck (incrementSafe τ times) m ↔ Finished times m) ∧
    (Finished times m ↔ moves.countP Move.isRun = Fintype.card τ * (5 * times)) ∧
    (Finished times m → m.data = Fintype.card τ * times) := by
  obtain ⟨hexact, hleft⟩ := exact_run h
  refine ⟨fun t u ht hu => ?_, hexact.counter, stuck_iff_finished hexact, ?_, fun hf => ?_⟩
  · exact Option.some.inj (((hexact.owner t).mpr ht).symm.trans ((hexact.owner u).mpr hu))
  · have hzero : ∑ t, left times (m.threads t) = 0 ↔ Finished times m := by
      rw [Finset.sum_eq_zero_iff]
      exact ⟨fun hall t => (left_eq_zero_iff hexact).mp (hall t (Finset.mem_univ t)),
        fun hf t _ => (left_eq_zero_iff hexact).mpr (hf t)⟩
    rw [← hzero]
    omega
  · rw [hexact.counter, Finset.sum_congr rfl fun t _ => by rw [hf t], Finset.sum_const, smul_eq_mul, Finset.card_univ]
    rfl

end Safe

/-- Two threads make one round each. -/
theorem safe_counter_two : ∃ os m, (Monitor.machine (incrementSafe (Fin 2) 1)).run (start (Fin 2))
    (List.replicate 3 (.run 0 ()) ++ [.tick 1] ++ List.replicate 2 (.run 0 ()) ++ List.replicate 5 (.run 1 ())) =
      some (os, m) ∧ m.data = Fintype.card (Fin 2) * 1 := by
  have hrun : ((Monitor.machine (incrementSafe (Fin 2) 1)).run (start (Fin 2)) (List.replicate 3 (.run 0 ()) ++
      [.tick 1] ++ List.replicate 2 (.run 0 ()) ++ List.replicate 5 (.run 1 ()))).isSome := by
    decide +kernel
  obtain ⟨⟨os, m⟩, h⟩ := Option.isSome_iff_exists.mp hrun
  obtain ⟨-, -, -, hfinished, hdata⟩ := safe_counter _ os m h
  exact ⟨os, m, h, hdata (hfinished.mpr (by decide))⟩

/-! ## One counter for each thread -/

/-- Where a thread is in `increment_isolated`, with its `local_counter`. -/
inductive Local where
  | loop (rounds localCounter : Nat)
  | returned
  deriving DecidableEq

/-- `results`, and the threads. -/
structure Isolated (τ : Type) where
  results : τ → Nat
  threads : τ → Local

def Isolated.init (τ : Type) : Isolated τ := ⟨fun _ => 0, fun _ => .loop 0 0⟩

/-- Threads in `increment_isolated`, each with an index of its own. -/
def incrementIsolated (τ : Type) [DecidableEq τ] (times : Nat) : Machine (Isolated τ) τ Unit where
  step s t :=
    match s.threads t with
    | .loop rounds localCounter =>
      if rounds < times then
        some ((), { s with threads := Function.update s.threads t (.loop (rounds + 1) (localCounter + 1)) })
      else
        some ((), ⟨Function.update s.results t localCounter, Function.update s.threads t .returned⟩)
    | .returned => none

/-- After some steps, a thread has counted each of its rounds, and its result is what it has counted. -/
def Local.After (times steps result : Nat) : Local → Prop
  | .loop rounds localCounter => rounds = steps ∧ localCounter = steps ∧ steps ≤ times ∧ result = 0
  | .returned => steps = times + 1 ∧ result = times

/-- **The counters of the threads.** In every run, the result of a thread depends on its own steps only: it is the
number of its rounds once it has made a step for each and one for the result. -/
theorem isolated_counter {τ : Type} [DecidableEq τ] {times : Nat} {ts : List τ} {os : List Unit} {s : Isolated τ}
    (h : (incrementIsolated τ times).run (.init τ) ts = some (os, s)) :
    ∀ t, ts.count t ≤ times + 1 ∧ s.results t = if ts.count t = times + 1 then times else 0 := by
  have hafter := Machine.run_inputs (M := incrementIsolated τ times) (s := .init τ) (l := [])
    (P := fun l s => ∀ t, (s.threads t).After times (l.count t) (s.results t)) ?_
    (fun t => ⟨rfl, rfl, Nat.zero_le times, rfl⟩) h
  · intro t
    have ht := hafter t
    rw [List.nil_append] at ht
    cases hp : s.threads t with
    | loop rounds localCounter =>
      rw [hp] at ht
      obtain ⟨-, -, hle, hresult⟩ := ht
      rw [if_neg (by omega)]
      exact ⟨by omega, hresult⟩
    | returned =>
      rw [hp] at ht
      rw [if_pos ht.1]
      exact ⟨ht.1.le, ht.2⟩
  · intro l s t o s' hl hs u
    have ht := hl t
    rw [List.count_append, List.count_singleton]
    simp only [incrementIsolated] at hs
    split at hs
    · next rounds localCounter hp =>
      rw [hp] at ht
      obtain ⟨hrounds, hlocal, hle, hresult⟩ := ht
      split at hs
      · next hlt =>
        cases hs
        show Local.After times _ (s.results u) (Function.update s.threads t _ u)
        by_cases hu : u = t
        · subst hu
          rw [Function.update_self, beq_self_eq_true, if_pos rfl]
          exact ⟨by omega, by omega, by omega, hresult⟩
        · rw [Function.update_of_ne hu, if_neg (by simpa using Ne.symm hu)]
          exact hl u
      · next hlt =>
        cases hs
        show Local.After times _ (Function.update s.results t _ u) (Function.update s.threads t _ u)
        by_cases hu : u = t
        · subst hu
          rw [Function.update_self, Function.update_self, beq_self_eq_true, if_pos rfl]
          exact ⟨by omega, by omega⟩
        · rw [Function.update_of_ne hu, Function.update_of_ne hu, if_neg (by simpa using Ne.symm hu)]
          exact hl u
    · cases hs

end TheGrind.Threads
