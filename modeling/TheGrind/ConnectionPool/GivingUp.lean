import TheGrind.ConnectionPool.Wakeup

/-!
# When a borrow gives up

A borrow raises `TimeoutError` when its wait returns false, without another look at the pool. Between the end of the
timeout and the return of the wait other threads may run, so a connection can be idle by then (`gives_up_beside_conn`).
While a thread is on its way to the error it has the lock, and the pool stays as the thread found it (`Waived`): the
pool is empty at every `TimeoutError` exactly if it is empty whenever a thread whose timeout has elapsed gets the lock
again.
-/

namespace TheGrind.ConnectionPool
open TheGrind.Transition TheGrind.Sync

variable {τ : Type} [DecidableEq τ] {size : Nat} {m m' : Monitor τ Point (SimplePool τ)} {a : Move τ Point Unit}
  {o : Option (Outcome τ)} {t : τ} {may : τ → SimplePool τ → String → Bool}

/-- The step raises `TimeoutError`, if at all, with an empty pool. -/
def RaisesOnEmpty (may : τ → SimplePool τ → String → Bool) (m : Monitor τ Point (SimplePool τ))
    (a : Move τ Point Unit) : Prop :=
  ∀ t message m', (Monitor.machine (program τ may)).step m a = some (some (.raised t (.timeoutError message)), m') →
    m.data.pool = []

/-- A thread whose timeout has elapsed gets the lock again, if at all, with an empty pool. -/
def ReturnsToEmpty (m : Monitor τ Point (SimplePool τ)) : Move τ Point Unit → Prop
  | .run t _ => t ∈ m.cond.timedOut → m.data.pool = []
  | _ => True

instance (m : Monitor τ Point (SimplePool τ)) : DecidablePred (ReturnsToEmpty m)
  | .run t _ => inferInstanceAs (Decidable (t ∈ m.cond.timedOut → m.data.pool = []))
  | .tick _ | .call _ _ | .expire _ | .rouse _ => inferInstanceAs (Decidable True)

/-- The thread is on its way from the end of its wait to the error. -/
def Waiving : Thread Point → Prop
  | .running (.waited _ false) | .running .raise => True
  | _ => False

theorem waiving_iff {th : Thread Point} :
    Waiving th ↔ (∃ timeout, th = .running (.waited timeout false)) ∨ th = .running .raise := by
  cases th with
  | waiting p deadline => simp [Waiving]
  | running p =>
    cases p with
    | waited timeout b => cases b <;> simp [Waiving]
    | outside | borrow _ | check _ | wait _ | raise | pop | returnConn _ | append _ | notify | leave => simp [Waiving]

theorem waiving_inside {th : Thread Point} (h : Waiving th) : Monitor.Inside (program τ may) th := by
  obtain ⟨timeout, rfl⟩ | rfl := waiving_iff.mp h <;> exact trivial

/-! ## On the way to the error -/

/-- A step of a thread on its way to the error takes it on, or raises the error. -/
theorem waiving_step (hs : Monitor.Steps (program τ may) m a o m') (ha : a.thread = some t)
    (hw : Waiving (m.threads t)) :
    m'.data = m.data ∧ (Waiving (m'.threads t) ∨ o = some (.raised t (.timeoutError "No connection available"))) := by
  obtain ⟨th, th', d, hp, hp', hd, -, hact⟩ := act_of_steps hs ha
  rw [hp] at hw
  rw [hp', hd]
  cases hact with
  | timedOut => exact ⟨rfl, Or.inl trivial⟩
  | raise => exact ⟨rfl, Or.inr rfl⟩
  | call _ | borrow | empty _ | found _ | wait | stir _ | wake | notified | pop | returnConn | append | notify
  | leave => exact absurd hw fun hw => hw

/-- While a thread is on its way to the error, the steps of the others leave the pool alone. -/
theorem waiving_frame (hplaced : Monitor.Placed (program τ may) m) (hs : Monitor.Steps (program τ may) m a o m')
    (ha : a.thread ≠ some t) (hw : Waiving (m.threads t)) : m'.data = m.data ∧ Waiving (m'.threads t) := by
  have ho : m.cond.owner = some t := (hplaced.owner t).mpr (waiving_inside hw)
  rw [hs.frame ha]
  refine ⟨?_, hw⟩
  rcases hplaced.data hs with hd | ⟨u, hu, hown⟩
  · exact hd
  · rw [ho] at hown
    exact absurd (hu.trans hown.symm) ha

/-- The way to the error begins when the lock comes back after the timeout. -/
theorem waiving_begins (hs : Monitor.Steps (program τ may) m a o m') (hnot : ¬Waiving (m.threads t))
    (hw : Waiving (m'.threads t)) : m'.data = m.data ∧ (∃ e, a = .run t e) ∧ t ∈ m.cond.timedOut := by
  have ha : a.thread = some t := by
    by_contra ha
    rw [hs.frame ha] at hw
    exact hnot hw
  obtain ⟨th, th', d, hp, hp', hd, -, hact⟩ := act_of_steps hs ha
  rw [hp] at hnot
  rw [hp'] at hw
  rw [hd]
  cases hact with
  | wake =>
    refine ⟨rfl, ⟨_, rfl⟩, ?_⟩
    by_contra ht
    rw [decide_eq_true ht] at hw
    exact hw
  | timedOut => exact absurd trivial hnot
  | @call p hentry => cases p <;> first | exact absurd hw fun hw => hw | cases hentry
  | borrow | empty _ | found _ | wait | stir _ | notified | raise | pop | returnConn | append | notify | leave =>
    exact absurd hw fun hw => hw

/-- A thread whose timeout has elapsed goes on to the error when it has the lock again. -/
theorem waiving_of_timedOut {e : Unit} (hplaced : Monitor.Placed (program τ may) m)
    (hs : Monitor.Steps (program τ may) m (.run t e) o m') (ht : t ∈ m.cond.timedOut) :
    m'.data = m.data ∧ Waiving (m'.threads t) := by
  have hrun : ∀ p, m.threads t ≠ .running p := fun p hp => (hplaced.outside t p hp).2.1 ht
  obtain ⟨th, th', d, hp, hp', hd, -, hact⟩ := act_of_steps hs rfl
  rw [hp', hd]
  cases hact with
  | wake =>
    rw [decide_eq_false (not_not_intro ht)]
    exact ⟨rfl, trivial⟩
  | stir hne => exact absurd rfl (hne e)
  | borrow | empty _ | found _ | wait | notified | timedOut | raise | pop | returnConn | append | notify | leave =>
    exact absurd hp (hrun _)

/-! ## Runs -/

/-- Whoever is on its way to the error found the pool empty. -/
structure Waived (may : τ → SimplePool τ → String → Bool) (m : Monitor τ Point (SimplePool τ)) : Prop where
  placed : Monitor.Placed (program τ may) m
  empty : ∀ t, Waiving (m.threads t) → m.data.pool = []

theorem waived_start (size : Nat) : Waived may (start τ size) where
  placed := Monitor.placed_init fun h => h
  empty _ h := absurd h fun h => h

theorem waived_step (h : Waived may m) (hret : ReturnsToEmpty m a)
    (hs : (Monitor.machine (program τ may)).step m a = some (o, m')) : Waived may m' := by
  have hst := Monitor.step_steps hs
  refine ⟨h.placed.steps hst, fun t hw => ?_⟩
  by_cases hold : Waiving (m.threads t)
  · have hd : m'.data = m.data := by
      by_cases ha : a.thread = some t
      · exact (waiving_step hst ha hold).1
      · exact (waiving_frame h.placed hst ha hold).1
    rw [hd]
    exact h.empty t hold
  · obtain ⟨hd, ⟨e, rfl⟩, ht⟩ := waiving_begins hst hold hw
    rw [hd]
    exact hret ht

theorem raisesOnEmpty_of_waived (h : Waived may m) : RaisesOnEmpty may m a := by
  intro t message m' hs
  obtain ⟨u, -, ⟨-, hx, -⟩ | ⟨conn, hx⟩ | ⟨hp, -, -⟩⟩ := outcome_step (Monitor.step_steps hs) rfl
  · rcases pop_cases u m.data with ⟨-, hpop⟩ | ⟨conn, hpop⟩ <;> rw [hpop] at hx <;> cases hx
  · cases hx
  · exact h.empty u (by rw [hp]; exact trivial)

/-- Somebody is on its way to the error beside a connection. -/
def WaivesConn (m : Monitor τ Point (SimplePool τ)) : Prop := ∃ t, Waiving (m.threads t) ∧ m.data.pool ≠ []

theorem waivesConn_begins (hplaced : Monitor.Placed (program τ may) m) (hret : ¬ReturnsToEmpty m a)
    (hs : (Monitor.machine (program τ may)).step m a = some (o, m')) : WaivesConn m' := by
  cases a with
  | tick _ | call _ _ | expire _ | rouse _ => exact absurd trivial hret
  | run t e =>
    obtain ⟨ht, hne⟩ := Classical.not_imp.mp hret
    obtain ⟨hd, hw⟩ := waiving_of_timedOut hplaced (Monitor.step_steps hs) ht
    exact ⟨t, hw, hd ▸ hne⟩

/-- Whoever is on its way to the error beside a connection goes on, or raises it there. -/
theorem waivesConn_step (hplaced : Monitor.Placed (program τ may) m) (h : WaivesConn m)
    (hraise : RaisesOnEmpty may m a)
    (hs : (Monitor.machine (program τ may)).step m a = some (o, m')) : WaivesConn m' := by
  obtain ⟨t, hw, hne⟩ := h
  have hst := Monitor.step_steps hs
  by_cases ha : a.thread = some t
  · obtain ⟨hd, hw' | rfl⟩ := waiving_step hst ha hw
    · exact ⟨t, hw', hd ▸ hne⟩
    · exact absurd (hraise t _ m' hs) hne
  · obtain ⟨hd, hw'⟩ := waiving_frame hplaced hst ha hw
    exact ⟨t, hw', hd ▸ hne⟩

theorem returnsToEmpty_of_raisesOnEmpty {moves : List (Move τ Point Unit)} {os : List (Option (Outcome τ))}
    (hplaced : Monitor.Placed (program τ may) m)
    (hrun : (Monitor.machine (program τ may)).run m moves = some (os, m'))
    (hfree : m'.cond.owner = none)
    (hall : (Monitor.machine (program τ may)).Along (RaisesOnEmpty may) m moves) :
    (Monitor.machine (program τ may)).Along ReturnsToEmpty m moves := by
  refine Machine.along_of_not_doomed (P := Monitor.Placed (program τ may)) (B := WaivesConn)
    (fun h _ hs => h.steps (Monitor.step_steps hs)) waivesConn_begins waivesConn_step hplaced hrun ?_ hall
  rintro ⟨t, hw, -⟩
  rw [((hplaced.run hrun).owner t).mpr (waiving_inside hw)] at hfree
  cases hfree

/-- **When a borrow gives up with nothing to take.** In every run in which the pool is empty whenever a thread whose
timeout has elapsed gets the lock again, whatever the callers return, every `TimeoutError` is raised with an empty pool.
A run that ends with the lock free meets the condition if its errors are raised so. -/
theorem gives_up_on_empty_iff (may : τ → SimplePool τ → String → Bool) (size : Nat)
    (moves : List (Move τ Point Unit)) (os : List (Option (Outcome τ))) (m : Monitor τ Point (SimplePool τ))
    (h : (Monitor.machine (program τ may)).run (start τ size) moves = some (os, m)) :
    ((Monitor.machine (program τ may)).Along ReturnsToEmpty (start τ size) moves →
      (Monitor.machine (program τ may)).Along (RaisesOnEmpty may) (start τ size) moves) ∧
    (m.cond.owner = none →
      (Monitor.machine (program τ may)).Along (RaisesOnEmpty may) (start τ size) moves →
        (Monitor.machine (program τ may)).Along ReturnsToEmpty (start τ size) moves) := by
  constructor
  · intro hret
    exact Machine.along_of_invariant (M := Monitor.machine (program τ may)) (P := Waived may) waived_step
      (fun h _ => raisesOnEmpty_of_waived h) (waived_start size) hret
  · exact fun hfree hall => returnsToEmpty_of_raisesOnEmpty (waived_start size).placed h hfree hall

/-- The one connection is out, and the timeouts of two borrowers elapse. -/
theorem gives_up_on_empty_iff_example :
    let moves : List (Move Nat Point Unit) := contended ++ [.tick 5, .expire 1, .run 1 (), .run 1 (), .run 1 ()]
    (Monitor.machine (program Nat holding)).Along (RaisesOnEmpty holding) (start Nat 1) moves ∧
      (Monitor.machine (program Nat holding)).Along ReturnsToEmpty (start Nat 1) moves := by
  intro moves
  have hrun : ((Monitor.machine (program Nat holding)).run (start Nat 1) moves).map
      (fun r => decide (r.2.cond.owner = none)) = some true := by decide +kernel
  obtain ⟨⟨os, m⟩, h, hfree⟩ := Option.map_eq_some_iff.mp hrun
  obtain ⟨hraises, hreturns⟩ := gives_up_on_empty_iff holding 1 _ os m h
  have hempty := hraises (by decide +kernel)
  exact ⟨hempty, hreturns (of_decide_eq_true hfree) hempty⟩

/-- The timeout of thread 1 elapses, thread 0 returns its connection, and thread 1 raises `TimeoutError` beside it. -/
theorem gives_up_beside_conn : ¬∀ (size : Nat) (moves : List (Move Nat Point Unit)) (os : List (Option (Outcome Nat)))
    (m : Monitor Nat Point (SimplePool Nat)),
    (Monitor.machine (program Nat holding)).run (start Nat size) moves = some (os, m) →
      (Monitor.machine (program Nat holding)).Along (RaisesOnEmpty holding) (start Nat size) moves := by
  intro hall
  have hrun : ((Monitor.machine (program Nat holding)).run (start Nat 1)
      (contended ++ (.tick 5 :: .expire 1 :: (returns ++ List.replicate 3 (.run 1 ()))))).map
        (fun r => decide (r.2.cond.owner = none)) = some true := by decide +kernel
  obtain ⟨⟨os, m⟩, h, hfree⟩ := Option.map_eq_some_iff.mp hrun
  have hreturns := returnsToEmpty_of_raisesOnEmpty (waived_start 1).placed h (of_decide_eq_true hfree) (hall 1 _ os m h)
  exact absurd hreturns (by decide +kernel)

end TheGrind.ConnectionPool
