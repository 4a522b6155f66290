import TheGrind.ConnectionPool.Wakeup

/-!
# The timeout of a borrow

Each round of the loop in `borrow` starts a wait with the whole timeout, so the time that has passed in the call until
then comes on top (`borrow_waits_again`). A wait is in time exactly if it starts at the reading of the clock at which
the call began: the pool is not found empty later (`InTime`), nor does the clock move between the look and the wait.

* `WaitsUntil` : the deadline that the waits of the call should keep;
* `Timed` : a call has the timeout it began with, at every point;
* `borrow_in_time_iff` : when the timeout bounds the call.
-/

namespace TheGrind.ConnectionPool
open TheGrind.Transition TheGrind.Sync

variable {τ : Type} [DecidableEq τ] {size : Nat} {m m' : Monitor τ Point (SimplePool τ)} {a : Move τ Point Unit}
  {o : Option (Outcome τ)} {t : τ} {timeout : ℚ} {began : ℚ}
  {may : τ → SimplePool τ → String → Bool}

/-- If the step starts a wait of `t`, its deadline is `limit` or earlier. -/
def WaitsUntil (may : τ → SimplePool τ → String → Bool) (t : τ) (limit : ℚ) (m : Monitor τ Point (SimplePool τ))
    (a : Move τ Point Unit) : Prop :=
  ∀ o m' p p' deadline, (Monitor.machine (program τ may)).step m a = some (o, m') → m.threads t = .running p →
    m'.threads t = .waiting p' deadline → ∃ d, deadline = some d ∧ d ≤ limit

/-- The thread is about to look at the pool. -/
def Looking : Thread Point → Bool
  | .running (.check _) => true
  | _ => false

/-- The thread has found the pool empty and is about to wait. -/
def EmptyHanded : Thread Point → Bool
  | .running (.wait _) => true
  | _ => false

/-- After `began`, `t` does not find the pool empty; nor does the clock pass `began` when it has. -/
def InTime (t : τ) (began : ℚ) (m : Monitor τ Point (SimplePool τ)) : Move τ Point Unit → Prop
  | .run u _ => u = t → Looking (m.threads t) → began < m.clock → m.data.pool ≠ []
  | .tick now => EmptyHanded (m.threads t) → now ≤ began
  | _ => True

instance (t : τ) (began : ℚ) (m : Monitor τ Point (SimplePool τ)) : DecidablePred (InTime t began m)
  | .run u _ => inferInstanceAs (Decidable (u = t → Looking (m.threads t) → began < m.clock → m.data.pool ≠ []))
  | .tick now => inferInstanceAs (Decidable (EmptyHanded (m.threads t) → now ≤ began))
  | .call _ _ | .expire _ | .rouse _ => inferInstanceAs (Decidable True)

theorem emptyHanded_inside {th : Thread Point} (h : EmptyHanded th) : Monitor.Inside (program τ may) th := by
  cases th with
  | waiting p deadline => cases h
  | running p =>
    cases p with
    | wait _ => exact trivial
    | outside | borrow _ | check _ | waited _ _ | raise | pop | returnConn _ | append _ | notify | leave => cases h

/-! ## The timeout of a call -/

/-- The points of a borrow have the timeout that it was called with. -/
def Timed (timeout : ℚ) : Thread Point → Prop
  | .running (.borrow s) | .running (.check s) | .running (.wait s) | .running (.waited s _) => s = some timeout
  | .waiting (.wait s) _ => s = some timeout
  | _ => True

/-- A call that began at `began` and has not made another call since. -/
structure Call (may : τ → SimplePool τ → String → Bool) (t : τ) (timeout began : ℚ)
    (m : Monitor τ Point (SimplePool τ)) : Prop where
  placed : Monitor.Placed (program τ may) m
  timed : Timed timeout (m.threads t)
  clock : began ≤ m.clock

theorem timed_step (hs : Monitor.Steps (program τ may) m a o m') (hcall : ∀ p, a ≠ .call t p)
    (h : Timed timeout (m.threads t)) : Timed timeout (m'.threads t) := by
  by_cases ha : a.thread = some t
  · obtain ⟨th, th', d, hp, hp', -, -, hact⟩ := act_of_steps hs ha
    rw [hp] at h
    rw [hp']
    cases hact with
    | call _ => exact absurd rfl (hcall _)
    | borrow | empty _ | wait | stir _ | wake | notified => exact h
    | found _ | timedOut | raise | pop | returnConn | append | notify | leave => exact trivial
  · rw [hs.frame ha]
    exact h

theorem call_begins (h : Monitor.Placed (program τ may) m)
    (hs : Monitor.Steps (program τ may) m (.call t (.borrow (some timeout))) o m') :
    Call may t timeout m.clock m' ∧ EmptyHanded (m'.threads t) = false := by
  have hplaced := h.steps hs
  cases hs with
  | call _ _ _ =>
    refine ⟨⟨hplaced, ?_, le_rfl⟩, ?_⟩
    · rw [Monitor.threads_goto]
      exact rfl
    · rw [Monitor.threads_goto]
      rfl

theorem Call.step (h : Call may t timeout began m) (hcall : ∀ p, a ≠ .call t p)
    (hs : (Monitor.machine (program τ may)).step m a = some (o, m')) : Call may t timeout began m' := by
  have hst := Monitor.step_steps hs
  exact ⟨h.placed.steps hst, timed_step hst hcall h.timed, h.clock.trans hst.clock_le⟩

/-- A thread gets to its wait when it finds the pool empty. -/
theorem emptyHanded_begins (hs : Monitor.Steps (program τ may) m a o m') (hcall : ∀ p, a ≠ .call t p)
    (hnot : EmptyHanded (m.threads t) = false) (h : EmptyHanded (m'.threads t)) :
    (∃ e, a = .run t e) ∧ Looking (m.threads t) ∧ m.data.pool = [] ∧ m'.clock = m.clock := by
  have ha : a.thread = some t := by
    by_contra ha
    rw [hs.frame ha, hnot] at h
    cases h
  obtain ⟨th, th', d, hp, hp', -, hclock, hact⟩ := act_of_steps hs ha
  rw [hp] at hnot ⊢
  rw [hp'] at h
  cases hact with
  | empty hnil => exact ⟨⟨_, rfl⟩, rfl, hnil, hclock⟩
  | call _ => exact absurd rfl (hcall _)
  | borrow | found _ | wait | stir _ | wake | notified | timedOut | raise | pop | returnConn | append | notify
  | leave => cases h

/-- A thread that is about to wait starts its wait, with the whole timeout from then on. -/
theorem emptyHanded_step (hs : Monitor.Steps (program τ may) m a o m') (ha : a.thread = some t)
    (h : EmptyHanded (m.threads t)) (htimed : Timed timeout (m.threads t)) :
    ∃ p p', m.threads t = .running p ∧ m'.threads t = .waiting p' (some (m.clock + timeout)) := by
  obtain ⟨th, th', d, hp, hp', -, -, hact⟩ := act_of_steps hs ha
  rw [hp] at h htimed ⊢
  rw [hp']
  cases hact with
  | wait =>
    obtain rfl := htimed
    exact ⟨_, _, rfl, rfl⟩
  | call _ | borrow | empty _ | found _ | stir _ | wake | notified | timedOut | raise | pop | returnConn | append
  | notify | leave => cases h

/-- Only a thread that is about to wait starts a wait. -/
theorem emptyHanded_of_waits {p p' : Point} {deadline : Option ℚ} (hs : Monitor.Steps (program τ may) m a o m')
    (hp : m.threads t = .running p) (hp' : m'.threads t = .waiting p' deadline) :
    a.thread = some t ∧ EmptyHanded (m.threads t) := by
  have ha : a.thread = some t := by
    by_contra ha
    rw [hs.frame ha, hp] at hp'
    cases hp'
  obtain ⟨th, th', d, hth, hth', -, -, hact⟩ := act_of_steps hs ha
  refine ⟨ha, ?_⟩
  rw [hth]
  rw [hth] at hp
  rw [hth'] at hp'
  cases hact with
  | wait => rfl
  | stir _ => cases hp
  | call _ | borrow | empty _ | found _ | wake | notified | timedOut | raise | pop | returnConn | append | notify
  | leave => cases hp'

/-! ## Runs -/

/-- The call is in time: its next wait, if it is about to start one, starts when the call began. -/
theorem inTime_step (h : Call may t timeout began m) (hon : EmptyHanded (m.threads t) → m.clock = began)
    (hcall : ∀ p, a ≠ .call t p) (hin : InTime t began m a)
    (hs : (Monitor.machine (program τ may)).step m a = some (o, m')) :
    EmptyHanded (m'.threads t) → m'.clock = began := by
  intro h'
  have hst := Monitor.step_steps hs
  cases hold : EmptyHanded (m.threads t) with
  | false =>
    obtain ⟨⟨e, rfl⟩, hlook, hnil, hclock⟩ := emptyHanded_begins hst hcall hold h'
    rw [hclock]
    refine le_antisymm (not_lt.mp fun hlt => ?_) h.clock
    exact hin rfl hlook hlt hnil
  | true =>
    have hclock := hon hold
    cases hst with
    | tick hle => exact le_antisymm (hin hold) (hclock ▸ hle)
    | call _ _ _ | acquire _ _ _ | act _ _ _ | wait _ _ _ | notify _ _ | notifyAll _ _ | release _ _ _
    | reacquire _ _ _ | expire _ _ _ | rouse _ _ => exact hclock

theorem waitsUntil_of_inTime (h : Call may t timeout began m) (hon : EmptyHanded (m.threads t) → m.clock = began) :
    WaitsUntil may t (began + timeout) m a := by
  intro o m' p p' deadline hs hp hp'
  have hst := Monitor.step_steps hs
  obtain ⟨ha, hempty⟩ := emptyHanded_of_waits hst hp hp'
  obtain ⟨q, q', -, hq'⟩ := emptyHanded_step hst ha hempty h.timed
  rw [hp'] at hq'
  cases hq'
  rw [hon hempty]
  exact ⟨_, rfl, le_rfl⟩

/-- The thread is about to wait, and the call began some time ago. -/
def Late (t : τ) (began : ℚ) (m : Monitor τ Point (SimplePool τ)) : Prop := EmptyHanded (m.threads t) ∧ began < m.clock

theorem late_begins (hin : ¬InTime t began m a) (hs : (Monitor.machine (program τ may)).step m a = some (o, m')) :
    Late t began m' := by
  have hst := Monitor.step_steps hs
  cases a with
  | call _ _ | expire _ | rouse _ => exact absurd trivial hin
  | tick now =>
    obtain ⟨hempty, hlt⟩ := Classical.not_imp.mp hin
    cases hst with
    | tick _ => exact ⟨hempty, not_le.mp hlt⟩
  | run u e =>
    unfold InTime at hin
    push Not at hin
    obtain ⟨rfl, hlook, hlt, hnil⟩ := hin
    obtain ⟨th, th', d, hp, hp', -, hclock, hact⟩ := act_of_steps hst rfl
    rw [hp] at hlook
    rw [Late, hp', hclock]
    cases hact with
    | empty _ => exact ⟨rfl, hlt⟩
    | found hne => exact absurd hnil hne
    | borrow | wait | stir _ | wake | notified | timedOut | raise | pop | returnConn | append | notify | leave =>
      cases hlook

/-- A late thread waits too long, or is still about to. -/
theorem late_step (h : Call may t timeout began m) (hlate : Late t began m)
    (hwaits : WaitsUntil may t (began + timeout) m a)
    (hs : (Monitor.machine (program τ may)).step m a = some (o, m')) : Late t began m' := by
  obtain ⟨hempty, hlt⟩ := hlate
  have hst := Monitor.step_steps hs
  by_cases ha : a.thread = some t
  · obtain ⟨p, p', hp, hp'⟩ := emptyHanded_step hst ha hempty h.timed
    obtain ⟨d, hd, hle⟩ := hwaits o m' p p' _ hs hp hp'
    obtain rfl := Option.some.inj hd
    exact absurd hlt (not_lt.mpr (le_of_add_le_add_right hle))
  · rw [Late, hst.frame ha]
    exact ⟨hempty, hlt.trans_le hst.clock_le⟩

/-- A thread that ends without the lock has started the waits that it was about to start. -/
theorem along_inTime {moves : List (Move τ Point Unit)} {os : List (Option (Outcome τ))}
    (h : Call may t timeout began m) (hrun : (Monitor.machine (program τ may)).run m moves = some (os, m'))
    (hcalls : ∀ p, .call t p ∉ moves)
    (howner : m'.cond.owner ≠ some t)
    (hwaits : (Monitor.machine (program τ may)).Along (WaitsUntil may t (began + timeout)) m moves) :
    (Monitor.machine (program τ may)).Along (InTime t began) m moves := by
  have hone : (Monitor.machine (program τ may)).Along (fun _ a => ∀ p, a ≠ .call t p) m moves :=
    Machine.along_of_forall fun a ha _ p he => hcalls p (he ▸ ha)
  have hplaced : Monitor.Placed (program τ may) m' := h.placed.run hrun
  refine Machine.along_of_not_doomed (P := Call may t timeout began) (B := Late t began)
    (fun hP hR hs => hP.step hR.1 hs) (fun _ hQ hs => late_begins hQ hs)
    (fun hP hB hR hs => late_step hP hB hR.2 hs) h hrun ?_
    (Machine.along_and hone hwaits)
  exact fun hlate => howner ((hplaced.owner t).mpr (emptyHanded_inside hlate.1))

/-- **When the timeout bounds a borrow.** If a `borrow(timeout)` that begins at `m.clock` does not find the pool empty
later than that, none of its waits has a deadline after `m.clock + timeout`, however often it is woken and whatever the
callers return. A run at whose end the thread is without the lock meets the condition if its waits have no later
deadline. -/
theorem borrow_in_time_iff (may : τ → SimplePool τ → String → Bool) (size : Nat)
    (moves moves' : List (Move τ Point Unit)) (os os' : List (Option (Outcome τ)))
    (m m₁ m₂ : Monitor τ Point (SimplePool τ)) (t : τ) (timeout : ℚ) (o : Option (Outcome τ))
    (h : (Monitor.machine (program τ may)).run (start τ size) moves = some (os, m))
    (hcall : (Monitor.machine (program τ may)).step m (.call t (.borrow (some timeout))) = some (o, m₁))
    (hrun : (Monitor.machine (program τ may)).run m₁ moves' = some (os', m₂)) (hcalls : ∀ p, .call t p ∉ moves') :
    ((Monitor.machine (program τ may)).Along (InTime t m.clock) m₁ moves' →
      (Monitor.machine (program τ may)).Along (WaitsUntil may t (m.clock + timeout)) m₁ moves') ∧
    (m₂.cond.owner ≠ some t → (Monitor.machine (program τ may)).Along (WaitsUntil may t (m.clock + timeout)) m₁ moves' →
      (Monitor.machine (program τ may)).Along (InTime t m.clock) m₁ moves') := by
  obtain ⟨hc, hempty⟩ := call_begins (placed_run h) (Monitor.step_steps hcall)
  refine ⟨fun hin => ?_, fun howner => along_inTime hc hrun hcalls howner⟩
  have hone : (Monitor.machine (program τ may)).Along (fun _ a => ∀ p, a ≠ .call t p) m₁ moves' :=
    Machine.along_of_forall fun a ha _ p he => hcalls p (he ▸ ha)
  refine Machine.along_of_invariant (M := Monitor.machine (program τ may))
    (P := fun m' => Call may t timeout m.clock m' ∧ (EmptyHanded (m'.threads t) → m'.clock = m.clock))
    (fun hP hQ hs => ⟨hP.1.step hQ.1 hs, inTime_step hP.1 hP.2 hQ.1 hQ.2 hs⟩)
    (fun hP _ => waitsUntil_of_inTime hP.1 hP.2) ⟨hc, ?_⟩ (Machine.along_and hone hin)
  rw [hempty]
  exact fun h => by cases h

/-- Thread 0 takes the one connection. -/
def taken : List (Move Nat Point Unit) := [.call 0 (.borrow none), .run 0 (), .run 0 (), .run 0 (), .run 0 ()]

/-- Thread 1 finds the pool empty and waits, until 3. -/
def waited : List (Move Nat Point Unit) := [.run 1 (), .run 1 (), .run 1 (), .tick 3]

/-- Thread 1 waits for a connection from 0 on. At 3 thread 0 returns its own, and thread 1 takes it. -/
theorem borrow_in_time_iff_example :
    let moves : List (Move Nat Point Unit) := waited ++ returns ++ List.replicate 5 (.run 1 ())
    ∃ os m o m₁, (Monitor.machine (program Nat holding)).run (start Nat 1) taken = some (os, m) ∧
      (Monitor.machine (program Nat holding)).step m (.call 1 (.borrow (some 5))) = some (o, m₁) ∧
      (Monitor.machine (program Nat holding)).Along (WaitsUntil holding 1 (m.clock + 5)) m₁ moves ∧
      (Monitor.machine (program Nat holding)).Along (InTime 1 m.clock) m₁ moves := by
  intro moves
  have hrun : (((Monitor.machine (program Nat holding)).run (start Nat 1) taken).bind fun r =>
      ((Monitor.machine (program Nat holding)).step r.2 (.call 1 (.borrow (some 5)))).bind fun q =>
        ((Monitor.machine (program Nat holding)).run q.2 moves).map fun p =>
          decide (p.2.cond.owner ≠ some 1 ∧
            (Monitor.machine (program Nat holding)).Along (InTime 1 r.2.clock) q.2 moves)) = some true := by
    decide +kernel
  obtain ⟨⟨os, m⟩, h, hrun⟩ := Option.bind_eq_some_iff.mp hrun
  obtain ⟨⟨o, m₁⟩, hcall, hrun⟩ := Option.bind_eq_some_iff.mp hrun
  obtain ⟨⟨os', m₂⟩, hrun', hdec⟩ := Option.map_eq_some_iff.mp hrun
  obtain ⟨howner, hin⟩ := of_decide_eq_true hdec
  obtain ⟨hto, hfrom⟩ := borrow_in_time_iff holding 1 taken moves os os' m m₁ m₂ 1 5 o h hcall hrun' fun p hp => by
    simp [moves, waited, returns] at hp
  exact ⟨os, m, o, m₁, h, hcall, hto hin, hfrom howner (hto hin)⟩

/-- At 3 thread 0 returns its connection, which wakes thread 1, and takes it again. Thread 1, whose borrow began at 0
with a timeout of 5, waits on, until 8. -/
theorem borrow_waits_again : ¬∀ (size : Nat) (moves moves' : List (Move Nat Point Unit))
    (os os' : List (Option (Outcome Nat))) (m m₁ m₂ : Monitor Nat Point (SimplePool Nat)) (t : Nat) (timeout : ℚ)
    (o : Option (Outcome Nat)), (Monitor.machine (program Nat holding)).run (start Nat size) moves = some (os, m) →
    (Monitor.machine (program Nat holding)).step m (.call t (.borrow (some timeout))) = some (o, m₁) →
    (Monitor.machine (program Nat holding)).run m₁ moves' = some (os', m₂) → (∀ p, .call t p ∉ moves') →
    (Monitor.machine (program Nat holding)).Along (WaitsUntil holding t (m.clock + timeout)) m₁ moves' := by
  intro hall
  let moves : List (Move Nat Point Unit) := waited ++ returns ++ taken ++ List.replicate 4 (.run 1 ())
  have hrun : (((Monitor.machine (program Nat holding)).run (start Nat 1) taken).bind fun r =>
      ((Monitor.machine (program Nat holding)).step r.2 (.call 1 (.borrow (some 5)))).bind fun q =>
        ((Monitor.machine (program Nat holding)).run q.2 moves).map fun p =>
          decide (p.2.cond.owner ≠ some 1 ∧
            ¬(Monitor.machine (program Nat holding)).Along (InTime 1 r.2.clock) q.2 moves)) = some true := by
    decide +kernel
  obtain ⟨⟨os, m⟩, h, hrun⟩ := Option.bind_eq_some_iff.mp hrun
  obtain ⟨⟨o, m₁⟩, hcall, hrun⟩ := Option.bind_eq_some_iff.mp hrun
  obtain ⟨⟨os', m₂⟩, hrun', hdec⟩ := Option.map_eq_some_iff.mp hrun
  obtain ⟨howner, hin⟩ := of_decide_eq_true hdec
  have hcalls : ∀ p, .call 1 p ∉ moves := fun p hp => by simp [moves, waited, returns, taken] at hp
  have hc := (call_begins (placed_run h) (Monitor.step_steps hcall)).1
  exact hin (along_inTime hc hrun' hcalls howner (hall 1 taken moves os os' m m₁ m₂ 1 5 o h hcall hrun' hcalls))

end TheGrind.ConnectionPool
