import TheGrind.MessageQueue.Monitor

/-!
# The timeout of a receive

`Condition.wait_for` sets one end time for the whole call, in its first round, and each round waits for what is left of
it. So all waits of a `receive` end together, however often the thread is woken beside an empty queue, and the call
gives up no earlier.

* `Turn` : where a move takes a thread that is in `wait_for`;
* `Punctual` : a wait begins soon after the reading that its `waittime` is from;
* `EndsBy` : what the end time means for a step, `Begun` and `Until` : what holds before it is set and after;
* `receive_ends_by` : the timeout bounds the call.
-/

namespace TheGrind.MessageQueue
open TheGrind.Transition TheGrind.Sync

variable {τ : Type} [DecidableEq τ] {m m' : Monitor τ Point World} {a : Sync.Move τ Point Choice}
  {o : Option (Outcome τ)} {t : τ} {timeout endtime : Option ℚ} {slack now : ℚ}

/-! ## The moves of a receive -/

/-- Not between the beginning of a `receive` and its `popleft`. -/
def Elsewhere : Point → Prop
  | .receive _ | .predicate _ _ | .loop _ _ | .wait _ _ | .giveUp => False
  | _ => True

/-- Where a move of `t` takes it, other than a call. -/
inductive Turn (t : τ) (now : ℚ) : Thread Point → Option (Outcome τ) → Thread Point → Prop
  | receive {timeout : Option ℚ} : Turn t now (.running (.receive timeout)) none (.running (.predicate timeout none))
  | found {waittime endtime : Option ℚ} : Turn t now (.running (.predicate waittime endtime)) none (.running .popleft)
  | empty {waittime endtime : Option ℚ} :
      Turn t now (.running (.predicate waittime endtime)) none (.running (.loop waittime endtime))
  | round {waittime endtime : Option ℚ} :
      Turn t now (.running (.loop waittime endtime)) none (.running (waitForRound waittime endtime now))
  | wait {waittime endtime : Option ℚ} :
      Turn t now (.running (.wait waittime endtime)) none
        (.waiting (.wait waittime endtime) (waittime.map (now + ·)))
  | stir {p : Point} {deadline : Option ℚ} : Turn t now (.waiting p deadline) none (.waiting p deadline)
  | wake {waittime endtime deadline : Option ℚ} :
      Turn t now (.waiting (.wait waittime endtime) deadline) none (.running (.predicate waittime endtime))
  | giveUp : Turn t now (.running .giveUp) (some (.did (.gaveUp t))) (.running .outside)
  | elsewhere {p q : Point} {o : Option (Outcome τ)} : Elsewhere p → Elsewhere q →
      (∀ u, o ≠ some (.did (.gaveUp u))) → Turn t now (.running p) o (.running q)

omit [DecidableEq τ] in
/-- Only a receive gives up. -/
theorem receive_of_gaveUp {w w' : World} {b : Move τ} (h : (simpleQueue τ).step w b = some (.gaveUp t, w')) :
    ∃ now, b = .receive t now := by
  cases b with
  | publish c id body =>
    simp only [simpleQueue] at h
    split at h <;> cases h
  | receive c now =>
    simp only [simpleQueue] at h
    split at h <;> cases h
    exact ⟨now, rfl⟩
  | ack c messageId now =>
    simp only [simpleQueue] at h
    split at h <;> cases h
  | requeueExpired c readings =>
    simp only [simpleQueue] at h
    split at h
    · split at h <;> cases h
    · cases h

omit [DecidableEq τ] in
theorem popleft_ne_gaveUp {choice : Choice} {w w' : World} {q : Point} (h : popleft t choice w = some (o, w', q)) :
    ∀ u, o ≠ some (.did (.gaveUp u)) := by
  unfold popleft at h
  split at h
  · split at h <;> cases h <;> exact fun _ he => by cases he
  · cases h

/-- Every move of a thread, other than a call, is a turn. -/
theorem turn_of_steps (hs : Monitor.Steps (program τ) m a o m') (ha : a.thread = some t) (hcall : ∀ p, a ≠ .call t p) :
    m'.clock = m.clock ∧ Turn t m.clock (m.threads t) o (m'.threads t) := by
  have hne : ∀ {b : Move τ} {e : Event τ} {w w' : World}, (simpleQueue τ).step w b = some (e, w') →
      (∀ u now, b ≠ .receive u now) → ∀ u, some (Outcome.did e) ≠ some (.did (.gaveUp u)) := by
    rintro b e w w' hstep hb u he
    cases he
    obtain ⟨now, rfl⟩ := receive_of_gaveUp hstep
    exact hb u now rfl
  cases hs with
  | tick _ => cases ha
  | call _ _ _ =>
    cases ha
    exact absurd rfl (hcall _)
  | @acquire u p q e c hp hcode hc =>
    cases ha
    rw [hp, Monitor.threads_goto]
    refine ⟨rfl, ?_⟩
    cases p with
    | receive timeout =>
      cases hcode
      exact .receive
    | publish _ | ack _ | requeueExpired =>
      cases hcode
      exact .elsewhere trivial trivial fun _ he => by cases he
    | outside | append _ | notifyAll | predicate _ _ | loop _ _ | wait _ _ | popleft | giveUp | delete _ | requeue
    | leave => cases hcode
  | @act u p q e f o w' hp hcode hf =>
    cases ha
    rw [hp, Monitor.threads_goto]
    refine ⟨rfl, ?_⟩
    cases p with
    | append body =>
      cases hcode
      obtain ⟨_, _, hstep, rfl, rfl⟩ := append_eq_some hf
      exact .elsewhere trivial trivial (hne hstep fun _ _ hb => by cases hb)
    | predicate waittime endtime =>
      cases hcode
      cases hf
      split
      · exact .found
      · exact .empty
    | loop waittime endtime =>
      cases hcode
      cases hf
      exact .round
    | popleft =>
      cases hcode
      obtain ⟨rfl, -⟩ := popleft_eq_some hf
      exact .elsewhere trivial trivial (popleft_ne_gaveUp hf)
    | delete messageId =>
      cases hcode
      obtain ⟨_, _, hstep, rfl, rfl⟩ := delete_eq_some hf
      exact .elsewhere trivial trivial (hne hstep fun _ _ hb => by cases hb)
    | requeue =>
      cases hcode
      obtain ⟨_, _, hstep, rfl, rfl⟩ := requeue_eq_some hf
      exact .elsewhere trivial trivial (hne hstep fun _ _ hb => by cases hb)
    | outside | publish _ | notifyAll | receive _ | wait _ _ | giveUp | ack _ | requeueExpired | leave => cases hcode
  | @wait u p e timeout next c hp hcode hc =>
    cases ha
    rw [hp, Monitor.threads_goto]
    cases p <;> cases hcode
    exact ⟨rfl, .wait⟩
  | @notify u p q e hp hcode => cases p <;> cases hcode
  | @notifyAll u p q e hp hcode =>
    cases ha
    rw [hp, Monitor.threads_goto]
    cases p <;> cases hcode
    exact ⟨rfl, .elsewhere trivial trivial fun _ he => by cases he⟩
  | @release u p q e output c hp hcode hc =>
    cases ha
    rw [hp, Monitor.threads_goto]
    cases p <;> cases hcode
    · exact ⟨rfl, .giveUp⟩
    · exact ⟨rfl, .elsewhere trivial trivial fun _ he => by cases he⟩
  | @reacquire u p e deadline timeout next b c hp hcode hc =>
    cases ha
    rw [hp, Monitor.threads_goto]
    cases p <;> cases hcode
    exact ⟨rfl, .wake⟩
  | expire hp _ _ | rouse hp _ =>
    cases ha
    rw [hp, Monitor.threads_goto]
    exact ⟨rfl, .stir⟩

/-- A thread that gives up was about to. -/
theorem giveUp_of_steps (hs : Monitor.Steps (program τ) m a (some (.did (.gaveUp t))) m') :
    m.threads t = .running .giveUp := by
  cases ha : a.thread with
  | none =>
    cases a with
    | tick now => cases hs
    | call _ _ | run _ _ | expire _ | rouse _ => cases ha
  | some u =>
    have hcall : ∀ p, a ≠ .call u p := by
      rintro p rfl
      cases hs
    obtain ⟨-, hturn⟩ := turn_of_steps hs ha hcall
    generalize hth : m.threads u = th at hturn
    generalize m'.threads u = th' at hturn
    cases hturn with
    | giveUp => exact hth
    | elsewhere _ _ hne => exact absurd rfl (hne t)

/-- A thread that starts a wait was about to, and its `waittime` runs from now on. -/
theorem wait_of_steps {p p' : Point} {deadline : Option ℚ} (hs : Monitor.Steps (program τ) m a o m')
    (hcall : ∀ p, a ≠ .call t p) (hp : m.threads t = .running p) (hp' : m'.threads t = .waiting p' deadline) :
    ∃ waittime endtime, p = .wait waittime endtime ∧ deadline = waittime.map (m.clock + ·) := by
  have ha : a.thread = some t := by
    by_contra ha
    rw [hs.frame ha, hp] at hp'
    cases hp'
  obtain ⟨-, hturn⟩ := turn_of_steps hs ha hcall
  rw [hp, hp'] at hturn
  cases hturn with
  | wait => exact ⟨_, _, rfl, rfl⟩

/-! ## The end time -/

/-- The reading of the clock from which a thread that is about to wait has its `waittime`. -/
def reading : Thread Point → Option ℚ
  | .running (.wait (some waittime) (some endtime)) => some (endtime - waittime)
  | _ => none

/-- The clock does not get further than `slack` past the reading of a thread that is about to wait. -/
def Punctual (t : τ) (slack : ℚ) (m : Monitor τ Point World) : Sync.Move τ Point Choice → Prop
  | .tick now => ∀ r ∈ reading (m.threads t), now ≤ r + slack
  | _ => True

omit [DecidableEq τ] in
instance (t : τ) (slack : ℚ) (m : Monitor τ Point World) : DecidablePred (Punctual t slack m)
  | .tick now => inferInstanceAs (Decidable (∀ r ∈ reading (m.threads t), now ≤ r + slack))
  | .call _ _ | .run _ _ | .expire _ | .rouse _ => inferInstanceAs (Decidable True)

/-- A deadline of a wait: the end time or at most `slack` later, and none if there is no end time. -/
def OnTime (slack : ℚ) : Option ℚ → Option ℚ → Prop
  | none, none => True
  | some endtime, some deadline => endtime ≤ deadline ∧ deadline ≤ endtime + slack
  | _, _ => False

/-- If the step starts a wait of `t`, its deadline is on time; if `t` gives up in it, the end time has come. -/
def EndsBy (t : τ) (slack : ℚ) (endtime : Option ℚ) (m : Monitor τ Point World) (a : Sync.Move τ Point Choice) : Prop :=
  ∀ o m', (Monitor.machine (program τ)).step m a = some (o, m') →
    (∀ p p' deadline, m.threads t = .running p → m'.threads t = .waiting p' deadline → OnTime slack endtime deadline) ∧
    (o = some (.did (.gaveUp t)) → ∃ x ∈ endtime, x ≤ m.clock)

/-- A receive that has not set its end time. -/
def Begun (timeout : Option ℚ) : Thread Point → Prop
  | .running (.receive s) => s = timeout
  | .running (.predicate w e) | .running (.loop w e) => w = timeout ∧ e = none
  | _ => False

/-- A receive with its end time, or a thread that has come out of one. -/
def Until (slack : ℚ) (endtime : Option ℚ) (now : ℚ) : Thread Point → Prop
  | .running (.receive _) => False
  | .running (.predicate w e) | .running (.loop w e) | .waiting (.wait w e) _ => e = endtime ∧ w.isSome = endtime.isSome
  | .running (.wait w e) => e = endtime ∧ OnTime slack endtime (w.map (now + ·))
  | .running .giveUp => ∃ x ∈ endtime, x ≤ now
  | _ => True

theorem OnTime.isSome {w : Option ℚ} (h : OnTime slack endtime (w.map (now + ·))) : w.isSome = endtime.isSome := by
  cases w <;> cases endtime <;> first | rfl | exact h.elim

/-- The first round sets the end time. -/
theorem until_first_round (hslack : 0 ≤ slack) :
    Until slack (timeout.map (now + ·)) now (.running (waitForRound timeout none now)) := by
  cases timeout with
  | none => exact ⟨rfl, trivial⟩
  | some T => exact ⟨rfl, le_rfl, le_add_of_nonneg_right hslack⟩

/-- Every later round waits for what is left of the timeout, or gives up. -/
theorem until_round {w : Option ℚ} (hslack : 0 ≤ slack) (h : w.isSome = endtime.isSome) :
    Until slack endtime now (.running (waitForRound w endtime now)) := by
  cases endtime with
  | none =>
    cases w with
    | none => exact ⟨rfl, trivial⟩
    | some v => cases h
  | some x =>
    cases w with
    | none => cases h
    | some v =>
      simp only [waitForRound]
      split
      · next hle => exact ⟨x, rfl, by linarith⟩
      · refine ⟨rfl, ?_, ?_⟩ <;> linarith

theorem Until.elsewhere {p : Point} (h : Elsewhere p) : Until slack endtime now (.running p) := by
  cases p <;> first | exact trivial | exact h.elim

theorem Begun.not_elsewhere {p : Point} (h : Begun timeout (.running p)) : ¬Elsewhere p := by
  cases p with
  | receive _ | predicate _ _ | loop _ _ => exact fun hp => hp
  | outside | publish _ | append _ | notifyAll | wait _ _ | popleft | giveUp | ack _ | delete _ | requeueExpired
  | requeue | leave => exact h.elim

omit [DecidableEq τ] in
/-- Before the end time is set, a receive finds a message, or it sets the end time at this reading. -/
theorem begun_turn {th th' : Thread Point} (hslack : 0 ≤ slack) (h : Begun timeout th) (ht : Turn t now th o th') :
    Begun timeout th' ∨ Until slack (timeout.map (now + ·)) now th' := by
  cases ht with
  | receive => exact Or.inl ⟨h, rfl⟩
  | found => exact Or.inr trivial
  | empty => exact Or.inl h
  | round =>
    obtain ⟨rfl, rfl⟩ := h
    exact Or.inr (until_first_round hslack)
  | elsewhere hp _ _ => exact absurd hp h.not_elsewhere
  | wait | stir | wake | giveUp => exact h.elim

omit [DecidableEq τ] in
theorem until_turn {th th' : Thread Point} (hslack : 0 ≤ slack) (h : Until slack endtime now th)
    (ht : Turn t now th o th') : Until slack endtime now th' := by
  cases ht with
  | receive => exact h.elim
  | found | giveUp => exact trivial
  | empty | stir | wake => exact h
  | round =>
    obtain ⟨rfl, hw⟩ := h
    exact until_round hslack hw
  | wait => exact ⟨h.1, h.2.isSome⟩
  | elsewhere _ hq _ => exact .elsewhere hq

/-- Time passes. -/
theorem until_tick {th : Thread Point} {now' : ℚ} (h : Until slack endtime now th) (hle : now ≤ now')
    (hreading : ∀ r ∈ reading th, now' ≤ r + slack) : Until slack endtime now' th := by
  cases th with
  | waiting p deadline => cases p <;> exact h
  | running p =>
    cases p with
    | wait w e =>
      obtain ⟨rfl, hon⟩ := h
      refine ⟨rfl, ?_⟩
      cases w with
      | none => exact hon
      | some v =>
        cases e with
        | none => exact hon
        | some x =>
          have hr := hreading (x - v) rfl
          exact ⟨hon.1.trans (add_le_add_left hle v), by linarith⟩
    | giveUp =>
      obtain ⟨x, hx, hle'⟩ := h
      exact ⟨x, hx, hle'.trans hle⟩
    | outside | publish _ | append _ | notifyAll | receive _ | predicate _ _ | loop _ _ | popleft | ack _ | delete _
    | requeueExpired | requeue | leave => exact h

/-! ## Runs -/

/-- Between two moves of `t` only the clock matters to it. -/
theorem still_of_steps (hs : Monitor.Steps (program τ) m a o m') (ha : a.thread ≠ some t) :
    m'.threads t = m.threads t ∧ (m'.clock = m.clock ∨ a = .tick m'.clock ∧ m.clock ≤ m'.clock) := by
  refine ⟨hs.frame ha, ?_⟩
  cases hs with
  | tick hle => exact Or.inr ⟨rfl, hle⟩
  | call _ _ _ | acquire _ _ _ | act _ _ _ | wait _ _ _ | notify _ _ | notifyAll _ _ | release _ _ _
  | reacquire _ _ _ | expire _ _ _ | rouse _ _ => exact Or.inl rfl

theorem begun_step {began : ℚ} (hslack : 0 ≤ slack) (h : Begun timeout (m.threads t)) (hbegan : began ≤ m.clock)
    (hcall : ∀ p, a ≠ .call t p) (hs : Monitor.Steps (program τ) m a o m') :
    (Begun timeout (m'.threads t) ∧ began ≤ m'.clock) ∨
      ∃ now, began ≤ now ∧ Until slack (timeout.map (now + ·)) m'.clock (m'.threads t) := by
  by_cases ha : a.thread = some t
  · obtain ⟨hclock, hturn⟩ := turn_of_steps hs ha hcall
    rw [hclock]
    exact (begun_turn hslack h hturn).imp (fun h' => ⟨h', hbegan⟩) fun h' => ⟨m.clock, hbegan, h'⟩
  · rw [hs.frame ha]
    exact Or.inl ⟨h, hbegan.trans hs.clock_le⟩

theorem until_step (hslack : 0 ≤ slack) (h : Until slack endtime m.clock (m.threads t)) (hcall : ∀ p, a ≠ .call t p)
    (hpunctual : Punctual t slack m a) (hs : Monitor.Steps (program τ) m a o m') :
    Until slack endtime m'.clock (m'.threads t) := by
  by_cases ha : a.thread = some t
  · obtain ⟨hclock, hturn⟩ := turn_of_steps hs ha hcall
    rw [hclock]
    exact until_turn hslack h hturn
  · obtain ⟨hthread, hclock | ⟨rfl, hle⟩⟩ := still_of_steps hs ha <;> rw [hthread]
    · rw [hclock]
      exact h
    · exact until_tick h hle hpunctual

theorem endsBy_of_begun (h : Begun timeout (m.threads t)) (hcall : ∀ p, a ≠ .call t p) :
    EndsBy t slack endtime m a := by
  refine fun o m' hs => ⟨fun p p' deadline hp hp' => ?_, ?_⟩
  · obtain ⟨w, e, rfl, -⟩ := wait_of_steps (Monitor.step_steps hs) hcall hp hp'
    rw [hp] at h
    exact h.elim
  · rintro rfl
    rw [giveUp_of_steps (Monitor.step_steps hs)] at h
    exact h.elim

theorem endsBy_of_until (h : Until slack endtime m.clock (m.threads t)) (hcall : ∀ p, a ≠ .call t p) :
    EndsBy t slack endtime m a := by
  refine fun o m' hs => ⟨fun p p' deadline hp hp' => ?_, ?_⟩
  · obtain ⟨w, e, rfl, rfl⟩ := wait_of_steps (Monitor.step_steps hs) hcall hp hp'
    rw [hp] at h
    exact h.2
  · rintro rfl
    rw [giveUp_of_steps (Monitor.step_steps hs)] at h
    exact h

/-- **The timeout bounds a receive.** A `receive(timeout)` has one end time, `timeout` after a reading that it takes
when it has the lock. Each of its waits, however often it is woken, has this end time for its deadline, or at most
`slack` later if a wait begins that much after the reading before it; and it does not give up before. A receive without
a timeout waits without a deadline and does not give up. -/
theorem receive_ends_by (slack : ℚ) (hslack : 0 ≤ slack) (moves : List (Sync.Move τ Point Choice))
    (m m₁ : Monitor τ Point World) (t : τ) (timeout : Option ℚ) (o : Option (Outcome τ))
    (hcall : (Monitor.machine (program τ)).step m (.call t (.receive timeout)) = some (o, m₁))
    (hcalls : ∀ p, .call t p ∉ moves)
    (hpunctual : (Monitor.machine (program τ)).Along (Punctual t slack) m₁ moves) :
    ∃ now, m.clock ≤ now ∧
      (Monitor.machine (program τ)).Along (EndsBy t slack (timeout.map (now + ·))) m₁ moves := by
  have hone : (Monitor.machine (program τ)).Along (fun _ a => ∀ p, a ≠ .call t p) m₁ moves :=
    Machine.along_of_forall fun a ha _ p he => hcalls p (he ▸ ha)
  have hbegun : Begun timeout (m₁.threads t) ∧ m.clock ≤ m₁.clock := by
    cases Monitor.step_steps hcall with
    | call _ _ _ =>
      rw [Monitor.threads_goto]
      exact ⟨rfl, le_rfl⟩
  exact Machine.exists_along (P := fun s => Begun timeout (s.threads t) ∧ m.clock ≤ s.clock)
    (I := fun now s => Until slack (timeout.map (now + ·)) s.clock (s.threads t)) ⟨m.clock, le_rfl⟩
    (fun hP hQ hs => begun_step hslack hP.1 hP.2 hQ.1 (Monitor.step_steps hs))
    (fun hI hQ hs => until_step hslack hI hQ.1 hQ.2 (Monitor.step_steps hs))
    (fun hP hQ => endsBy_of_begun hP.1 hQ.1) (fun hI hQ => endsBy_of_until hI hQ.1) hbegun
    (Machine.along_and hone hpunctual)

/-- Thread 1 calls `receive(5)` at 0 and waits until 5. At 3 a message is published, which wakes it, and thread 2 takes
the message first. Thread 1 waits again, still until 5, and gives up then. -/
theorem receive_ends_by_example :
    let moves : List (Sync.Move Nat Point Choice) := List.replicate 4 (.run 1 .nothing) ++
      [.tick 3, .call 0 (.publish "a"), .run 0 .nothing, .run 0 (.uuid "1"), .run 0 .nothing, .run 0 .nothing,
        .call 2 (.receive none), .run 2 .nothing, .run 2 .nothing, .run 2 (.reading 3), .run 2 .nothing] ++
      List.replicate 4 (.run 1 .nothing) ++ [.tick 5, .expire 1] ++ List.replicate 4 (.run 1 .nothing)
    ∃ o m₁ os m₂ now, (Monitor.machine (program Nat)).step (start Nat 5) (.call 1 (.receive (some 5))) = some (o, m₁) ∧
      (Monitor.machine (program Nat)).run m₁ moves = some (os, m₂) ∧ os.getLast? = some (some (.did (.gaveUp 1))) ∧
      (Monitor.machine (program Nat)).Along (EndsBy 1 0 (some (now + 5))) m₁ moves := by
  intro moves
  have hrun : (((Monitor.machine (program Nat)).step (start Nat 5) (.call 1 (.receive (some 5)))).bind fun r =>
      ((Monitor.machine (program Nat)).run r.2 moves).map fun p =>
        decide (p.1.getLast? = some (some (.did (.gaveUp 1))) ∧
          (Monitor.machine (program Nat)).Along (Punctual 1 0) r.2 moves)) = some true := by decide +kernel
  obtain ⟨⟨o, m₁⟩, hcall, hrun⟩ := Option.bind_eq_some_iff.mp hrun
  obtain ⟨⟨os, m₂⟩, hrun', hdec⟩ := Option.map_eq_some_iff.mp hrun
  obtain ⟨hlast, hpunctual⟩ := of_decide_eq_true hdec
  obtain ⟨now, -, hends⟩ := receive_ends_by 0 le_rfl moves _ m₁ 1 (some 5) o hcall
    (fun p hp => by simp [moves] at hp) hpunctual
  exact ⟨o, m₁, os, m₂, now, hcall, hrun', hlast, hends⟩

end TheGrind.MessageQueue
