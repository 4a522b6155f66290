import TheGrind.Sync.Monitor
import TheGrind.MessageQueue.Visibility

/-!
# The SimpleQueue as a monitor

The methods of `SimpleQueue` step by step: taking the lock, `Condition.wait_for` with its predicate, loop and waits,
`notify_all`, and the return (`code`). Threads barge, time out and wake spuriously at will.

* `outline` : the queue is empty or nobody sleeps, except while the lock is held by a thread that is about to notify;
* `no_lost_wakeup` : what follows for a free lock, for a receive that returns `None`, and for `popleft`;
* `monitor_refines` : the critical sections that ran make a run of `simpleQueue`, so what holds of its runs holds here.
-/

namespace TheGrind.MessageQueue
open TheGrind.Data TheGrind.Transition TheGrind.Sync

/-- The points of the methods. -/
inductive Point where
  | outside
  | publish (body : String)
  | append (body : String)
  | notifyAll
  | receive (timeout : Option ℚ)
  | predicate (waittime endtime : Option ℚ)
  | loop (waittime endtime : Option ℚ)
  | wait (waittime endtime : Option ℚ)
  | popleft
  | giveUp
  | ack (messageId : String)
  | delete (messageId : String)
  | requeueExpired
  | requeue
  | leave
  deriving DecidableEq

/-- What a critical section draws: a uuid, a clock reading, or one for each entry. -/
inductive Choice where
  | nothing
  | uuid (id : String)
  | reading (now : ℚ)
  | readings (readings : List ℚ)

inductive Outcome (τ : Type) where
  | did (event : Event τ)
  | indexError (thread : τ)
  deriving DecidableEq

variable {τ : Type}

/-- One round of the loop of `wait_for`: it gives up when nothing is left of the timeout. -/
def waitForRound (waittime endtime : Option ℚ) (now : ℚ) : Point :=
  match waittime, endtime with
  | none, _ => .wait none endtime
  | some waittime, none => .wait (some waittime) (some (now + waittime))
  | some _, some endtime =>
    let waittime := endtime - now
    if waittime ≤ 0 then .giveUp else .wait (some waittime) (some endtime)

/-- What the body of a critical section leads to. -/
abbrev Body (τ : Type) := Option (Option (Outcome τ) × World × Point)

/-- The message is made and appended. -/
def append (body : String) (t : τ) : Choice → World → Body τ
  | .uuid id, w => ((simpleQueue τ).step w (.publish t id body)).map fun r => (some (.did r.1), r.2, .notifyAll)
  | _, _ => none

/-- `message = self.queue.popleft()` and the entry in `in_flight`. -/
def popleft (t : τ) : Choice → World → Body τ
  | .reading now, w =>
    match w.q.receive now with
    | none => some (some (.indexError t), w, .leave)
    | some (message, q) => some (some (.did (.received t message now)), ⟨q, w.issued⟩, .leave)
  | _, _ => none

/-- `del self.in_flight[message_id]` -/
def delete (messageId : String) (t : τ) : Choice → World → Body τ
  | .reading now, w => ((simpleQueue τ).step w (.ack t messageId now)).map fun r => (some (.did r.1), r.2, .leave)
  | _, _ => none

/-- An exception leaves `requeue_expired` before `notify_all`. -/
def afterRequeue : Event τ → Point
  | .raised _ _ _ => .leave
  | _ => .notifyAll

/-- Both passes of `requeue_expired`. -/
def requeue (t : τ) : Choice → World → Body τ
  | .readings readings, w =>
    ((simpleQueue τ).step w (.requeueExpired t readings)).map fun r => (some (.did r.1), r.2, afterRequeue r.1)
  | _, _ => none

def code : Point → Instr τ Point World Choice (Outcome τ)
  | .outside => .idle
  | .publish body => .acquire (.append body)
  | .append body => .act fun t _ choice w => append body t choice w
  | .notifyAll => .notifyAll .leave
  | .receive timeout => .acquire (.predicate timeout none)
  | .predicate waittime endtime => .act fun _ _ _ w =>
    some (none, w, if w.q.queue.length > 0 then .popleft else .loop waittime endtime)
  | .loop waittime endtime => .act fun _ now _ w => some (none, w, waitForRound waittime endtime now)
  | .wait waittime endtime => .wait waittime fun _ => .predicate waittime endtime
  | .popleft => .act fun t _ choice w => popleft t choice w
  | .giveUp => .release (fun t => some (.did (.gaveUp t))) .outside
  | .ack messageId => .acquire (.delete messageId)
  | .delete messageId => .act fun t _ choice w => delete messageId t choice w
  | .requeueExpired => .acquire .requeue
  | .requeue => .act fun t _ choice w => requeue t choice w
  | .leave => .release (fun _ => none) .outside

/-- A call enters at the beginning of a method. -/
def entry : Point → Bool
  | .publish _ | .receive _ | .ack _ | .requeueExpired => true
  | _ => false

theorem waitForRound_cases (waittime endtime : Option ℚ) (now : ℚ) :
    waitForRound waittime endtime now = .giveUp ∨ ∃ w e, waitForRound waittime endtime now = .wait w e := by
  unfold waitForRound
  split
  · exact Or.inr ⟨_, _, rfl⟩
  · exact Or.inr ⟨_, _, rfl⟩
  · simp only
    split
    · exact Or.inl rfl
    · exact Or.inr ⟨_, _, rfl⟩

section Bodies
variable {t : τ} {choice : Choice} {w w' : World} {o : Option (Outcome τ)} {q : Point} {body id : String}

theorem append_eq_some (h : append body t choice w = some (o, w', q)) :
    ∃ id e, (simpleQueue τ).step w (.publish t id body) = some (e, w') ∧ o = some (.did e) ∧ q = .notifyAll := by
  unfold append at h
  split at h
  · obtain ⟨⟨e, w'⟩, hs, h⟩ := Option.map_eq_some_iff.mp h
    cases h
    exact ⟨_, e, hs, rfl, rfl⟩
  · cases h

theorem popleft_eq_some (h : popleft t choice w = some (o, w', q)) : q = .leave ∧
    ((∃ now e, (simpleQueue τ).step w (.receive t now) = some (e, w') ∧ o = some (.did e)) ∨
      w.q.queue = [] ∧ w' = w ∧ o = some (.indexError t)) := by
  unfold popleft at h
  split at h
  · next now =>
    split at h
    · next hr =>
      cases h
      exact ⟨rfl, Or.inr ⟨SimpleQueue.receive_eq_none_iff.mp hr, rfl, rfl⟩⟩
    · next message q hr =>
      cases h
      refine ⟨rfl, Or.inl ⟨now, _, ?_, rfl⟩⟩
      simp only [simpleQueue, hr]
  · cases h

theorem delete_eq_some (h : delete id t choice w = some (o, w', q)) :
    ∃ now e, (simpleQueue τ).step w (.ack t id now) = some (e, w') ∧ o = some (.did e) ∧ q = .leave := by
  unfold delete at h
  split at h
  · obtain ⟨⟨e, w'⟩, hs, h⟩ := Option.map_eq_some_iff.mp h
    cases h
    exact ⟨_, e, hs, rfl, rfl⟩
  · cases h

/-- `requeue_expired` raises nothing, so it gets to its `notify_all`. -/
theorem requeue_eq_some (h : requeue t choice w = some (o, w', q)) :
    ∃ rs e, (simpleQueue τ).step w (.requeueExpired t rs) = some (e, w') ∧ o = some (.did e) ∧ q = .notifyAll := by
  unfold requeue at h
  split at h
  · next rs =>
    obtain ⟨⟨e, w'⟩, hs, h⟩ := Option.map_eq_some_iff.mp h
    cases h
    refine ⟨rs, e, hs, rfl, ?_⟩
    simp only [simpleQueue] at hs
    split at hs
    · next hlen =>
      obtain ⟨d, hd, -⟩ := SimpleQueue.requeueExpired_eq hlen
      rw [hd] at hs
      cases hs
      rfl
    · cases hs
  · cases h

/-- An ack does not touch the queue. -/
theorem queue_ack {now : ℚ} {e : Event τ} (h : (simpleQueue τ).step w (.ack t id now) = some (e, w')) :
    w'.q.queue = w.q.queue := by
  by_cases hid : id ∈ w.q.inFlight.keys
  · rw [step_ack_of_mem hid] at h
    cases h
    rfl
  · rw [step_ack_of_not_mem hid] at h
    cases h
    rfl

end Bodies

/-- The methods, as a program of the monitor. -/
def program (τ : Type) : Program τ Point World Choice (Outcome τ) where
  code := code
  entry _ _ p := entry p
  flows p := by
    cases p with
    | append body =>
      intro t now choice w o w' q h
      obtain ⟨_, _, _, _, rfl⟩ := append_eq_some h
      exact trivial
    | predicate waittime endtime =>
      intro t now choice w o w' q h
      cases h
      split <;> exact trivial
    | loop waittime endtime =>
      intro t now choice w o w' q h
      cases h
      rcases waitForRound_cases waittime endtime now with hr | ⟨w, e, hr⟩ <;> rw [hr] <;> exact trivial
    | wait waittime endtime => exact fun _ => trivial
    | popleft =>
      intro t now choice w o w' q h
      obtain ⟨rfl, -⟩ := popleft_eq_some h
      exact trivial
    | delete messageId =>
      intro t now choice w o w' q h
      obtain ⟨_, _, _, _, rfl⟩ := delete_eq_some h
      exact trivial
    | requeue =>
      intro t now choice w o w' q h
      obtain ⟨_, _, _, _, rfl⟩ := requeue_eq_some h
      exact trivial
    | giveUp | leave => exact fun h => h
    | outside | publish _ | notifyAll | receive _ | ack _ | requeueExpired => exact trivial
  entry_flows t w p h := by
    cases p <;> first | exact fun hl => hl | cases h

/-! ## No lost wakeup -/

/-- Nobody sleeps beside a message. -/
def Quiescent (w : World) (c : Condition τ) : Prop := w.q.queue = [] ∨ ∀ u, ¬c.Asleep u

/-- The queue is empty or nobody sleeps, unless the owner is about to notify. -/
def outline : Outline τ Point World where
  free := Quiescent
  held _ p w c :=
    match p with
    | .notifyAll => True
    | .loop _ _ | .wait _ _ | .giveUp => w.q.queue = []
    | .popleft => w.q.queue ≠ [] ∧ Quiescent w c
    | _ => Quiescent w c
  off _ _ _ := True

theorem Quiescent.quiet {w : World} {c c' : Condition τ} (h : Quiescent w c) (hc : ∀ u, c'.Asleep u → c.Asleep u) :
    Quiescent w c' := h.imp_right fun hu u hc' => hu u (hc u hc')

variable [DecidableEq τ]

theorem outline_sound : (outline (τ := τ)).Sound (program τ) fun _ => True where
  free_quiet w c c' h hq := h.quiet hq.asleep
  held_quiet t p w c c' h hq := by
    cases p with
    | notifyAll => exact trivial
    | loop _ _ | wait _ _ | giveUp => exact h
    | popleft => exact ⟨h.1, h.2.quiet hq.asleep⟩
    | outside | publish _ | append _ | receive _ | predicate _ _ | ack _ | delete _ | requeueExpired | requeue | leave =>
      exact Quiescent.quiet h hq.asleep
  entry _ _ _ _ := trivial
  steps p := by
    cases p with
    | outside => exact trivial
    | publish _ | receive _ | ack _ | requeueExpired => exact fun _ _ _ hfree _ => hfree
    | append body =>
      intro t now choice w c o w' q _ h
      obtain ⟨_, _, _, _, rfl⟩ := append_eq_some h
      exact ⟨trivial, fun _ _ _ _ => trivial⟩
    | notifyAll => exact fun _ _ _ _ => Or.inr fun _ => Condition.not_asleep_notifyAll
    | predicate waittime endtime =>
      intro t now choice w c o w' q hheld h
      cases h
      refine ⟨?_, fun _ _ _ _ => trivial⟩
      split
      · next hlen => exact ⟨List.length_pos_iff.mp hlen, hheld⟩
      · next hlen => exact List.eq_nil_of_length_eq_zero (by omega)
    | loop waittime endtime =>
      intro t now choice w c o w' q hheld h
      cases h
      refine ⟨?_, fun _ _ _ _ => trivial⟩
      rcases waitForRound_cases waittime endtime now with hr | ⟨w, e, hr⟩ <;> rw [hr] <;> exact hheld
    | wait waittime endtime =>
      refine ⟨fun t w c c' hheld _ => ⟨Or.inl hheld, trivial⟩, fun t w c c' b hfree _ hc => ?_⟩
      obtain ⟨-, -, hasleep, -⟩ := Condition.reacquire_eq_some hc
      exact Quiescent.quiet hfree hasleep
    | popleft =>
      intro t now choice w c o w' q hheld h
      obtain ⟨rfl, -⟩ := popleft_eq_some h
      exact ⟨Or.inr (hheld.2.resolve_left hheld.1), fun _ _ _ _ => trivial⟩
    | giveUp => exact fun t w c hheld => ⟨Or.inl hheld, trivial⟩
    | delete messageId =>
      intro t now choice w c o w' q hheld h
      obtain ⟨now, e, hs, -, rfl⟩ := delete_eq_some h
      refine ⟨?_, fun _ _ _ _ => trivial⟩
      show w'.q.queue = [] ∨ _
      rw [queue_ack hs]
      exact hheld
    | requeue =>
      intro t now choice w c o w' q _ h
      obtain ⟨_, _, _, _, rfl⟩ := requeue_eq_some h
      exact ⟨trivial, fun _ _ _ _ => trivial⟩
    | leave => exact fun t w c hheld => ⟨hheld, trivial⟩

/-- A queue with all threads outside. -/
def start (τ : Type) [DecidableEq τ] (visibilityTimeout : ℚ) : Monitor τ Point World :=
  .init (.init visibilityTimeout) .outside

theorem start_holds (visibilityTimeout : ℚ) : outline.Holds (program τ) (start τ visibilityTimeout) where
  placed := Monitor.placed_init fun h => h
  free _ := Or.inl rfl
  knows _ := ⟨fun h => absurd h (fun h => h), fun _ => trivial⟩

variable {m m' : Monitor τ Point World} {a : Sync.Move τ Point Choice} {o : Option (Outcome τ)} {vt : ℚ}

/-- A step leaves the data alone, or it is the critical section of a call. -/
theorem effect (h : outline.Holds (program τ) m) (hs : Monitor.Steps (program τ) m a o m') :
    (o = none ∧ m'.data = m.data) ∨
      ∃ b e, o = some (.did e) ∧ (simpleQueue τ).step m.data b = some (e, m'.data) := by
  cases hs with
  | tick _ | call _ _ _ | acquire _ _ _ | wait _ _ _ | notify _ _ | notifyAll _ _ | reacquire _ _ _ | expire _ _ _
  | rouse _ _ => exact Or.inl ⟨rfl, rfl⟩
  | @act t p q e f o w' hp hcode hf =>
    cases p with
    | append body =>
      cases hcode
      obtain ⟨_, _, hs, rfl, -⟩ := append_eq_some hf
      exact Or.inr ⟨_, _, rfl, hs⟩
    | predicate _ _ | loop _ _ =>
      cases hcode
      cases hf
      exact Or.inl ⟨rfl, rfl⟩
    | popleft =>
      have hheld := (h.held_of_threads hp trivial).2
      cases hcode
      obtain ⟨-, ⟨_, _, hs, rfl⟩ | ⟨hnil, -⟩⟩ := popleft_eq_some hf
      · exact Or.inr ⟨_, _, rfl, hs⟩
      · exact absurd hnil hheld.1
    | delete messageId =>
      cases hcode
      obtain ⟨_, _, hs, rfl, -⟩ := delete_eq_some hf
      exact Or.inr ⟨_, _, rfl, hs⟩
    | requeue =>
      cases hcode
      obtain ⟨_, _, hs, rfl, -⟩ := requeue_eq_some hf
      exact Or.inr ⟨_, _, rfl, hs⟩
    | outside | publish _ | notifyAll | receive _ | wait _ _ | giveUp | ack _ | requeueExpired | leave => cases hcode
  | @release t p q e output c hp hcode hc =>
    cases p with
    | giveUp =>
      have hnil : m.data.q.queue = [] := (h.held_of_threads hp trivial).2
      cases hcode
      refine Or.inr ⟨.receive t 0, _, rfl, ?_⟩
      simp only [simpleQueue, SimpleQueue.receive_eq_none_iff.mpr hnil]
      rfl
    | leave =>
      cases hcode
      exact Or.inl ⟨rfl, rfl⟩
    | outside | publish _ | append _ | notifyAll | receive _ | predicate _ _ | loop _ _ | wait _ _ | popleft | ack _
    | delete _ | requeueExpired | requeue => cases hcode

theorem holds_run {moves : List (Sync.Move τ Point Choice)} {os : List (Option (Outcome τ))}
    (h : (Monitor.machine (program τ)).run (start τ vt) moves = some (os, m)) : outline.Holds (program τ) m :=
  outline_sound.run_true (start_holds vt) h

/-- **No lost wakeup, no false timeout.** In every reachable state: when the lock is free and the queue is not empty, no
receiver sleeps un-notified; a receive that returns `None` does so while the queue is empty; `popleft` raises no
`IndexError`. -/
theorem no_lost_wakeup (vt : ℚ) (moves : List (Sync.Move τ Point Choice)) (os : List (Option (Outcome τ)))
    (m : Monitor τ Point World) (h : (Monitor.machine (program τ)).run (start τ vt) moves = some (os, m)) :
    (m.cond.owner = none → m.data.q.queue ≠ [] → ∀ t, ¬m.cond.Asleep t) ∧
    (∀ a t m', (Monitor.machine (program τ)).step m a = some (some (.did (.gaveUp t)), m') →
      m.data.q.queue = [] ∧ m'.data.q.queue = []) ∧
    (∀ a t m', (Monitor.machine (program τ)).step m a ≠ some (some (.indexError t), m')) := by
  have hholds := holds_run h
  refine ⟨fun ho hne => (hholds.free ho).resolve_left hne, fun a t m' hs => ?_, fun a t m' hs => ?_⟩
  · rcases effect hholds (Monitor.step_steps hs) with ⟨ho, -⟩ | ⟨b, e, ho, hstep⟩
    · cases ho
    · cases ho
      generalize hw : m'.data = w' at hstep
      cases step_steps hstep with
      | gaveUp hnil => exact ⟨hnil, hnil⟩
  · rcases effect hholds (Monitor.step_steps hs) with ⟨ho, -⟩ | ⟨b, e, ho, -⟩ <;> cases ho

/-- A receiver sleeps, a message is published, and the lock is free with the receiver awake. -/
theorem no_lost_wakeup_example :
    ∃ m, (Monitor.machine (program Nat)).run (start Nat 5) [.call 0 (.receive none), .run 0 .nothing, .run 0 .nothing,
        .run 0 .nothing, .run 0 .nothing, .call 1 (.publish "a"), .run 1 .nothing, .run 1 (.uuid "1"), .run 1 .nothing,
        .run 1 .nothing] = some ([none, none, none, none, none, none, none, some (.did (.published 1 ⟨"1", "a"⟩)), none,
        none], m) ∧ (m.cond.owner = none → m.data.q.queue ≠ [] → ∀ t, ¬m.cond.Asleep t) := by
  obtain ⟨m, h⟩ := Machine.exists_run (Monitor.machine (program Nat)) (s := start Nat 5)
    (show ((Monitor.machine (program Nat)).run (start Nat 5) [.call 0 (.receive none), .run 0 .nothing,
      .run 0 .nothing, .run 0 .nothing, .run 0 .nothing, .call 1 (.publish "a"), .run 1 .nothing, .run 1 (.uuid "1"),
      .run 1 .nothing, .run 1 .nothing]).map Prod.fst = some [none, none, none, none, none, none, none,
      some (.did (.published 1 ⟨"1", "a"⟩)), none, none] by decide +kernel)
  exact ⟨m, h, (no_lost_wakeup 5 _ _ m h).1⟩

/-! ## The critical sections, one after the other -/

/-- The calls whose critical sections ran, with what they did. -/
def events (os : List (Option (Outcome τ))) : List (Event τ) :=
  os.flatMap fun
    | some (.did e) => [e]
    | _ => []

/-- **The monitor refines the atomic queue.** The critical sections that ran are a run of `simpleQueue`. -/
theorem monitor_refines {moves : List (Sync.Move τ Point Choice)} {os : List (Option (Outcome τ))}
    (h : (Monitor.machine (program τ)).run (start τ vt) moves = some (os, m)) :
    ∃ bs, (simpleQueue τ).run (World.init vt) bs = some (events os, m.data) := by
  have hsim := Machine.run_simulates (M := Monitor.machine (program τ)) (N := simpleQueue τ)
    (R := fun m w => outline.Holds (program τ) m ∧ w = m.data)
    (f := fun | some (.did e) => [e] | _ => []) ?_ ⟨start_holds vt, rfl⟩ h
  · obtain ⟨bs, w, hrun, -, rfl⟩ := hsim
    exact ⟨bs, hrun⟩
  · rintro m₁ w a o m₂ ⟨hholds, rfl⟩ hs
    have hst := Monitor.step_steps hs
    have hholds' := hholds.steps outline_sound Outline.notifiesIf_true hst
    rcases effect hholds hst with ⟨rfl, hdata⟩ | ⟨b, e, rfl, hstep⟩
    · exact ⟨[], m₁.data, rfl, hholds', hdata.symm⟩
    · exact ⟨[b], m₂.data, (Machine.run_singleton_iff _).mpr ⟨e, hstep, rfl⟩, hholds', rfl⟩

/-- Messages are conserved, and deliveries of a message apart, at the granularity of the lock. -/
theorem monitor_conserved {moves : List (Sync.Move τ Point Choice)} {os : List (Option (Outcome τ))}
    (h : (Monitor.machine (program τ)).run (start τ vt) moves = some (os, m)) :
    Conserved (events os) m.data ∧ (Clocked (events os) → Dated vt (events os) m.data) := by
  obtain ⟨bs, hrun⟩ := monitor_refines h
  exact conserved_dated_run hrun

end TheGrind.MessageQueue
