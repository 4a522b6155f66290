import Mathlib.Data.Fintype.EquivFin
import TheGrind.Sync.Progress
import TheGrind.MessageQueue.Monitor
import TheGrind.MessageQueue.Redelivery

/-!
# Progress of the SimpleQueue

* `no_deadlock` : when no thread can go on, the calls that have not returned are receives asleep on an empty queue;
* `recovery` : whatever the consumers did, one call of `requeue_expired` after the visibility timeout and one consumer
  that acknowledges what it receives get every message acknowledged.
-/

namespace TheGrind.MessageQueue
open TheGrind.Data TheGrind.Transition TheGrind.Sync

variable {τ : Type} {vt : ℚ}

/-! ## Deadlocks -/

instance : Nonempty Choice := ⟨.nothing⟩

/-- Every critical section can run: there is a uuid that was not drawn, and a reading for each entry. -/
theorem able (τ : Type) : (program τ).Able := by
  intro p f hcode t now w
  cases p with
  | append body =>
    cases hcode
    obtain ⟨id, hid⟩ := Infinite.exists_notMem_finset w.issued.toFinset
    have hid' : id ∉ w.issued := fun hmem => hid (List.mem_toFinset.mpr hmem)
    refine ⟨.uuid id, ?_⟩
    simp only [append, simpleQueue, if_neg hid']
    exact ⟨_, rfl⟩
  | predicate _ _ | loop _ _ =>
    cases hcode
    exact ⟨.nothing, _, rfl⟩
  | popleft =>
    cases hcode
    refine ⟨.reading now, ?_⟩
    simp only [popleft]
    split
    · exact ⟨_, rfl⟩
    · exact ⟨_, rfl⟩
  | delete id =>
    cases hcode
    refine ⟨.reading now, ?_⟩
    by_cases hid : id ∈ w.q.inFlight.keys
    · simp only [delete, step_ack_of_mem hid]
      exact ⟨_, rfl⟩
    · simp only [delete, step_ack_of_not_mem hid]
      exact ⟨_, rfl⟩
  | requeue =>
    cases hcode
    have hlen : (w.q.readingsAt now).length = w.q.inFlight.entries.length := List.length_replicate
    obtain ⟨d, hd, -⟩ := SimpleQueue.requeueExpired_eq hlen
    refine ⟨.readings (w.q.readingsAt now), ?_⟩
    simp only [requeue, simpleQueue, if_pos hlen, hd]
    exact ⟨_, rfl⟩
  | outside | publish _ | notifyAll | receive _ | wait _ _ | giveUp | ack _ | requeueExpired | leave => cases hcode

theorem code_idle_iff (p : Point) : code (τ := τ) p = .idle ↔ p = .outside := by
  cases p with
  | outside => exact ⟨fun _ => rfl, fun _ => rfl⟩
  | publish _ | append _ | notifyAll | receive _ | predicate _ _ | loop _ _ | wait _ _ | popleft | giveUp | ack _
  | delete _ | requeueExpired | requeue | leave => exact ⟨fun hi => (nomatch hi), fun he => (nomatch he)⟩

section Deadlock
variable [DecidableEq τ]

/-- **No deadlock.** In every reachable state in which no thread can go on, the lock is free, and a thread is in no call
or asleep in the wait of a receive. If there is a message in the queue, no thread is in a call. -/
theorem no_deadlock (vt : ℚ) (moves : List (Sync.Move τ Point Choice)) (os : List (Option (Outcome τ)))
    (m : Monitor τ Point World) (h : (Monitor.machine (program τ)).run (start τ vt) moves = some (os, m))
    (hstuck : Monitor.Stuck (program τ) m) :
    m.cond.owner = none ∧
    (∀ t, m.threads t = .running .outside ∨ m.cond.Asleep t ∧
      ∃ waittime endtime deadline, m.threads t = .waiting (.wait waittime endtime) deadline) ∧
    (m.data.q.queue ≠ [] → ∀ t, m.threads t = .running .outside) := by
  have hsettled : Monitor.Settled (program τ) m :=
    (Monitor.settled_init (P := program τ) (p := .outside) fun hl => hl).run h
  obtain ⟨hfree, hall⟩ := (hsettled.stuck_iff (able τ)).mp hstuck
  have hquiescent : Quiescent m.data m.cond := (holds_run h).free hfree
  refine ⟨hfree, fun t => ?_, fun hne t => ?_⟩
  · refine (hall t).imp (Monitor.idle_iff code_idle_iff).mp fun ha => ⟨ha, ?_⟩
    cases hp : m.threads t with
    | running p => exact absurd ha.1 (hsettled.outside t p hp).1
    | waiting p deadline =>
      obtain ⟨timeout, next, hcode⟩ := hsettled.waits t p deadline hp
      cases p <;> cases hcode
      exact ⟨_, _, _, rfl⟩
  · exact (Monitor.idle_iff code_idle_iff).mp ((hall t).resolve_right (hquiescent.resolve_left hne t))

/-- The only thread sleeps in a receive. -/
def sleeping : List (Sync.Move Unit Point Choice) :=
  .call () (.receive none) :: List.replicate 4 (.run () .nothing)

theorem no_deadlock_example :
    ∃ os m, (Monitor.machine (program Unit)).run (start Unit 5) sleeping = some (os, m) ∧
      Monitor.Stuck (program Unit) m ∧ m.cond.owner = none ∧ m.cond.Asleep () ∧
      ∃ waittime endtime deadline, m.threads () = .waiting (.wait waittime endtime) deadline := by
  have hrun : ((Monitor.machine (program Unit)).run (start Unit 5) sleeping).map (fun r =>
      decide (r.2.cond.owner = none ∧ r.2.cond.Asleep ())) = some true := by decide +kernel
  obtain ⟨⟨os, m⟩, h, hm⟩ := Option.map_eq_some_iff.mp hrun
  obtain ⟨hfree, hasleep⟩ := of_decide_eq_true hm
  have hsettled : Monitor.Settled (program Unit) m :=
    (Monitor.settled_init (P := program Unit) (p := .outside) fun hl => hl).run h
  have hstuck := (hsettled.stuck_iff (able Unit)).mpr ⟨hfree, fun _ => Or.inr hasleep⟩
  obtain ⟨hfree', hthreads, -⟩ := no_deadlock 5 sleeping os m h hstuck
  refine ⟨os, m, h, hstuck, hfree', (hthreads ()).resolve_left fun hp => ?_⟩
  exact (hsettled.outside () .outside hp).1 hasleep.1

end Deadlock

/-! ## Recovery -/

section Recovery
variable {w w' : World}

/-- A consumer that receives some messages and acknowledges each of them at once. -/
def consume (c : τ) (now : ℚ) (ms : List Message) : List (Move τ) :=
  ms.flatMap fun m => [.receive c now, .ack c m.id now]

def consumed (c : τ) (now : ℚ) (ms : List Message) : List (Event τ) :=
  ms.flatMap fun m => [.received c m now, .acked c m.id now]

/-- A message that is received and acknowledged leaves the queue, and nothing else changes. -/
theorem consume_one (c : τ) (now : ℚ) {m : Message} {rest : List Message} (hq : w.q.queue = m :: rest)
    (hm : m.id ∉ w.q.inFlight.keys) :
    (simpleQueue τ).run w [.receive c now, .ack c m.id now] =
      some ([.received c m now, .acked c m.id now], ⟨{ w.q with queue := rest }, w.issued⟩) := by
  have hreceive : w.q.receive now =
      some (m, { w.q with queue := rest, inFlight := w.q.inFlight.set m.id (m, now) }) :=
    SimpleQueue.receive_eq_some_iff.mpr ⟨rest, hq, rfl⟩
  have hkey : m.id ∈ (w.q.inFlight.set m.id (m, now)).keys := by
    rw [Dict.keys_set_of_not_mem hm]
    exact List.mem_append_right _ List.mem_cons_self
  have hs : (simpleQueue τ).step w (.receive c now) = some (.received c m now,
      ⟨{ w.q with queue := rest, inFlight := w.q.inFlight.set m.id (m, now) }, w.issued⟩) := by
    simp only [simpleQueue, hreceive]
  have hs' : (simpleQueue τ).step
      ⟨{ w.q with queue := rest, inFlight := w.q.inFlight.set m.id (m, now) }, w.issued⟩ (.ack c m.id now) =
        some (.acked c m.id now, ⟨{ w.q with queue := rest }, w.issued⟩) := by
    rw [step_ack_of_mem hkey]
    simp only [Dict.erase_set_of_not_mem hm]
  exact (Machine.run_cons_iff _).mpr ⟨_, _, _, hs, (Machine.run_singleton_iff _).mpr ⟨_, hs', rfl⟩, rfl⟩

theorem consume_run (c : τ) (now : ℚ) : ∀ {ms : List Message} {w : World}, w.q.queue = ms →
    (∀ m ∈ ms, m.id ∉ w.q.inFlight.keys) → (simpleQueue τ).run w (consume c now ms) =
      some (consumed c now ms, ⟨{ w.q with queue := [] }, w.issued⟩) := by
  intro ms
  induction ms with
  | nil =>
    intro w hq _
    obtain ⟨⟨queue, inFlight, visibilityTimeout⟩, issued⟩ := w
    cases hq
    rfl
  | cons m ms ih =>
    intro w hq hm
    have hone := consume_one c now hq (hm m List.mem_cons_self)
    have hrest := ih (w := ⟨{ w.q with queue := ms }, w.issued⟩) rfl fun m' hm' => hm m' (List.mem_cons_of_mem _ hm')
    exact (Machine.run_append_iff _).mpr ⟨_, _, _, hone, hrest, rfl⟩

/-- **Recovery.** From every reachable state, once the visibility timeout of every message in flight is over: one call
of `requeue_expired` and one consumer that acknowledges what it receives leave every published message acknowledged
once, and the queue and `in_flight` empty. The consumer receives each outstanding message once, those that were in
flight first, the one handed out last at the head. -/
theorem recovery (vt : ℚ) (moves : List (Move τ)) (os : List (Event τ)) (w : World) (c : τ) (now : ℚ)
    (h : (simpleQueue τ).run (World.init vt) moves = some (os, w))
    (hdue : ∀ e ∈ w.q.inFlight.entries, vt < now - e.2.2) :
    ∃ ms w', ms = ((handedOut os).filter (·.id ∈ w.q.inFlight.keys)).reverse ++ w.q.queue ∧
      (simpleQueue τ).run w (.requeueExpired c (w.q.readingsAt now) :: consume c now ms) =
        some (.requeued c (w.q.readingsAt now) :: consumed c now ms, w') ∧
      w'.q.queue = [] ∧ w'.q.inFlight = .empty ∧
      (acked (os ++ .requeued c (w.q.readingsAt now) :: consumed c now ms)).Perm ((published os).map Message.id) := by
  obtain ⟨hc, horder⟩ := inOrder_run h
  have hexpired : w.q.expired (w.q.readingsAt now) = w.q.inFlight.entries := by
    rw [expired_readingsAt, timeout_run h]
    exact List.filter_eq_self.mpr fun e he => decide_eq_true (hdue e he)
  have hlen : (w.q.readingsAt now).length = w.q.inFlight.entries.length := List.length_replicate
  obtain ⟨d, hd, he⟩ := SimpleQueue.requeueExpired_eq hlen
  rw [hexpired] at hd he
  have hd' : d = .empty := by
    have hnil : d.entries = [] := by
      rw [he]
      exact List.filter_eq_nil_iff.mpr fun e hmem hno => of_decide_eq_true hno (List.mem_map_of_mem hmem)
    cases d
    cases hnil
    rfl
  subst hd'
  set ms := (w.q.inFlight.entries.map fun e => e.2.1).reverse ++ w.q.queue with hms
  have hs : (simpleQueue τ).step w (.requeueExpired c (w.q.readingsAt now)) =
      some (.requeued c (w.q.readingsAt now), ⟨{ w.q with queue := ms, inFlight := .empty }, w.issued⟩) := by
    simp only [simpleQueue, if_pos hlen, hd]
  have hconsume := consume_run c now
    (w := ⟨{ w.q with queue := ms, inFlight := .empty }, w.issued⟩) rfl fun m _ => List.not_mem_nil
  have hrun := (Machine.run_cons_iff _).mpr ⟨_, _, _, hs, hconsume, rfl⟩
  have hc' := conserved_run ((Machine.run_append_iff _).mpr ⟨_, _, _, h, hrun, rfl⟩)
  refine ⟨ms, _, by rw [hms, ← horder.order], hrun, rfl, rfl, ?_⟩
  rw [← hc.issued]
  refine (List.perm_ext_iff_of_nodup (hc'.partition.nodup .acked) hc.nodup).mpr fun id => ?_
  -- nothing is in the queue or in flight any more
  constructor
  · exact fun hid => hc'.partition.mem (p := .acked) hid
  · intro hid
    obtain ⟨p, hp⟩ := (hc'.partition.mem_iff id).mp hid
    cases p with
    | queue | inFlight => exact absurd hp List.not_mem_nil
    | acked => exact hp

/-- A message is received and its consumer crashes; another one is published. -/
theorem recovery_example :
    ∃ (w w' : World) (ms : List Message), (simpleQueue Nat).run w
        (.requeueExpired 2 (w.q.readingsAt 7) :: consume 2 7 ms) =
      some (.requeued 2 (w.q.readingsAt 7) :: consumed 2 7 ms, w') ∧ w'.q.queue = [] ∧ w'.q.inFlight = .empty := by
  obtain ⟨r, h⟩ : ∃ r, (simpleQueue Nat).run (World.init 5)
      [.publish 0 "1" "a", .receive 1 0, .publish 0 "2" "b"] = some r := ⟨_, rfl⟩
  obtain ⟨ms, w', -, hrun, hqueue, hinFlight, -⟩ := recovery 5 _ r.1 r.2 2 7 h (by
    cases h
    decide +kernel)
  exact ⟨r.2, w', ms, hrun, hqueue, hinFlight⟩

end Recovery

end TheGrind.MessageQueue
