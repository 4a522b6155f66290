import TheGrind.MessageQueue.Monitor
import TheGrind.MessageQueue.Redelivery

/-!
# The order of first deliveries

The queue is in two parts (`Fresh`): messages that `requeue_expired` put back, and behind them the messages that were
never handed out, in the order of their publication. So messages are handed out for the first time in that order,
however the threads interleave and whatever is redelivered in between (`first_deliveries_in_order`).
-/

namespace TheGrind.MessageQueue
open TheGrind.Data TheGrind.Transition TheGrind.Sync

variable {τ : Type} {w w' : World} {o : Event τ} {os : List (Event τ)} {m : Message}

/-- The deliveries, in order. -/
def deliveries (os : List (Event τ)) : List Message := os.filterMap Event.handedOut?

/-- A message that is handed out for the first time goes to the end. -/
def deliver (l : List Message) (m : Message) : List Message := if m ∈ l then l else l ++ [m]

/-- The messages handed out so far, in the order in which each was handed out first. -/
def firstDeliveries (os : List (Event τ)) : List Message := (deliveries os).foldl deliver []

def Event.isRequeue : Event τ → Bool
  | .requeued _ _ => true
  | _ => false

theorem deliveries_snoc : deliveries (os ++ [o]) = deliveries os ++ o.handedOut?.toList := by
  unfold deliveries
  rw [List.filterMap_append]
  cases h : o.handedOut? <;> simp [h]

theorem firstDeliveries_snoc :
    firstDeliveries (os ++ [o]) = o.handedOut?.elim (firstDeliveries os) (deliver (firstDeliveries os)) := by
  unfold firstDeliveries
  rw [deliveries_snoc, List.foldl_append]
  cases h : o.handedOut? <;> rfl

/-- The messages put back, and behind them the ones never handed out. -/
structure Fresh (os : List (Event τ)) (w : World) (again fresh : List Message) : Prop where
  queue : w.q.queue = again ++ fresh
  published : published os = firstDeliveries os ++ fresh
  old : ∀ m ∈ again, m ∈ firstDeliveries os
  inFlight : ∀ e ∈ w.q.inFlight.entries, e.2.1 ∈ firstDeliveries os
  once : os.any Event.isRequeue = false → again = [] ∧ deliveries os = firstDeliveries os

namespace Fresh
variable {again fresh : List Message}

theorem init (vt : ℚ) : Fresh ([] : List (Event τ)) (World.init vt) [] [] :=
  ⟨rfl, rfl, fun _ hm => absurd hm List.not_mem_nil, fun _ he => absurd he List.not_mem_nil, fun _ => ⟨rfl, rfl⟩⟩

/-- A step that hands nothing out and puts nothing back. -/
theorem keep (h : Fresh os w again fresh) (ho : o.handedOut? = none) {new : List Message}
    (hp : o.published?.toList = new) (hq : w'.q.queue = w.q.queue ++ new)
    (he : ∀ e ∈ w'.q.inFlight.entries, e ∈ w.q.inFlight.entries) : Fresh (os ++ [o]) w' again (fresh ++ new) := by
  have hfirst : firstDeliveries (os ++ [o]) = firstDeliveries os := by rw [firstDeliveries_snoc, ho, Option.elim_none]
  refine ⟨?_, ?_, fun m hm => hfirst ▸ h.old m hm, fun e hmem => hfirst ▸ h.inFlight e (he e hmem), fun hno => ?_⟩
  · rw [hq, h.queue, List.append_assoc]
  · rw [published_snoc, h.published, hfirst, hp, List.append_assoc]
  · rw [List.any_append, Bool.or_eq_false_iff] at hno
    obtain ⟨hagain, hdel⟩ := h.once hno.1
    refine ⟨hagain, ?_⟩
    rw [deliveries_snoc, ho, hfirst, hdel]
    exact List.append_nil _

/-- The oldest message that was never handed out is handed out once the ones put back are. -/
theorem receive (h : Fresh os w again fresh) (hc : Conserved os w) {c : τ} {now : ℚ} {rest : List Message}
    (hq : w.q.queue = m :: rest) : ∃ again fresh, Fresh (os ++ [.received c m now])
      ⟨{ w.q with queue := rest, inFlight := w.q.inFlight.set m.id (m, now) }, w.issued⟩ again fresh := by
  have hpub : MessageQueue.published (os ++ [.received c m now]) = MessageQueue.published os := by
    simp [published_snoc, Event.published?]
  have hset := Dict.entries_set_of_not_mem (v := (m, now)) (hc.not_inFlight (hq ▸ List.mem_cons_self))
  have hfirst : firstDeliveries (os ++ [.received c m now]) = deliver (firstDeliveries os) m := firstDeliveries_snoc
  have hmem : m ∈ deliver (firstDeliveries os) m := by
    unfold deliver
    split
    · next hm => exact hm
    · exact List.mem_append_right _ List.mem_cons_self
  have hsub : ∀ m' ∈ firstDeliveries os, m' ∈ deliver (firstDeliveries os) m := fun m' hm' => by
    unfold deliver
    split
    · exact hm'
    · exact List.mem_append_left _ hm'
  have hin : ∀ e ∈ (w.q.inFlight.set m.id (m, now)).entries, e.2.1 ∈ deliver (firstDeliveries os) m := by
    intro e he
    rw [hset] at he
    rcases List.mem_append.mp he with he | he
    · exact hsub _ (h.inFlight e he)
    · rw [List.mem_singleton.mp he]
      exact hmem
  have hqueue := h.queue
  rw [hq] at hqueue
  cases again with
  | nil =>
    have hfresh : fresh = m :: rest := hqueue.symm
    -- the published messages are distinct, so this one has not been handed out
    have hnew : m ∉ firstDeliveries os := by
      have hnd := (hc.issued ▸ hc.nodup : ((MessageQueue.published os).map Message.id).Nodup).of_map
      rw [h.published, hfresh] at hnd
      exact fun hm => (List.disjoint_of_nodup_append hnd) hm List.mem_cons_self
    have hdeliver : deliver (firstDeliveries os) m = firstDeliveries os ++ [m] := if_neg hnew
    refine ⟨[], rest, rfl, ?_, fun _ hm => absurd hm List.not_mem_nil, fun e he => hfirst ▸ hin e he, fun hno => ?_⟩
    · rw [hpub, h.published, hfresh, hfirst, hdeliver, List.append_assoc]
      rfl
    · rw [List.any_append, Bool.or_eq_false_iff] at hno
      refine ⟨rfl, ?_⟩
      rw [deliveries_snoc, (h.once hno.1).2, hfirst, hdeliver]
      rfl
  | cons m' again =>
    obtain ⟨rfl, hrest⟩ := List.cons.inj hqueue
    have hold : m ∈ firstDeliveries os := h.old m List.mem_cons_self
    have hdeliver : deliver (firstDeliveries os) m = firstDeliveries os := if_pos hold
    refine ⟨again, fresh, hrest, ?_, fun m' hm' => ?_, fun e he => hfirst ▸ hin e he, fun hno => ?_⟩
    · rw [hpub, h.published, hfirst, hdeliver]
    · rw [hfirst, hdeliver]
      exact h.old m' (List.mem_cons_of_mem _ hm')
    · rw [List.any_append, Bool.or_eq_false_iff] at hno
      exact absurd (h.once hno.1).1 (List.cons_ne_nil m again)

theorem requeue (h : Fresh os w again fresh) {c : τ} {readings : List ℚ} {d : InFlight}
    (hd : d.entries = w.q.inFlight.entries.filter (·.1 ∉ (w.q.expired readings).map Prod.fst)) :
    Fresh (os ++ [.requeued c readings])
      ⟨{ w.q with queue := ((w.q.expired readings).map fun e => e.2.1).reverse ++ w.q.queue, inFlight := d }, w.issued⟩
      (((w.q.expired readings).map fun e => e.2.1).reverse ++ again) fresh := by
  have hfirst : firstDeliveries (os ++ [.requeued c readings]) = firstDeliveries os := firstDeliveries_snoc
  refine ⟨?_, ?_, fun m hm => ?_, fun e he => ?_, fun hno => ?_⟩
  · show _ ++ w.q.queue = _
    rw [h.queue, List.append_assoc]
  · rw [hfirst, ← h.published]
    simp [published_snoc, Event.published?]
  · rw [hfirst]
    rcases List.mem_append.mp hm with hm | hm
    · obtain ⟨e, he, rfl⟩ := List.mem_map.mp (List.mem_reverse.mp hm)
      exact h.inFlight e (SimpleQueue.mem_expired he).1
    · exact h.old m hm
  · rw [hfirst]
    have he' : e ∈ d.entries := he
    rw [hd] at he'
    exact h.inFlight e (List.mem_filter.mp he').1
  · rw [List.any_append] at hno
    simp [Event.isRequeue] at hno

theorem steps (h : Fresh os w again fresh) (hc : Conserved os w) (hs : Steps w o w') :
    ∃ again fresh, Fresh (os ++ [o]) w' again fresh := by
  cases hs with
  | published hid => exact ⟨again, _, h.keep rfl rfl rfl fun _ he => he⟩
  | received hq => exact h.receive hc hq
  | gaveUp _ | raised _ => exact ⟨again, _, h.keep rfl rfl (List.append_nil _).symm fun _ he => he⟩
  | acked hid => exact ⟨again, _, h.keep rfl rfl (List.append_nil _).symm fun _ he => (Dict.mem_erase.mp he).1⟩
  | requeued _ hd => exact ⟨_, fresh, h.requeue hd⟩

end Fresh

theorem fresh_run {vt : ℚ} {moves : List (Move τ)} (h : (simpleQueue τ).run (World.init vt) moves = some (os, w)) :
    ∃ again fresh, Fresh os w again fresh :=
  (Machine.run_history (M := simpleQueue τ) (l := [])
    (P := fun os w => Conserved os w ∧ ∃ again fresh, Fresh os w again fresh)
    (fun hP hs => by
      obtain ⟨hc, again, fresh, hf⟩ := hP
      exact ⟨hc.steps (step_steps hs), hf.steps hc (step_steps hs)⟩)
    ⟨.init vt, [], [], .init vt⟩ h).2

/-- **First deliveries are in order.** Under every interleaving of the threads: the messages handed out so far, each
when it was handed out first, are the first ones published, in the order of publication. The others wait in that order
at the end of the queue, behind messages that were handed out before. Until the first call of `requeue_expired`, no
message is handed out twice. -/
theorem first_deliveries_in_order [DecidableEq τ] (vt : ℚ) (moves : List (Sync.Move τ Point Choice))
    (os : List (Option (Outcome τ))) (m : Monitor τ Point World)
    (h : (Monitor.machine (program τ)).run (start τ vt) moves = some (os, m)) :
    ∃ again fresh, published (events os) = firstDeliveries (events os) ++ fresh ∧ m.data.q.queue = again ++ fresh ∧
      (∀ message ∈ again, message ∈ firstDeliveries (events os)) ∧
      ((events os).any Event.isRequeue = false →
        again = [] ∧ deliveries (events os) = firstDeliveries (events os)) := by
  obtain ⟨bs, hrun⟩ := monitor_refines h
  obtain ⟨again, fresh, hf⟩ := fresh_run hrun
  exact ⟨again, fresh, hf.published, hf.queue, hf.old, hf.once⟩

/-- Two messages are published, the first one is received and put back. -/
def publishedTwice : List (Sync.Move Nat Point Choice) :=
  [.call 0 (.publish "a"), .run 0 .nothing, .run 0 (.uuid "1"), .run 0 .nothing, .run 0 .nothing,
    .call 0 (.publish "b"), .run 0 .nothing, .run 0 (.uuid "2"), .run 0 .nothing, .run 0 .nothing,
    .call 1 (.receive none), .run 1 .nothing, .run 1 .nothing, .run 1 (.reading 1), .run 1 .nothing,
    .call 2 .requeueExpired, .run 2 .nothing, .run 2 (.readings [9]), .run 2 .nothing, .run 2 .nothing]

theorem first_deliveries_in_order_example :
    ∃ os m, (Monitor.machine (program Nat)).run (start Nat 5) publishedTwice = some (os, m) ∧
      ∃ again fresh, published (events os) = firstDeliveries (events os) ++ fresh ∧
        m.data.q.queue = again ++ fresh := by
  have hrun : ((Monitor.machine (program Nat)).run (start Nat 5) publishedTwice).isSome := by decide +kernel
  obtain ⟨⟨os, m⟩, h⟩ := Option.isSome_iff_exists.mp hrun
  obtain ⟨again, fresh, hpub, hqueue, -⟩ := first_deliveries_in_order 5 publishedTwice os m h
  exact ⟨os, m, h, again, fresh, hpub, hqueue⟩

end TheGrind.MessageQueue
