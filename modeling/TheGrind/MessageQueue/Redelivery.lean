import TheGrind.MessageQueue.Visibility

/-!
# The order of redelivery

`in_flight` keeps its entries in the order in which the messages were handed out (`InOrder`): a receive appends, and the
other operations take entries away. `requeue_expired` goes through it from the oldest entry on and puts each expired
message at the left end of the queue, so the one handed out last is received first (`requeue_reverses`).
-/

namespace TheGrind.MessageQueue
open TheGrind.Data TheGrind.Transition

variable {τ : Type} {w w' : World} {o : Event τ} {os : List (Event τ)} {m : Message}

/-- The message that a receive returned. -/
def Event.handedOut? : Event τ → Option Message
  | .received _ m _ => some m
  | _ => none

/-- A message that is handed out moves to the end. -/
def handOut (l : List Message) (m : Message) : List Message := l.filter (· ≠ m) ++ [m]

/-- The messages handed out so far, in the order in which each was handed out last. -/
def handedOut (os : List (Event τ)) : List Message := (os.filterMap Event.handedOut?).foldl handOut []

/-- The age of the in-flight message exceeds the visibility timeout at this reading. -/
def SimpleQueue.overdue (q : SimpleQueue) (now : ℚ) (m : Message) : Bool :=
  match q.inFlight.get? m.id with
  | some (_, handedOutTime) => decide (now - handedOutTime > q.visibilityTimeout)
  | none => false

/-- One reading for the whole pass of `requeue_expired`. -/
def SimpleQueue.readingsAt (q : SimpleQueue) (now : ℚ) : List ℚ := List.replicate q.inFlight.entries.length now

theorem handedOut_snoc : handedOut (os ++ [o]) = o.handedOut?.elim (handedOut os) (handOut (handedOut os)) := by
  unfold handedOut
  rw [List.filterMap_append, List.foldl_append]
  cases h : o.handedOut? <;> simp [h]

/-- `in_flight` has its messages in the order in which they were handed out. -/
structure InOrder (os : List (Event τ)) (w : World) : Prop where
  order : w.q.inFlight.entries.map (·.2.1) = (handedOut os).filter (·.id ∈ w.q.inFlight.keys)
  published : ∀ m ∈ handedOut os, m ∈ published os

theorem published_mono {m : Message} (h : m ∈ published os) : m ∈ published (os ++ [o]) := by
  rw [published_snoc]
  exact List.mem_append_left _ h

namespace InOrder

theorem init (visibilityTimeout : ℚ) : InOrder ([] : List (Event τ)) (World.init visibilityTimeout) :=
  ⟨rfl, fun _ hm => absurd hm List.not_mem_nil⟩

/-- Entries that leave do not change the order of the others. -/
theorem remove (p : String → Bool) (h : InOrder os w) (hc : Conserved os w) (ho : o.handedOut? = none)
    (hq : w'.q.inFlight.entries = w.q.inFlight.entries.filter (p ·.1)) : InOrder (os ++ [o]) w' := by
  have hout : handedOut (os ++ [o]) = handedOut os := by rw [handedOut_snoc, ho, Option.elim_none]
  have hown : ∀ e ∈ w.q.inFlight.entries, p e.1 = p e.2.1.id := fun e he => by rw [(hc.inFlight e he).1]
  have hkeys : ∀ id, id ∈ w'.q.inFlight.keys ↔ id ∈ w.q.inFlight.keys ∧ p id = true := by
    intro id
    simp only [Dict.keys, hq, List.mem_map, List.mem_filter]
    constructor
    · rintro ⟨e, ⟨he, hp⟩, rfl⟩
      exact ⟨⟨e, he, rfl⟩, hp⟩
    · rintro ⟨⟨e, he, rfl⟩, hp⟩
      exact ⟨e, ⟨he, hp⟩, rfl⟩
  refine ⟨?_, fun m hm => published_mono (h.published m (hout ▸ hm))⟩
  rw [hout, hq, List.filter_congr hown]
  calc (w.q.inFlight.entries.filter fun e => p e.2.1.id).map (·.2.1)
      = (w.q.inFlight.entries.map (·.2.1)).filter (p ·.id) := by rw [List.filter_map]; rfl
    _ = ((handedOut os).filter (·.id ∈ w.q.inFlight.keys)).filter (p ·.id) := by rw [h.order]
    _ = (handedOut os).filter (·.id ∈ w'.q.inFlight.keys) := by
        rw [List.filter_filter]
        apply List.filter_congr
        intro m' _
        rw [Bool.eq_iff_iff]
        simp [hkeys, and_comm]

theorem keep (h : InOrder os w) (hc : Conserved os w) (ho : o.handedOut? = none)
    (hq : w'.q.inFlight = w.q.inFlight) : InOrder (os ++ [o]) w' := by
  apply h.remove (fun _ => true) hc ho
  rw [hq, List.filter_true]

/-- A message that is handed out goes to the end of `in_flight`, as it does in the order. -/
theorem receive (h : InOrder os w) (hc : Conserved os w) {c : τ} {now : ℚ} {rest : List Message}
    (hq : w.q.queue = m :: rest) : InOrder (os ++ [.received c m now])
      ⟨{ w.q with queue := rest, inFlight := w.q.inFlight.set m.id (m, now) }, w.issued⟩ := by
  have hmem : m ∈ w.q.queue := hq ▸ List.mem_cons_self
  have hfresh := hc.not_inFlight hmem
  have hout : handedOut (os ++ [.received c m now]) = (handedOut os).filter (· ≠ m) ++ [m] := handedOut_snoc
  constructor
  · simp only [hout]
    rw [Dict.entries_set_of_not_mem hfresh, Dict.keys_set_of_not_mem hfresh, List.map_append, h.order,
      List.filter_append, List.filter_filter]
    congr 1
    · apply List.filter_congr
      intro m' hm'
      rw [Bool.eq_iff_iff]
      simp only [decide_eq_true_eq, List.mem_append, List.mem_singleton, Bool.and_eq_true]
      constructor
      · exact fun hk => ⟨Or.inl hk, fun he => hfresh (he ▸ hk)⟩
      · -- the id of `m` belongs to no other message
        rintro ⟨hk | hid, hne⟩
        · exact hk
        · exact absurd (hc.published_inj (h.published m' hm') (hc.queued m hmem) hid) hne
    · simp
  · intro m' hm'
    rw [hout] at hm'
    apply published_mono
    rcases List.mem_append.mp hm' with hm' | hm'
    · exact h.published m' (List.mem_filter.mp hm').1
    · rw [List.mem_singleton.mp hm']
      exact hc.queued m hmem

theorem steps (h : InOrder os w) (hc : Conserved os w) (hs : Steps w o w') : InOrder (os ++ [o]) w' := by
  cases hs with
  | published _ | gaveUp _ | raised _ => exact h.keep hc rfl rfl
  | received hq => exact h.receive hc hq
  | @acked c id now _ => exact h.remove (fun k => decide (k ≠ id)) hc rfl rfl
  | @requeued c readings d _ hd =>
    exact h.remove (fun k => decide (k ∉ (w.q.expired readings).map Prod.fst)) hc rfl hd

end InOrder

theorem inOrder_run {visibilityTimeout : ℚ} {moves : List (Move τ)}
    (h : (simpleQueue τ).run (World.init visibilityTimeout) moves = some (os, w)) : Conserved os w ∧ InOrder os w :=
  Machine.run_history (M := simpleQueue τ) (P := fun os w => Conserved os w ∧ InOrder os w)
    (fun hP hs => ⟨hP.1.steps (step_steps hs), hP.2.steps hP.1 (step_steps hs)⟩) (l := [])
    ⟨.init visibilityTimeout, .init visibilityTimeout⟩ h

/-! ## One call of requeue_expired -/

/-- With one reading for the whole pass, the expired entries are the ones that are too old at it. -/
theorem expired_readingsAt (q : SimpleQueue) (now : ℚ) :
    q.expired (q.readingsAt now) = q.inFlight.entries.filter fun e => now - e.2.2 > q.visibilityTimeout := by
  unfold SimpleQueue.expired SimpleQueue.readingsAt
  induction q.inFlight.entries with
  | nil => rfl
  | cons e es ih =>
    rw [List.length_cons, List.replicate_succ, List.zip_cons_cons, List.filter_cons, List.filter_cons]
    split
    · rw [List.map_cons, ih]
    · exact ih

theorem overdue_of_mem {q : SimpleQueue} {e : String × Message × ℚ} (now : ℚ) (he : e ∈ q.inFlight.entries)
    (hid : e.1 = e.2.1.id) : q.overdue now e.2.1 = decide (now - e.2.2 > q.visibilityTimeout) := by
  have hget : q.inFlight.get? e.2.1.id = some e.2 := Dict.get?_eq_some_iff.mpr (hid ▸ he)
  unfold SimpleQueue.overdue
  rw [hget]

theorem overdue_inFlight {q : SimpleQueue} {now : ℚ} (h : q.overdue now m = true) : m.id ∈ q.inFlight.keys := by
  unfold SimpleQueue.overdue at h
  by_contra hk
  rw [Dict.get?_eq_none_iff.mpr hk] at h
  cases h

/-- The expired messages, in the order of `in_flight`, are the overdue ones in the order of their handing out. -/
theorem InOrder.expired (h : InOrder os w) (hc : Conserved os w) (now : ℚ) :
    (w.q.expired (w.q.readingsAt now)).map (·.2.1) = (handedOut os).filter (w.q.overdue now) := by
  have hdue : ∀ e ∈ w.q.inFlight.entries,
      decide (now - e.2.2 > w.q.visibilityTimeout) = w.q.overdue now e.2.1 := fun e he =>
    (overdue_of_mem now he (hc.inFlight e he).1).symm
  rw [expired_readingsAt, List.filter_congr hdue]
  calc (w.q.inFlight.entries.filter fun e => w.q.overdue now e.2.1).map (·.2.1)
      = (w.q.inFlight.entries.map (·.2.1)).filter (w.q.overdue now) := by rw [List.filter_map]; rfl
    _ = ((handedOut os).filter (·.id ∈ w.q.inFlight.keys)).filter (w.q.overdue now) := by rw [h.order]
    _ = (handedOut os).filter (w.q.overdue now) := by
        rw [List.filter_filter]
        apply List.filter_congr
        intro m' _
        rw [Bool.eq_iff_iff]
        simp only [Bool.and_eq_true, decide_eq_true_eq, and_iff_left_iff_imp]
        exact overdue_inFlight

/-- **What a requeue does.** In every reachable state, a call of `requeue_expired` with one clock reading puts the
messages that are overdue at it in front of the waiting ones, the one handed out last at the head; the waiting messages
and the other entries, with their stamps, stay as they are. -/
theorem requeue_reverses (visibilityTimeout : ℚ) (moves : List (Move τ)) (os : List (Event τ)) (w : World) (c : τ)
    (now : ℚ) (h : (simpleQueue τ).run (World.init visibilityTimeout) moves = some (os, w)) :
    ∃ w', (simpleQueue τ).step w (.requeueExpired c (w.q.readingsAt now)) =
        some (.requeued c (w.q.readingsAt now), w') ∧
      w'.q.queue = ((handedOut os).filter (w.q.overdue now)).reverse ++ w.q.queue ∧
      w'.q.inFlight.entries = w.q.inFlight.entries.filter (fun e => ¬now - e.2.2 > w.q.visibilityTimeout) := by
  obtain ⟨hc, horder⟩ := inOrder_run h
  have hlen : (w.q.readingsAt now).length = w.q.inFlight.entries.length := List.length_replicate
  obtain ⟨d, hd, he⟩ := SimpleQueue.requeueExpired_eq hlen
  refine ⟨⟨{ w.q with
    queue := ((w.q.expired (w.q.readingsAt now)).map fun e => e.2.1).reverse ++ w.q.queue, inFlight := d }, w.issued⟩,
    ?_, ?_, ?_⟩
  · simp only [simpleQueue, hd]
    rw [if_pos hlen]
  · rw [← horder.expired hc now]
  · show d.entries = _
    rw [he, expired_readingsAt]
    apply List.filter_congr
    intro e hmem
    rw [Bool.eq_iff_iff]
    simp only [decide_eq_true_eq, List.mem_map, List.mem_filter]
    constructor
    · exact fun hout hold => hout ⟨e, ⟨hmem, hold⟩, rfl⟩
    · rintro hyoung ⟨e', ⟨hmem', hold⟩, hid⟩
      rw [List.inj_on_of_nodup_map w.q.inFlight.nodup hmem' hmem hid] at hold
      exact hyoung hold

/-- Two messages that were handed out and expired. -/
def twoExpired : List (Move Nat) := [.publish 0 "1" "a", .publish 0 "2" "b", .receive 1 0, .receive 1 1]

theorem requeue_reverses_example :
    ∃ w w' : World, (simpleQueue Nat).step w (.requeueExpired 2 (w.q.readingsAt 7)) =
        some (.requeued 2 (w.q.readingsAt 7), w') ∧ w'.q.queue = [⟨"2", "b"⟩, ⟨"1", "a"⟩] := by
  obtain ⟨r, h⟩ : ∃ r, (simpleQueue Nat).run (World.init 5) twoExpired = some r := ⟨_, rfl⟩
  obtain ⟨w', hs, hqueue, -⟩ := requeue_reverses 5 twoExpired r.1 r.2 2 7 h
  refine ⟨r.2, w', hs, hqueue.trans ?_⟩
  cases h
  decide +kernel

/-- The message handed out first is not the first one again. -/
theorem requeue_order_lost : ¬∀ (visibilityTimeout : ℚ) (moves : List (Move Nat)) (os : List (Event Nat))
    (w w' : World) (c : Nat) (now : ℚ),
    (simpleQueue Nat).run (World.init visibilityTimeout) moves = some (os, w) →
      (simpleQueue Nat).step w (.requeueExpired c (w.q.readingsAt now)) =
        some (.requeued c (w.q.readingsAt now), w') →
      Clocked (os ++ [.requeued c (w.q.readingsAt now)]) →
      w'.q.queue = (handedOut os).filter (w.q.overdue now) ++ w.q.queue := by
  intro hall
  obtain ⟨r, h⟩ : ∃ r, (simpleQueue Nat).run (World.init 5) twoExpired = some r := ⟨_, rfl⟩
  have hqueue : ((simpleQueue Nat).step r.2 (.requeueExpired 2 (r.2.q.readingsAt 7))).map (fun x => (x.1, x.2.q.queue)) =
      some (.requeued 2 (r.2.q.readingsAt 7), [⟨"2", "b"⟩, ⟨"1", "a"⟩]) := by
    cases h
    decide +kernel
  obtain ⟨⟨o, w'⟩, hs, hx⟩ := Option.map_eq_some_iff.mp hqueue
  obtain ⟨rfl, hw'⟩ := Prod.mk.inj hx
  have hclocked : Clocked (r.1 ++ [.requeued 2 (r.2.q.readingsAt 7)]) := by
    unfold Clocked
    cases h
    decide +kernel
  have hclaim := hall 5 twoExpired r.1 r.2 w' 2 7 h hs hclocked
  rw [hw'] at hclaim
  cases h
  exact absurd hclaim (by decide +kernel)

end TheGrind.MessageQueue
