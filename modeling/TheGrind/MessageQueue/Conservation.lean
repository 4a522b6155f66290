import TheGrind.Data.Partition
import TheGrind.MessageQueue.Run

/-!
# No message is lost or duplicated

A published message is in the queue, in flight or acknowledged, and in one of these places once (`Conserved.partition`).
A step moves ids between two places: `receive` from the queue to in flight, `ack` on to the acknowledged ones, and
`requeue_expired` a whole batch from in flight back to the queue.
-/

namespace TheGrind.MessageQueue
open TheGrind.Data TheGrind.Transition

variable {τ : Type} {w w' : World} {o : Event τ} {os : List (Event τ)} {id : String} {m : Message}

def Event.published? : Event τ → Option Message
  | .published _ m => some m
  | _ => none

/-- The id that an ack removed. -/
def Event.acked? : Event τ → Option String
  | .acked _ id _ => some id
  | _ => none

/-- The id of a message that a receive returned. -/
def Event.received? : Event τ → Option String
  | .received _ m _ => some m.id
  | _ => none

/-- The messages published so far. -/
def published (os : List (Event τ)) : List Message := os.filterMap Event.published?

/-- The ids acknowledged so far, once for each ack that returned normally. -/
def acked (os : List (Event τ)) : List String := os.filterMap Event.acked?

theorem published_snoc : published (os ++ [o]) = published os ++ o.published?.toList := by
  unfold published
  rw [List.filterMap_append]
  cases h : o.published? <;> simp [h]

theorem acked_snoc : acked (os ++ [o]) = acked os ++ o.acked?.toList := by
  unfold acked
  rw [List.filterMap_append]
  cases h : o.acked? <;> simp [h]

/-- Where a message can be. -/
inductive Place where
  | queue
  | inFlight
  | acked
  deriving DecidableEq, Repr

/-- The ids of the messages in each place. -/
def contents (os : List (Event τ)) (w : World) : Place → List String
  | .queue => w.q.queue.map Message.id
  | .inFlight => w.q.inFlight.keys
  | .acked => MessageQueue.acked os

structure Conserved (os : List (Event τ)) (w : World) : Prop where
  partition : Partition {id | id ∈ w.issued} (contents os w)
  issued : w.issued = (published os).map Message.id
  nodup : w.issued.Nodup
  queued : ∀ m ∈ w.q.queue, m ∈ published os
  inFlight : ∀ e ∈ w.q.inFlight.entries, e.1 = e.2.1.id ∧ e.2.1 ∈ published os

namespace Conserved

theorem init (visibilityTimeout : ℚ) : Conserved ([] : List (Event τ)) (World.init visibilityTimeout) where
  partition := by
    have hrest : ∀ r, r ≠ Place.queue → contents ([] : List (Event τ)) (World.init visibilityTimeout) r = [] :=
      fun r _ => by cases r <;> rfl
    exact Partition.init Place.queue List.nodup_nil hrest
  issued := rfl
  nodup := List.nodup_nil
  queued _ hm := absurd hm List.not_mem_nil
  inFlight _ he := absurd he List.not_mem_nil

/-- A message in the queue is not in flight. -/
theorem not_inFlight (h : Conserved os w) (hm : m ∈ w.q.queue) : m.id ∉ w.q.inFlight.keys :=
  h.partition.not_mem (p := .queue) (q := .inFlight) (List.mem_map_of_mem hm) (by decide)

theorem published_mem (h : Conserved os w) (hm : m ∈ published os) : m.id ∈ w.issued := by
  rw [h.issued]
  exact List.mem_map_of_mem hm

theorem published_inj (h : Conserved os w) {m m' : Message} (hm : m ∈ published os) (hm' : m' ∈ published os)
    (hid : m.id = m'.id) : m = m' :=
  List.inj_on_of_nodup_map (h.issued ▸ h.nodup) hm hm' hid

theorem publish (h : Conserved os w) {c : τ} (hid : m.id ∉ w.issued) :
    Conserved (os ++ [.published c m]) ⟨{ w.q with queue := w.q.queue ++ [m] }, w.issued ++ [m.id]⟩ where
  partition := by
    have hset : {id | id ∈ w.issued ++ [m.id]} = insert m.id {id | id ∈ w.issued} := by
      ext id
      simp [or_comm]
    rw [hset]
    refine h.partition.add (p := .queue) hid ?_ fun r hr => ?_
    · show ((w.q.queue ++ [m]).map Message.id).Perm (m.id :: w.q.queue.map Message.id)
      rw [List.map_append]
      exact List.perm_append_singleton _ _
    · cases r with
      | queue => exact absurd rfl hr
      | inFlight => rfl
      | acked => simp [contents, acked_snoc, Event.acked?]
  issued := by
    rw [h.issued, published_snoc, List.map_append]
    rfl
  nodup := h.nodup.append (List.nodup_singleton _) (List.disjoint_singleton.mpr hid)
  queued m' hm' := by
    rw [published_snoc]
    rcases List.mem_append.mp hm' with hm' | hm'
    · exact List.mem_append_left _ (h.queued m' hm')
    · exact List.mem_append_right _ hm'
  inFlight e he := by
    rw [published_snoc]
    exact ⟨(h.inFlight e he).1, List.mem_append_left _ (h.inFlight e he).2⟩

theorem receive (h : Conserved os w) {c : τ} {now : ℚ} {rest : List Message} (hq : w.q.queue = m :: rest) :
    Conserved (os ++ [.received c m now])
      ⟨{ w.q with queue := rest, inFlight := w.q.inFlight.set m.id (m, now) }, w.issued⟩ := by
  have hpub : published (os ++ [.received c m now]) = published os := by simp [published_snoc, Event.published?]
  have hmem : m ∈ w.q.queue := hq ▸ List.mem_cons_self
  have hset := Dict.entries_set_of_not_mem (v := (m, now)) (h.not_inFlight hmem)
  refine ⟨?_, hpub ▸ h.issued, h.nodup, fun m' hm' => ?_, fun e he => ?_⟩
  · refine h.partition.move_one (p := .queue) (q := .inFlight) (c := m.id) (by decide) ?_ ?_ fun r hr hr' => ?_
    · show (w.q.queue.map Message.id).Perm (m.id :: rest.map Message.id)
      rw [hq]
      rfl
    · show (w.q.inFlight.set m.id (m, now)).keys.Perm (m.id :: w.q.inFlight.keys)
      rw [Dict.keys_set_of_not_mem (h.not_inFlight hmem)]
      exact List.perm_append_singleton _ _
    · cases r with
      | queue => exact absurd rfl hr
      | inFlight => exact absurd rfl hr'
      | acked => simp [contents, acked_snoc, Event.acked?]
  · rw [hpub]
    exact h.queued m' (hq ▸ List.mem_cons_of_mem _ hm')
  · rw [hpub]
    simp only [hset] at he
    rcases List.mem_append.mp he with he | he
    · exact h.inFlight e he
    · rw [List.mem_singleton.mp he]
      exact ⟨rfl, h.queued m hmem⟩

theorem ack (h : Conserved os w) {c : τ} {now : ℚ} (hid : id ∈ w.q.inFlight.keys) :
    Conserved (os ++ [.acked c id now]) ⟨{ w.q with inFlight := w.q.inFlight.erase id }, w.issued⟩ := by
  have hpub : published (os ++ [.acked c id now]) = published os := by simp [published_snoc, Event.published?]
  refine ⟨?_, hpub ▸ h.issued, h.nodup, fun m' hm' => hpub ▸ h.queued m' hm', fun e he => ?_⟩
  · refine h.partition.move_one (p := .inFlight) (q := .acked) (c := id) (by decide) (Dict.keys_perm_erase hid) ?_
      fun r hr hr' => ?_
    · show (acked (os ++ [.acked c id now])).Perm (id :: acked os)
      rw [acked_snoc]
      exact List.perm_append_singleton _ _
    · cases r with
      | queue => rfl
      | inFlight => exact absurd rfl hr
      | acked => exact absurd rfl hr'
  · rw [hpub]
    exact h.inFlight e (Dict.mem_erase.mp he).1

/-- A step that changes nothing and is neither a publish nor an ack that returned. -/
theorem keep (h : Conserved os w) (hp : o.published? = none) (ha : o.acked? = none) : Conserved (os ++ [o]) w := by
  have hpub : published (os ++ [o]) = published os := by simp [published_snoc, hp]
  have hcontents : contents (os ++ [o]) w = contents os w := by
    funext r
    cases r <;> simp [contents, acked_snoc, ha]
  exact ⟨hcontents ▸ h.partition, hpub ▸ h.issued, h.nodup, hpub ▸ h.queued, hpub ▸ h.inFlight⟩

theorem requeue (h : Conserved os w) {c : τ} {readings : List ℚ} {d : InFlight}
    (hlen : readings.length = w.q.inFlight.entries.length)
    (hd : d.entries = w.q.inFlight.entries.filter (·.1 ∉ (w.q.expired readings).map Prod.fst)) :
    Conserved (os ++ [.requeued c readings])
      ⟨{ w.q with queue := ((w.q.expired readings).map fun e => e.2.1).reverse ++ w.q.queue, inFlight := d },
        w.issued⟩ := by
  have hpub : published (os ++ [.requeued c readings]) = published os := by simp [published_snoc, Event.published?]
  have hsub := (SimpleQueue.expired_sublist hlen).map Prod.fst
  have hids : (w.q.expired readings).map (fun e => e.2.1.id) = (w.q.expired readings).map Prod.fst :=
    List.map_congr_left fun e he => (h.inFlight e (SimpleQueue.mem_expired he).1).1.symm
  have hkeys : d.keys = w.q.inFlight.keys.filter (· ∉ (w.q.expired readings).map Prod.fst) := by
    simp only [Dict.keys, hd, List.filter_map]
    rfl
  refine ⟨?_, hpub ▸ h.issued, h.nodup, fun m' hm' => ?_, fun e he => ?_⟩
  · refine h.partition.move (p := .inFlight) (q := .queue) (l := (w.q.expired readings).map Prod.fst) (by decide) ?_ ?_
      fun r hr hr' => ?_
    · show w.q.inFlight.keys.Perm ((w.q.expired readings).map Prod.fst ++ d.keys)
      rw [hkeys]
      refine (List.perm_ext_iff_of_nodup w.q.inFlight.nodup ?_).mpr fun k => ?_
      · apply (w.q.inFlight.nodup.sublist hsub).append (w.q.inFlight.nodup.filter _)
        intro k hk hk'
        exact of_decide_eq_true (List.mem_filter.mp hk').2 hk
      · rw [List.mem_append, List.mem_filter, decide_eq_true_eq]
        refine ⟨fun hk => ?_, fun hk => hk.elim (fun hk => hsub.subset hk) fun hk => hk.1⟩
        by_cases hke : k ∈ (w.q.expired readings).map Prod.fst
        · exact Or.inl hke
        · exact Or.inr ⟨hk, hke⟩
    · show ((((w.q.expired readings).map fun e => e.2.1).reverse ++ w.q.queue).map Message.id).Perm
        ((w.q.expired readings).map Prod.fst ++ w.q.queue.map Message.id)
      rw [List.map_append, List.map_reverse, List.map_map, ← hids]
      exact (List.reverse_perm _).append_right _
    · cases r with
      | queue => exact absurd rfl hr'
      | inFlight => exact absurd rfl hr
      | acked => simp [contents, acked_snoc, Event.acked?]
  · rw [hpub]
    rcases List.mem_append.mp hm' with hm' | hm'
    · obtain ⟨e, he, rfl⟩ := List.mem_map.mp (List.mem_reverse.mp hm')
      exact (h.inFlight e (SimpleQueue.mem_expired he).1).2
    · exact h.queued m' hm'
  · rw [hpub]
    simp only [hd] at he
    exact h.inFlight e (List.mem_filter.mp he).1

theorem steps (h : Conserved os w) (hs : Steps w o w') : Conserved (os ++ [o]) w' := by
  cases hs with
  | published hid => exact h.publish hid
  | received hq => exact h.receive hq
  | gaveUp _ => exact h.keep rfl rfl
  | acked hid => exact h.ack hid
  | raised _ => exact h.keep rfl rfl
  | requeued hlen hd => exact h.requeue hlen hd

end Conserved

theorem conserved_run {visibilityTimeout : ℚ} {moves : List (Move τ)}
    (h : (simpleQueue τ).run (World.init visibilityTimeout) moves = some (os, w)) : Conserved os w :=
  Machine.run_history (M := simpleQueue τ) (P := Conserved) (fun hP hs => hP.steps (step_steps hs)) (l := [])
    (.init visibilityTimeout) h

/-! ## An acknowledged message is gone -/

/-- The message `id` is neither waiting nor in flight. -/
def Gone (id : String) (w : World) : Prop := (∀ m ∈ w.q.queue, m.id ≠ id) ∧ id ∉ w.q.inFlight.keys

theorem Conserved.gone (h : Conserved os w) (hid : id ∈ acked os) : Gone id w := by
  have hacked : id ∈ contents os w .acked := hid
  refine ⟨fun m hm he => ?_, ?_⟩
  · exact h.partition.not_mem (q := .queue) hacked (by decide) (he ▸ List.mem_map_of_mem hm)
  · exact h.partition.not_mem (q := .inFlight) hacked (by decide)

/-- The message `id` stays gone from `w` on, and no receive returns it. -/
def GoneForGood (τ : Type) (id : String) (w : World) : Prop :=
  ∀ (moves : List (Move τ)) (os : List (Event τ)) (w' : World), (simpleQueue τ).run w moves = some (os, w') →
    Gone id w' ∧ ∀ o ∈ os, o.received? ≠ some id

theorem Conserved.goneForGood (h : Conserved os w) (hid : id ∈ acked os) : GoneForGood τ id w := by
  intro moves os' w' hrun
  have hP := Machine.run_history (M := simpleQueue τ)
    (P := fun l w => Conserved (os ++ l) w ∧ ∀ o ∈ l, o.received? ≠ some id) (l := []) ?_
    ⟨by rwa [List.append_nil], fun o ho => absurd ho List.not_mem_nil⟩ hrun
  · have hmem : id ∈ acked (os ++ os') := by
      rw [acked, List.filterMap_append]
      exact List.mem_append_left _ hid
    exact ⟨hP.1.gone hmem, hP.2⟩
  · intro l w₁ a o w₂ hP hs
    have hst := step_steps hs
    refine ⟨by rw [← List.append_assoc]; exact hP.1.steps hst, fun o' ho' => ?_⟩
    rcases List.mem_append.mp ho' with ho' | ho'
    · exact hP.2 o' ho'
    · rw [List.mem_singleton.mp ho']
      intro hrec
      have hmem : id ∈ acked (os ++ l) := by
        rw [acked, List.filterMap_append]
        exact List.mem_append_left _ hid
      cases hst with
      | received hq => exact (hP.1.gone hmem).1 _ (hq ▸ List.mem_cons_self) (Option.some.inj hrec)
      | published _ => cases hrec
      | gaveUp _ => cases hrec
      | acked _ => cases hrec
      | raised _ => cases hrec
      | requeued _ _ => cases hrec

/-! ## Counting -/

/-- The entries of `in_flight` that hold `m` under its own id. -/
def ownEntries (q : SimpleQueue) (m : Message) : List (String × Message × ℚ) :=
  q.inFlight.entries.filter fun e => e.1 = m.id ∧ e.2.1 = m

theorem count_ids {l : List Message} (h : ∀ m' ∈ l, m'.id = m.id → m' = m) :
    (l.map Message.id).count m.id = l.count m := by
  rw [List.count, List.countP_map, List.count]
  apply List.countP_congr
  intro m' hm'
  simp only [Function.comp_apply, beq_iff_eq]
  exact ⟨h m' hm', fun he => he ▸ rfl⟩

theorem Conserved.count_keys (h : Conserved os w) (hm : m ∈ published os) :
    w.q.inFlight.keys.count m.id = (ownEntries w.q m).length := by
  rw [Dict.keys, List.count, List.countP_map, ownEntries, ← List.countP_eq_length_filter]
  apply List.countP_congr
  intro e he
  simp only [Function.comp_apply, beq_iff_eq, decide_eq_true_eq]
  refine ⟨fun hid => ⟨hid, ?_⟩, fun he => he.1⟩
  obtain ⟨hown, hpub⟩ := h.inFlight e he
  exact h.published_inj hpub hm (hown ▸ hid)

/-- A published message is in one of the three places, once. -/
theorem Conserved.count_eq_one (h : Conserved os w) (hm : m ∈ published os) :
    w.q.queue.count m + (ownEntries w.q m).length + (acked os).count m.id = 1 := by
  have hqueue : (contents os w .queue).count m.id = w.q.queue.count m :=
    count_ids fun m' hm' hid => h.published_inj (h.queued m' hm') hm hid
  have hinFlight : (contents os w .inFlight).count m.id = (ownEntries w.q m).length := h.count_keys hm
  obtain ⟨p, hp, hr⟩ := h.partition.exactly_one (h.published_mem hm)
  rw [← hqueue, ← hinFlight]
  show (contents os w .queue).count m.id + (contents os w .inFlight).count m.id + (contents os w .acked).count m.id = 1
  cases p with
  | queue => rw [hp, hr .inFlight (by decide), hr .acked (by decide)]
  | inFlight => rw [hp, hr .queue (by decide), hr .acked (by decide)]
  | acked => rw [hp, hr .queue (by decide), hr .inFlight (by decide)]

/-- **Messages are conserved.** In every reachable state a published message is in the queue once, in flight once under
its own id, or acknowledged by one ack that returned normally. After such an ack it is never in the queue or in flight
again, nor returned by a receive. An ack of an id that is not in flight raises `KeyError` and changes nothing. -/
theorem message_conservation (visibilityTimeout : ℚ) :
    (∀ (moves : List (Move τ)) (os : List (Event τ)) (w : World),
      (simpleQueue τ).run (World.init visibilityTimeout) moves = some (os, w) →
      (∀ m ∈ published os, w.q.queue.count m + (ownEntries w.q m).length + (acked os).count m.id = 1) ∧
      (∀ m ∈ w.q.queue, m ∈ published os) ∧
      ∀ e ∈ w.q.inFlight.entries, e.1 = e.2.1.id ∧ e.2.1 ∈ published os) ∧
    (∀ (moves : List (Move τ)) (os : List (Event τ)) (w w₁ : World) (c : τ) (id : String) (now : ℚ),
      (simpleQueue τ).run (World.init visibilityTimeout) moves = some (os, w) →
      (simpleQueue τ).step w (.ack c id now) = some (.acked c id now, w₁) → GoneForGood τ id w₁) ∧
    (∀ (w : World) (c : τ) (id : String) (now : ℚ), id ∉ w.q.inFlight.keys →
      (simpleQueue τ).step w (.ack c id now) = some (.raised c ⟨id⟩ [now], w)) := by
  refine ⟨fun moves os w h => ?_, fun moves os w w₁ c id now h hack => ?_, fun w c id now h =>
    step_ack_of_not_mem h⟩
  · have hc := conserved_run h
    exact ⟨fun m hm => hc.count_eq_one hm, hc.queued, hc.inFlight⟩
  · have hc := (conserved_run h).steps (step_steps hack)
    have hid : id ∈ acked (os ++ [.acked c id now]) := by
      rw [acked_snoc]
      exact List.mem_append_right _ List.mem_cons_self
    exact hc.goneForGood hid

/-- A message that is received twice and acknowledged is gone. -/
theorem message_conservation_example :
    (∃ w, (simpleQueue Nat).run (World.init 5) [.publish 0 "1" "a", .receive 1 2, .requeueExpired 2 [9], .receive 1 9,
        .ack 1 "1" 10] = some ([.published 0 ⟨"1", "a"⟩, .received 1 ⟨"1", "a"⟩ 2, .requeued 2 [9],
        .received 1 ⟨"1", "a"⟩ 9, .acked 1 "1" 10], w) ∧
      w.q.queue.count ⟨"1", "a"⟩ + (ownEntries w.q ⟨"1", "a"⟩).length + 1 = 1) ∧
    GoneForGood Nat "1" ⟨⟨[], .empty, 5⟩, ["1"]⟩ ∧
    (simpleQueue Nat).step (World.init 5) (.ack 0 "1" 3) = some (.raised 0 ⟨"1"⟩ [3], World.init 5) := by
  refine ⟨?_, ?_, (message_conservation 5).2.2 _ 0 "1" 3 (by decide)⟩
  · obtain ⟨w, h⟩ := Machine.exists_run (simpleQueue Nat) (s := World.init 5)
      (show ((simpleQueue Nat).run (World.init 5) [.publish 0 "1" "a", .receive 1 2, .requeueExpired 2 [9],
        .receive 1 9, .ack 1 "1" 10]).map Prod.fst = some [.published 0 ⟨"1", "a"⟩, .received 1 ⟨"1", "a"⟩ 2,
        .requeued 2 [9], .received 1 ⟨"1", "a"⟩ 9, .acked 1 "1" 10] by decide +kernel)
    exact ⟨w, h, ((message_conservation 5).1 _ _ _ h).1 ⟨"1", "a"⟩ (by decide)⟩
  · exact (message_conservation (τ := Nat) 5).2.1 [.publish 0 "1" "a", .receive 1 2] _ _ _ 1 "1" 3 rfl rfl

end TheGrind.MessageQueue
