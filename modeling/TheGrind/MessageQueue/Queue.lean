import Mathlib.Data.Rat.Init
import Mathlib.Algebra.Order.Ring.Rat
import TheGrind.Data.Dict

/-!
# SimpleQueue

The operations of `SimpleQueue`, as each critical section computes them. The deque is a list, left end first;
`in_flight` is an insertion-ordered dictionary; clock readings are arguments.

* `requeueExpired` : both passes of `requeue_expired`, one reading for each entry;
* `requeueExpired_eq` : it raises nothing, and moves the expired entries to the front of the queue.
-/

namespace TheGrind.MessageQueue
open TheGrind.Data

structure Message where
  id : String
  body : String
  deriving DecidableEq, Repr

/-- `in_flight`: message id → (message, handed_out_time) -/
abbrev InFlight := Dict String (Message × ℚ)

structure SimpleQueue where
  queue : List Message
  inFlight : InFlight
  visibilityTimeout : ℚ
  deriving DecidableEq

namespace SimpleQueue

def init (visibilityTimeout : ℚ) : SimpleQueue := ⟨[], .empty, visibilityTimeout⟩

/-- The critical section of `publish`, with the uuid of the message. -/
def publish (q : SimpleQueue) (id body : String) : Message × SimpleQueue :=
  let message : Message := ⟨id, body⟩
  (message, { q with queue := q.queue ++ [message] })

/-- What `receive` does when `wait_for` has returned: `none` when it gave up. -/
def receive (q : SimpleQueue) (now : ℚ) : Option (Message × SimpleQueue) :=
  match q.queue with
  | [] => none
  | message :: rest => some (message, { q with queue := rest, inFlight := q.inFlight.set message.id (message, now) })

def ack (q : SimpleQueue) (messageId : String) : Except (KeyError String) SimpleQueue :=
  (q.inFlight.del messageId).map fun d => { q with inFlight := d }

/-- The first pass of `requeue_expired` over the entries of `in_flight`, each with its own clock reading. -/
def markExpired (visibilityTimeout : ℚ) (acc : List Message × List String) (e : (String × Message × ℚ) × ℚ) :
    List Message × List String :=
  if e.2 - e.1.2.2 > visibilityTimeout then (e.1.2.1 :: acc.1, acc.2 ++ [e.1.1]) else acc

def requeueExpired (q : SimpleQueue) (readings : List ℚ) : Except (KeyError String) SimpleQueue :=
  let marked := (q.inFlight.entries.zip readings).foldl (markExpired q.visibilityTimeout) (q.queue, [])
  (marked.2.foldlM Dict.del q.inFlight).map fun d => { q with queue := marked.1, inFlight := d }

variable {q : SimpleQueue} {readings : List ℚ} {id : String} {m : Message} {now t : ℚ}

theorem receive_eq_none_iff : q.receive now = none ↔ q.queue = [] := by
  unfold receive
  cases q.queue <;> simp

theorem receive_eq_some_iff {q' : SimpleQueue} :
    q.receive now = some (m, q') ↔ ∃ rest, q.queue = m :: rest ∧
      q' = { q with queue := rest, inFlight := q.inFlight.set m.id (m, now) } := by
  unfold receive
  cases q.queue with
  | nil => simp
  | cons m' rest =>
    constructor
    · intro h
      cases h
      exact ⟨rest, rfl, rfl⟩
    · rintro ⟨rest', h, rfl⟩
      cases h
      rfl

theorem ack_of_mem (h : id ∈ q.inFlight.keys) : q.ack id = .ok { q with inFlight := q.inFlight.erase id } := by
  rw [ack, Dict.del_of_mem h]
  rfl

theorem ack_of_not_mem (h : id ∉ q.inFlight.keys) : q.ack id = .error ⟨id⟩ := by
  rw [ack, Dict.del_of_not_mem h]
  rfl

/-- The entries whose own reading finds them older than the visibility timeout. -/
def expired (q : SimpleQueue) (readings : List ℚ) : List (String × Message × ℚ) :=
  ((q.inFlight.entries.zip readings).filter fun e => e.2 - e.1.2.2 > q.visibilityTimeout).map Prod.fst

theorem foldl_markExpired (visibilityTimeout : ℚ) (es : List ((String × Message × ℚ) × ℚ)) :
    ∀ acc : List Message × List String,
      let expired := (es.filter fun e => e.2 - e.1.2.2 > visibilityTimeout).map Prod.fst
      es.foldl (markExpired visibilityTimeout) acc =
        ((expired.map fun e => e.2.1).reverse ++ acc.1, acc.2 ++ expired.map Prod.fst) := by
  induction es with
  | nil => simp
  | cons e es ih =>
    intro acc
    simp only at ih ⊢
    rw [List.foldl_cons, ih, markExpired]
    by_cases he : e.2 - e.1.2.2 > visibilityTimeout
    · simp [he]
    · simp [he]

theorem expired_sublist (h : readings.length = q.inFlight.entries.length) :
    (q.expired readings).Sublist q.inFlight.entries := by
  have hfst : (q.inFlight.entries.zip readings).map Prod.fst = q.inFlight.entries := List.map_fst_zip h.ge
  unfold expired
  have hsub := (List.filter_sublist (p := fun e : (String × Message × ℚ) × ℚ => e.2 - e.1.2.2 > q.visibilityTimeout)
    (l := q.inFlight.entries.zip readings)).map Prod.fst
  rwa [hfst] at hsub

theorem mem_expired {e : String × Message × ℚ} (h : e ∈ q.expired readings) :
    e ∈ q.inFlight.entries ∧ ∃ r ∈ readings, q.visibilityTimeout < r - e.2.2 := by
  obtain ⟨⟨e', r⟩, he, rfl⟩ := List.mem_map.mp h
  obtain ⟨he, hr⟩ := List.mem_filter.mp he
  obtain ⟨hmem, hmem'⟩ := List.of_mem_zip he
  exact ⟨hmem, r, hmem', of_decide_eq_true hr⟩

/-- **The two passes.** Every deletion of the second pass finds its key; the expired messages are in front of the queue,
and their entries are gone. -/
theorem requeueExpired_eq (h : readings.length = q.inFlight.entries.length) :
    ∃ d, q.requeueExpired readings = .ok
        { q with queue := ((q.expired readings).map fun e => e.2.1).reverse ++ q.queue, inFlight := d } ∧
      d.entries = q.inFlight.entries.filter (·.1 ∉ (q.expired readings).map Prod.fst) := by
  have hsub := (expired_sublist h).map Prod.fst
  obtain ⟨d, hd, he⟩ := Dict.foldlM_del (d := q.inFlight) (q.inFlight.nodup.sublist hsub) fun k hk => hsub.subset hk
  refine ⟨d, ?_, he⟩
  unfold requeueExpired
  rw [foldl_markExpired]
  simp only [List.nil_append]
  show (((q.expired readings).map Prod.fst).foldlM Dict.del q.inFlight).map _ = _
  rw [hd]
  rfl

end SimpleQueue

end TheGrind.MessageQueue
