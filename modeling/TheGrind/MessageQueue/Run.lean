import TheGrind.Transition.Machine
import TheGrind.MessageQueue.Queue

/-!
# Runs of a SimpleQueue

Threads `τ` call the operations of one `SimpleQueue`; a critical section is one step, since the one lock is held
throughout. A publish draws a uuid that was not drawn before. Clock readings come with the moves, so the clock is
arbitrary unless a result asks for `Clocked` outputs.

* `simpleQueue` : the machine, with what each call returned as its output;
* `Steps`, `step_steps` : the six things a step can do.
-/

namespace TheGrind.MessageQueue
open TheGrind.Data TheGrind.Transition

/-- A call whose critical section runs, with the uuid and the clock readings it draws. -/
inductive Move (τ : Type) where
  | publish (thread : τ) (id body : String)
  | receive (thread : τ) (now : ℚ)
  | ack (thread : τ) (messageId : String) (now : ℚ)
  | requeueExpired (thread : τ) (readings : List ℚ)
  deriving DecidableEq

/-- What a call did. -/
inductive Event (τ : Type) where
  | published (thread : τ) (message : Message)
  | received (thread : τ) (message : Message) (now : ℚ)
  | gaveUp (thread : τ)
  | acked (thread : τ) (messageId : String) (now : ℚ)
  | raised (thread : τ) (error : KeyError String) (now : List ℚ)
  | requeued (thread : τ) (readings : List ℚ)
  deriving DecidableEq

/-- A queue and the uuids drawn so far. -/
structure World where
  q : SimpleQueue
  issued : List String
  deriving DecidableEq

def World.init (visibilityTimeout : ℚ) : World := ⟨.init visibilityTimeout, []⟩

/-- One `SimpleQueue` under any number of threads. -/
def simpleQueue (τ : Type) : Machine World (Move τ) (Event τ) where
  step w
    | .publish c id body =>
      if id ∈ w.issued then none
      else
        let r := w.q.publish id body
        some (.published c r.1, ⟨r.2, w.issued ++ [id]⟩)
    | .receive c now =>
      match w.q.receive now with
      | none => some (.gaveUp c, w)
      | some (message, q) => some (.received c message now, ⟨q, w.issued⟩)
    | .ack c messageId now =>
      match w.q.ack messageId with
      | .error e => some (.raised c e [now], w)
      | .ok q => some (.acked c messageId now, ⟨q, w.issued⟩)
    | .requeueExpired c readings =>
      if readings.length = w.q.inFlight.entries.length then
        match w.q.requeueExpired readings with
        | .error e => some (.raised c e readings, w)
        | .ok q => some (.requeued c readings, ⟨q, w.issued⟩)
      else none

variable {τ : Type} {w w' : World} {a : Move τ} {o : Event τ}

/-- What a step can do. -/
inductive Steps (w : World) : Event τ → World → Prop
  | published {c : τ} {m : Message} : m.id ∉ w.issued →
      Steps w (.published c m) ⟨{ w.q with queue := w.q.queue ++ [m] }, w.issued ++ [m.id]⟩
  | received {c : τ} {m : Message} {now : ℚ} {rest : List Message} : w.q.queue = m :: rest →
      Steps w (.received c m now)
        ⟨{ w.q with queue := rest, inFlight := w.q.inFlight.set m.id (m, now) }, w.issued⟩
  | gaveUp {c : τ} : w.q.queue = [] → Steps w (.gaveUp c) w
  | acked {c : τ} {id : String} {now : ℚ} : id ∈ w.q.inFlight.keys →
      Steps w (.acked c id now) ⟨{ w.q with inFlight := w.q.inFlight.erase id }, w.issued⟩
  | raised {c : τ} {id : String} {now : ℚ} : id ∉ w.q.inFlight.keys → Steps w (.raised c ⟨id⟩ [now]) w
  | requeued {c : τ} {readings : List ℚ} {d : InFlight} : readings.length = w.q.inFlight.entries.length →
      d.entries = w.q.inFlight.entries.filter (·.1 ∉ (w.q.expired readings).map Prod.fst) →
      Steps w (.requeued c readings)
        ⟨{ w.q with queue := ((w.q.expired readings).map fun e => e.2.1).reverse ++ w.q.queue, inFlight := d },
          w.issued⟩

/-- An ack of an id that is not in flight raises `KeyError` and changes nothing. -/
theorem step_ack_of_not_mem {c : τ} {id : String} {now : ℚ} (h : id ∉ w.q.inFlight.keys) :
    (simpleQueue τ).step w (.ack c id now) = some (.raised c ⟨id⟩ [now], w) := by
  simp only [simpleQueue, SimpleQueue.ack_of_not_mem h]

theorem step_ack_of_mem {c : τ} {id : String} {now : ℚ} (h : id ∈ w.q.inFlight.keys) :
    (simpleQueue τ).step w (.ack c id now) =
      some (.acked c id now, ⟨{ w.q with inFlight := w.q.inFlight.erase id }, w.issued⟩) := by
  simp only [simpleQueue, SimpleQueue.ack_of_mem h]

theorem step_steps (h : (simpleQueue τ).step w a = some (o, w')) : Steps w o w' := by
  cases a with
  | publish c id body =>
    simp only [simpleQueue] at h
    split at h
    · cases h
    · next hid =>
      cases h
      exact .published (m := ⟨id, body⟩) hid
  | receive c now =>
    simp only [simpleQueue] at h
    split at h
    · next hr =>
      cases h
      exact .gaveUp (SimpleQueue.receive_eq_none_iff.mp hr)
    · next message q hr =>
      cases h
      obtain ⟨rest, hq, rfl⟩ := SimpleQueue.receive_eq_some_iff.mp hr
      exact .received hq
  | ack c id now =>
    by_cases hid : id ∈ w.q.inFlight.keys
    · rw [step_ack_of_mem hid] at h
      cases h
      exact .acked hid
    · rw [step_ack_of_not_mem hid] at h
      cases h
      exact .raised hid
  | requeueExpired c readings =>
    simp only [simpleQueue] at h
    split at h
    · next hlen =>
      obtain ⟨d, hd, he⟩ := SimpleQueue.requeueExpired_eq hlen
      rw [hd] at h
      cases h
      exact .requeued hlen he
    · cases h

end TheGrind.MessageQueue
