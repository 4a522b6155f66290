import Mathlib.Data.List.Basic

/-!
# Bounded queues and channels

* `Bounded` : a queue of at most `capacity` items, which leave it in the order in which they came;
* `Bounded.put`, `Bounded.take` : one item in, one item out; `none` when the caller has to wait;
* `Channel` : a buffered channel of Go, with what becomes of a send, a receive and a close.
-/

namespace TheGrind.Sync

/-- At most `capacity` items, the next to leave first. -/
structure Bounded (α : Type*) where
  items : List α
  capacity : Nat
  length_le : items.length ≤ capacity

namespace Bounded
variable {α : Type*} {q r : Bounded α} {x : α} {l : List α}

def empty (α : Type*) (capacity : Nat) : Bounded α := ⟨[], capacity, Nat.zero_le _⟩

/-- A full queue takes no item. -/
def put (q : Bounded α) (x : α) : Option (Bounded α) :=
  if h : q.items.length < q.capacity then
    some ⟨q.items ++ [x], q.capacity, by rw [List.length_append]; exact h⟩
  else none

/-- An empty queue gives no item. -/
def take (q : Bounded α) : Option (α × Bounded α) :=
  match h : q.items with
  | [] => none
  | x :: items => some (x, ⟨items, q.capacity, Nat.le_of_succ_le (by simpa [h] using q.length_le)⟩)

/-- One item after the other is put. -/
def fill (q : Bounded α) : List α → Option (Bounded α)
  | [] => some q
  | x :: l => (q.put x).bind (·.fill l)

theorem put_eq_some_iff :
    q.put x = some r ↔ q.items.length < q.capacity ∧ r.items = q.items ++ [x] ∧ r.capacity = q.capacity := by
  unfold put
  by_cases h : q.items.length < q.capacity
  · rw [dif_pos h, Option.some.injEq]
    constructor
    · rintro rfl
      exact ⟨h, rfl, rfl⟩
    · rintro ⟨-, hitems, hcapacity⟩
      cases r
      cases hitems
      cases hcapacity
      rfl
  · rw [dif_neg h]
    constructor
    · intro hr
      cases hr
    · exact fun hr => absurd hr.1 h

theorem exists_put (h : q.items.length < q.capacity) (x : α) : ∃ r, q.put x = some r := by
  unfold put
  rw [dif_pos h]
  exact ⟨_, rfl⟩

theorem take_eq_some_iff : q.take = some (x, r) ↔ q.items = x :: r.items ∧ r.capacity = q.capacity := by
  unfold take
  constructor
  · intro h
    split at h
    · cases h
    · next hq =>
      cases h
      exact ⟨hq, rfl⟩
  · rintro ⟨hitems, hcapacity⟩
    split
    · next hq =>
      rw [hq] at hitems
      cases hitems
    · next y items hq =>
      rw [hq] at hitems
      obtain ⟨rfl, rfl⟩ := List.cons.inj hitems
      cases r
      cases hcapacity
      rfl

theorem take_eq_none_iff : q.take = none ↔ q.items = [] := by
  unfold take
  constructor
  · intro h
    split at h
    · next hq => exact hq
    · cases h
  · intro h
    split
    · rfl
    · next hq =>
      rw [h] at hq
      cases hq

/-- Items for which there is room are put in order. -/
theorem fill_eq (h : q.items.length + l.length ≤ q.capacity) :
    ∃ r, q.fill l = some r ∧ r.items = q.items ++ l ∧ r.capacity = q.capacity := by
  induction l generalizing q with
  | nil => exact ⟨q, rfl, (List.append_nil _).symm, rfl⟩
  | cons x l ih =>
    rw [List.length_cons] at h
    obtain ⟨m, hm⟩ := exists_put (q := q) (by omega) x
    obtain ⟨-, hitems, hcapacity⟩ := put_eq_some_iff.mp hm
    obtain ⟨r, hr, hitems', hcapacity'⟩ := ih (q := m) (by rw [hitems, hcapacity, List.length_append]; simp; omega)
    refine ⟨r, ?_, ?_, hcapacity'.trans hcapacity⟩
    · unfold fill
      rw [hm]
      exact hr
    · rw [hitems', hitems, List.append_assoc]
      rfl

end Bounded

/-- A channel with a buffer. -/
structure Channel (α : Type*) where
  buffer : Bounded α
  closed : Bool

/-- What becomes of a send. -/
inductive Send (α : Type*) where
  | blocked
  | sent (channel : Channel α)
  | panic (message : String)

/-- What becomes of a receive; a closed channel gives zero values once its buffer is empty. -/
inductive Receive (α : Type*) where
  | blocked
  | received (value : α) (channel : Channel α)
  | zero

namespace Channel
variable {α : Type*}

def make (α : Type*) (size : Nat) : Channel α := ⟨.empty α size, false⟩

def send (ch : Channel α) (x : α) : Send α :=
  if ch.closed then .panic "send on closed channel"
  else
    match ch.buffer.put x with
    | none => .blocked
    | some buffer => .sent { ch with buffer := buffer }

def receive (ch : Channel α) : Receive α :=
  match ch.buffer.take with
  | some (x, buffer) => .received x { ch with buffer := buffer }
  | none => if ch.closed then .zero else .blocked

/-- `close(ch)`; a channel is closed once. -/
def close (ch : Channel α) : Except String (Channel α) :=
  if ch.closed then .error "close of closed channel" else .ok { ch with closed := true }

variable {ch ch' : Channel α} {x : α}

theorem receive_cases (ch : Channel α) :
    (∃ x buffer, ch.buffer.take = some (x, buffer) ∧ ch.receive = .received x { ch with buffer := buffer }) ∨
      (ch.buffer.items = [] ∧ ch.closed = true ∧ ch.receive = .zero) ∨
      (ch.buffer.items = [] ∧ ch.closed = false ∧ ch.receive = .blocked) := by
  unfold receive
  cases h : ch.buffer.take with
  | some r => exact Or.inl ⟨r.1, r.2, rfl, rfl⟩
  | none =>
    have hnil := Bounded.take_eq_none_iff.mp h
    cases hc : ch.closed with
    | true => exact Or.inr (Or.inl ⟨hnil, rfl, rfl⟩)
    | false => exact Or.inr (Or.inr ⟨hnil, rfl, rfl⟩)

theorem send_cases (ch : Channel α) (x : α) :
    (ch.closed = true ∧ ch.send x = .panic "send on closed channel") ∨
      (ch.closed = false ∧ ch.buffer.put x = none ∧ ch.send x = .blocked) ∨
      ∃ buffer, ch.closed = false ∧ ch.buffer.put x = some buffer ∧ ch.send x = .sent { ch with buffer := buffer } := by
  unfold send
  cases hc : ch.closed with
  | true => exact Or.inl ⟨rfl, rfl⟩
  | false =>
    cases h : ch.buffer.put x with
    | none => exact Or.inr (Or.inl ⟨rfl, rfl, rfl⟩)
    | some buffer => exact Or.inr (Or.inr ⟨buffer, rfl, rfl, rfl⟩)

end Channel

end TheGrind.Sync
