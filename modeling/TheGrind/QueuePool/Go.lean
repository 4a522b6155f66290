import Mathlib.Data.Rat.Defs
import Mathlib.Algebra.Order.Ring.Rat
import TheGrind.QueuePool.Tracking

/-!
# Pool

The pool of the Go program, on a buffered channel. Goroutines get, execute and release, each releasing only what it
holds; one may call `Close`, which closes the channel and ranges over what is left in it. A panic ends the process.

* `newPool` : `NewPool`, which fills the channel;
* `pool` : the machine; a `Get` whose timer has fired and for which there is a connection may do either;
* `turns`, `tracks_step` : the pool is a rotation.
-/

namespace TheGrind.QueuePool.Go
open TheGrind.Sync TheGrind.Transition TheGrind.QueuePool

/-- `NewPool`: the connections are created and sent one after the other. -/
def newPool (size : Nat) : Option (Channel Nat) :=
  ((Channel.make Nat size).buffer.fill (List.range size)).map fun buffer => ⟨buffer, false⟩

/-- Where the call of `Close` is. -/
inductive Closing where
  | uncalled
  | ranging
  | closing (conn : Nat)
  | returned
  deriving DecidableEq

/-- The channel, when the timer of each `Get` in flight fires, what each goroutine holds, which connections are
closed. -/
structure State (τ : Type) where
  conns : Channel Nat
  poolSize : Nat
  clock : ℚ
  waiting : τ → Option ℚ
  held : τ → List Nat
  closed : Nat → Bool
  closing : Closing
  panicked : Bool

def State.init (τ : Type) (size : Nat) (conns : Channel Nat) : State τ where
  conns := conns
  poolSize := size
  clock := 0
  waiting _ := none
  held _ := []
  closed _ := false
  closing := .uncalled
  panicked := false

inductive Move (τ : Type) where
  | tick (now : ℚ)
  | get (t : τ)
  | receive (t : τ)
  | timeout (t : τ)
  | execute (t : τ) (conn : Nat)
  | release (t : τ) (conn : Nat)
  | close
  | closeNext

/-- What a call came to; `popped` is a connection that `Close` ranges over. -/
inductive Event (τ : Type) where
  | got (t : τ) (conn : Option Conn) (err : Option String)
  | executed (t : τ) (conn : Nat) (result : String)
  | released (t : τ) (conn : Nat)
  | popped (conn : Nat)
  | closeReturned
  | panicked (message : String)
  deriving DecidableEq

def nilDereference : String := "runtime error: invalid memory address or nil pointer dereference"

section Methods
variable {τ : Type} [DecidableEq τ]

def State.panic (s : State τ) (message : String) : Option (Event τ) × State τ :=
  (some (.panicked message), { s with panicked := true })

/-- `Get` starts its timer and waits. -/
def State.get (s : State τ) (t : τ) : Option (Option (Event τ) × State τ) :=
  if (s.waiting t).isSome then none
  else some (none, { s with waiting := Function.update s.waiting t (some (s.clock + 5)) })

/-- The case of `Get` that receives; it prints `conn.ID`, also of the `nil` of a closed channel. -/
def State.receive (s : State τ) (t : τ) : Option (Option (Event τ) × State τ) :=
  if (s.waiting t).isNone then none
  else
    match s.conns.receive with
    | .blocked => none
    | .received conn conns =>
      some (some (.got t (some ⟨conn, s.closed conn⟩) none),
        { s with
          conns := conns
          waiting := Function.update s.waiting t none
          held := Function.update s.held t (conn :: s.held t) })
    | .zero => some (s.panic nilDereference)

/-- The case of `Get` whose timer has fired. -/
def State.timeout (s : State τ) (t : τ) : Option (Option (Event τ) × State τ) :=
  match s.waiting t with
  | none => none
  | some deadline =>
    if deadline ≤ s.clock then
      some (some (.got t none (some ("no connection available within 5s (pool size: " ++ toString s.poolSize ++ ")"))),
        { s with waiting := Function.update s.waiting t none })
    else none

/-- `conn.Execute(sql)`; `counter` is `connCounter` when the pool was made. -/
def State.execute (counter : Nat) (s : State τ) (t : τ) (conn : Nat) : Option (Event τ) × State τ :=
  let id := counter + conn + 1
  if s.closed conn then s.panic ("conn-" ++ toString id ++ " is closed")
  else (some (.executed t conn ("result from conn-" ++ toString id)), s)

/-- `Release` sends the connection back. -/
def State.release (s : State τ) (t : τ) (conn : Nat) : Option (Option (Event τ) × State τ) :=
  match s.conns.send conn with
  | .blocked => none
  | .sent conns =>
    some (some (.released t conn), { s with conns := conns, held := Function.update s.held t ((s.held t).erase conn) })
  | .panic message => some (s.panic message)

/-- `Close` closes the channel. -/
def State.close (s : State τ) : Option (Event τ) × State τ :=
  match s.conns.close with
  | .error message => s.panic message
  | .ok conns => (none, { s with conns := conns, closing := .ranging })

/-- The loop of `Close`: a receive and `conn.Close()`. -/
def State.closeNext (s : State τ) : Option (Option (Event τ) × State τ) :=
  match s.closing with
  | .ranging =>
    match s.conns.receive with
    | .blocked => none
    | .received conn conns => some (some (.popped conn), { s with conns := conns, closing := .closing conn })
    | .zero => some (some .closeReturned, { s with closing := .returned })
  | .closing conn => some (none, { s with closed := Function.update s.closed conn true, closing := .ranging })
  | .uncalled | .returned => none

/-- A goroutine has no `Get` in flight and holds the connection. -/
def State.Holds (s : State τ) (t : τ) (conn : Nat) : Prop := (s.waiting t).isNone ∧ conn ∈ s.held t

instance (s : State τ) (t : τ) (conn : Nat) : Decidable (s.Holds t conn) :=
  inferInstanceAs (Decidable (_ ∧ _))

end Methods

/-- Goroutines `τ` on the pool, and one call of `Close`. -/
def pool (τ : Type) [DecidableEq τ] (counter : Nat) : Machine (State τ) (Move τ) (Option (Event τ)) where
  step s a :=
    if s.panicked then none
    else
      match a with
      | .tick now => if s.clock ≤ now then some (none, { s with clock := now }) else none
      | .get t => s.get t
      | .receive t => s.receive t
      | .timeout t => s.timeout t
      | .execute t conn => if s.Holds t conn then some (s.execute counter t conn) else none
      | .release t conn => if s.Holds t conn then s.release t conn else none
      | .close => if s.closing = .uncalled then some s.close else none
      | .closeNext => s.closeNext

/-- The steps, by what happens in them. -/
inductive Steps {τ : Type} [DecidableEq τ] (counter : Nat) (s : State τ) : Move τ → Option (Event τ) → State τ → Prop
  | tick {now : ℚ} : s.clock ≤ now → Steps counter s (.tick now) none { s with clock := now }
  | wait {t : τ} : Steps counter s (.get t) none { s with waiting := Function.update s.waiting t (some (s.clock + 5)) }
  | got {t : τ} {conn : Nat} {buffer : Bounded Nat} : s.conns.buffer.take = some (conn, buffer) →
      Steps counter s (.receive t) (some (.got t (some ⟨conn, s.closed conn⟩) none))
      { s with
        conns := { s.conns with buffer := buffer }
        waiting := Function.update s.waiting t none
        held := Function.update s.held t (conn :: s.held t) }
  | gotNil {t : τ} : s.conns.closed = true → s.conns.buffer.items = [] →
      Steps counter s (.receive t) (some (.panicked nilDereference)) { s with panicked := true }
  | timedOut {t : τ} {message : String} :
      Steps counter s (.timeout t) (some (.got t none (some message)))
      { s with waiting := Function.update s.waiting t none }
  | executed {t : τ} {conn : Nat} {result : String} : s.Holds t conn → s.closed conn = false →
      Steps counter s (.execute t conn) (some (.executed t conn result)) s
  | executedClosed {t : τ} {conn : Nat} {message : String} : s.Holds t conn → s.closed conn = true →
      Steps counter s (.execute t conn) (some (.panicked message)) { s with panicked := true }
  | released {t : τ} {conn : Nat} {buffer : Bounded Nat} : s.Holds t conn → s.conns.closed = false →
      s.conns.buffer.put conn = some buffer → Steps counter s (.release t conn) (some (.released t conn))
      { s with
        conns := { s.conns with buffer := buffer }
        held := Function.update s.held t ((s.held t).erase conn) }
  | releasedClosed {t : τ} {conn : Nat} {message : String} : s.Holds t conn → s.conns.closed = true →
      Steps counter s (.release t conn) (some (.panicked message)) { s with panicked := true }
  | close : s.closing = .uncalled → s.conns.closed = false →
      Steps counter s .close none { s with conns := { s.conns with closed := true }, closing := .ranging }
  | closeClosed {message : String} : s.closing = .uncalled → s.conns.closed = true →
      Steps counter s .close (some (.panicked message)) { s with panicked := true }
  | popped {conn : Nat} {buffer : Bounded Nat} : s.closing = .ranging → s.conns.buffer.take = some (conn, buffer) →
      Steps counter s .closeNext (some (.popped conn))
      { s with conns := { s.conns with buffer := buffer }, closing := .closing conn }
  | drained : s.closing = .ranging → s.conns.buffer.items = [] →
      Steps counter s .closeNext (some .closeReturned) { s with closing := .returned }
  | closed {conn : Nat} : s.closing = .closing conn → Steps counter s .closeNext none
      { s with closed := Function.update s.closed conn true, closing := .ranging }

theorem steps_of_step {τ : Type} [DecidableEq τ] {counter : Nat} {s s' : State τ} {a : Move τ} {o : Option (Event τ)}
    (hs : (pool τ counter).step s a = some (o, s')) : Steps counter s a o s' := by
  simp only [pool] at hs
  split at hs
  · cases hs
  cases a with
  | tick now =>
    obtain ⟨hle, heq⟩ := Option.ite_none_right_eq_some.mp hs
    cases heq
    exact .tick hle
  | get t =>
    simp only [State.get] at hs
    split at hs
    · cases hs
    · cases hs
      exact .wait
  | receive t =>
    simp only [State.receive] at hs
    split at hs
    · cases hs
    · rcases s.conns.receive_cases with ⟨conn, buffer, htake, hr⟩ | ⟨hnil, hclosed, hr⟩ | ⟨-, -, hr⟩
      · rw [hr] at hs
        cases hs
        exact .got htake
      · rw [hr] at hs
        cases hs
        exact .gotNil hclosed hnil
      · rw [hr] at hs
        cases hs
  | timeout t =>
    simp only [State.timeout] at hs
    split at hs
    · cases hs
    · split at hs
      · cases hs
        exact .timedOut
      · cases hs
  | execute t conn =>
    obtain ⟨hholds, heq⟩ := Option.ite_none_right_eq_some.mp hs
    simp only [State.execute] at heq
    split at heq
    · next hclosed =>
      cases heq
      exact .executedClosed hholds hclosed
    · next hopen =>
      cases heq
      exact .executed hholds (by simpa using hopen)
  | release t conn =>
    obtain ⟨hholds, heq⟩ := Option.ite_none_right_eq_some.mp hs
    unfold State.release at heq
    rcases s.conns.send_cases conn with ⟨hclosed, hr⟩ | ⟨-, -, hr⟩ | ⟨buffer, hopen, hput, hr⟩
    · rw [hr] at heq
      cases heq
      exact .releasedClosed hholds hclosed
    · rw [hr] at heq
      cases heq
    · rw [hr] at heq
      cases heq
      exact .released hholds hopen hput
  | close =>
    obtain ⟨huncalled, heq⟩ := Option.ite_none_right_eq_some.mp hs
    unfold State.close Channel.close at heq
    cases hclosed : s.conns.closed with
    | true =>
      rw [hclosed] at heq
      cases heq
      exact .closeClosed huncalled hclosed
    | false =>
      rw [hclosed] at heq
      cases heq
      exact .close huncalled hclosed
  | closeNext =>
    simp only [State.closeNext] at hs
    split at hs
    · next hclosing =>
      rcases s.conns.receive_cases with ⟨conn, buffer, htake, hr⟩ | ⟨hnil, -, hr⟩ | ⟨-, -, hr⟩
      · rw [hr] at hs
        cases hs
        exact .popped hclosing htake
      · rw [hr] at hs
        cases hs
        exact .drained hclosing hnil
      · rw [hr] at hs
        cases hs
    · next conn hclosing =>
      cases hs
      exact .closed hclosing
    · cases hs
    · cases hs

/-! ## The pool is a rotation -/

/-- The turn of a connection that an event tells of. -/
def Event.turn? {τ : Type} : Event τ → Option (Turn τ)
  | .got t (some conn) _ => some (.got t conn.number)
  | .released t conn => some (.released t conn)
  | .popped conn => some (.retired conn)
  | _ => none

def turns {τ : Type} (os : List (Option (Event τ))) : List (Turn τ) := os.filterMap (·.bind Event.turn?)

def Closing.hand : Closing → Option Nat
  | .closing conn => some conn
  | _ => none

variable {τ : Type} [DecidableEq τ] {counter size : Nat} {s s' : State τ} {a : Move τ} {o : Option (Event τ)}
  {r : Rotation τ}

/-- The channel is closed once `Close` has begun, and drained once it has returned. -/
structure State.Tracks (size : Nat) (s : State τ) (r : Rotation τ) : Prop where
  conns : QueuePool.Tracks size s.conns.buffer s.held s.closed s.closing.hand r
  closed : s.conns.closed = false ↔ s.closing = .uncalled
  drained : s.closing = .returned → s.conns.buffer.items = []

/-- `NewPool(size)` has a full channel. -/
theorem newPool_eq (size : Nat) : ∃ buffer, newPool size = some ⟨buffer, false⟩ ∧
    buffer.items = List.range size ∧ buffer.capacity = size := by
  obtain ⟨buffer, hfill, hitems, hcapacity⟩ := Bounded.fill_eq (q := (Channel.make Nat size).buffer)
    (l := List.range size) (by simp [Channel.make, Bounded.empty])
  refine ⟨buffer, ?_, hitems, hcapacity⟩
  unfold newPool
  rw [hfill]
  rfl

/-- Every step is a turn of a connection, or none. -/
theorem tracks_step (h : s.Tracks size r) (hs : Steps counter s a o s') :
    ∃ bs r', (rotation τ).run r bs = some ((o.bind Event.turn?).toList, r') ∧ s'.Tracks size r' := by
  have hconns := h.conns
  cases hs with
  | tick _ | wait | gotNil _ _ | timedOut | executed _ _ | executedClosed _ _ | releasedClosed _ _ | closeClosed _ _ =>
    exact rotation_rests ⟨h.conns, h.closed, h.drained⟩
  | got htake =>
    obtain ⟨r', hstep, h'⟩ := hconns.got htake _
    refine rotation_turns hstep ⟨h', h.closed, fun hret => ?_⟩
    have hitems := (Bounded.take_eq_some_iff.mp htake).1
    rw [h.drained hret] at hitems
    cases hitems
  | released hholds hopen hput =>
    obtain ⟨r', hstep, h'⟩ := hconns.released hholds.2 hput
    refine rotation_turns hstep ⟨h', h.closed, fun hret => ?_⟩
    have huncalled := h.closed.mp hopen
    rw [show s.closing = .returned from hret] at huncalled
    cases huncalled
  | close hclosing hopen =>
    rw [hclosing] at hconns
    exact rotation_rests ⟨hconns, by simp, by simp⟩
  | popped hclosing htake =>
    have hclosed := h.closed
    rw [hclosing] at hconns hclosed
    obtain ⟨r', hstep, h'⟩ := hconns.popped htake
    exact rotation_turns hstep ⟨h', hclosed.trans (by simp), by simp⟩
  | drained hclosing hnil =>
    have hclosed := h.closed
    rw [hclosing] at hconns hclosed
    exact rotation_rests ⟨hconns, hclosed.trans (by simp), fun _ => hnil⟩
  | closed hclosing =>
    have hclosed := h.closed
    rw [hclosing] at hconns hclosed
    exact rotation_rests ⟨hconns.close, hclosed.trans (by simp), by simp⟩

omit [DecidableEq τ] in
theorem tracks_init {conns : Channel Nat} (hnew : newPool size = some conns) :
    (State.init τ size conns).Tracks size (.init τ size) := by
  obtain ⟨buffer, hnew', hitems, hcapacity⟩ := newPool_eq size
  obtain rfl := Option.some.inj (hnew'.symm.trans hnew)
  exact ⟨.init hitems hcapacity, ⟨fun _ => rfl, fun _ => rfl⟩, fun hc => (by cases hc)⟩

/-- A run of the pool is a run of the rotation. -/
theorem tracks_run {conns : Channel Nat} {moves : List (Move τ)} {os : List (Option (Event τ))}
    (hnew : newPool size = some conns) (h : (pool τ counter).run (.init τ size conns) moves = some (os, s)) :
    ∃ bs r, (rotation τ).run (.init τ size) bs = some (turns os, r) ∧ s.Tracks size r := by
  unfold turns
  rw [List.filterMap_eq_flatMap_toList]
  exact Machine.run_simulates (R := State.Tracks size) (fun hR hs => tracks_step hR (steps_of_step hs))
    (tracks_init hnew) h

/-- Every state of a run tracks a rotation. -/
theorem exists_tracks_steps (h : ∃ r, s.Tracks size r) (hs : Steps counter s a o s') : ∃ r, s'.Tracks size r := by
  obtain ⟨r, hr⟩ := h
  obtain ⟨-, r', -, h'⟩ := tracks_step hr hs
  exact ⟨r', h'⟩

theorem exists_tracks_step (h : ∃ r, s.Tracks size r) (hs : (pool τ counter).step s a = some (o, s')) :
    ∃ r, s'.Tracks size r :=
  exists_tracks_steps h (steps_of_step hs)

end TheGrind.QueuePool.Go
