import Mathlib.Data.Rat.Defs
import Mathlib.Algebra.Order.Ring.Rat
import TheGrind.QueuePool.Tracking

/-!
# ConnectionPool

The pool of the Python program, on a `queue.Queue` whose operations are atomic. Worker threads get, execute and release,
each releasing only what it holds; one thread may call `close`, whose loop looks and takes in two operations.

* `ConnectionPool.new` : `__init__`, which fills the queue;
* `connectionPool` : the machine;
* `turns`, `tracks_step` : the pool is a rotation.
-/

namespace TheGrind.QueuePool.Python
open TheGrind.Sync TheGrind.Transition TheGrind.QueuePool

inductive Error where
  | valueError (message : String)
  | timeoutError (timeout : Option ℚ) (poolSize : Nat)
  | runtimeError (message : String)
  | empty
  deriving DecidableEq

/-- `__init__`: the connections are created and put one after the other. -/
def ConnectionPool.new (poolSize : Int) : Except Error (Option (Bounded Nat)) :=
  if poolSize ≤ 0 then .error (.valueError "pool_size must be positive")
  else .ok ((Bounded.empty Nat poolSize.toNat).fill (List.range poolSize.toNat))

/-- A `get_conn` that waits in `Queue.get`. -/
structure Waiting where
  timeout : Option ℚ
  since : ℚ

/-- The timeout has elapsed. -/
def Waiting.expired (w : Waiting) (now : ℚ) : Bool := w.timeout.any fun timeout => w.since + timeout ≤ now

/-- Where the call of `close` is. -/
inductive Closing where
  | uncalled
  | looking
  | popping
  | closing (conn : Nat)
  | returned
  | raised (error : Error)
  deriving DecidableEq

/-- The queue, the calls of `get_conn` in flight, what each thread holds, which connections are closed. -/
structure State (τ : Type) where
  pool : Bounded Nat
  clock : ℚ
  waiting : τ → Option Waiting
  held : τ → List Nat
  closed : Nat → Bool
  closing : Closing

def State.init (τ : Type) (pool : Bounded Nat) : State τ where
  pool := pool
  clock := 0
  waiting _ := none
  held _ := []
  closed _ := false
  closing := .uncalled

inductive Move (τ : Type) where
  | tick (now : ℚ)
  | getConn (t : τ) (timeout : Option ℚ)
  | get (t : τ)
  | execute (t : τ) (conn : Nat)
  | releaseConn (t : τ) (conn : Nat)
  | close
  | closeNext

/-- What a call came to; `popped` is the `get_nowait` of `close`. -/
inductive Event (τ : Type) where
  | got (t : τ) (conn : Conn)
  | getRaised (t : τ) (error : Error)
  | executed (t : τ) (conn : Nat) (result : Except Error String)
  | released (t : τ) (conn : Nat)
  | popped (conn : Nat)
  | closeReturned
  | closeRaised (error : Error)
  deriving DecidableEq

section Methods
variable {τ : Type} [DecidableEq τ]

/-- `get_conn` calls `Queue.get`. -/
def State.getConn (s : State τ) (t : τ) (timeout : Option ℚ) : Option (Option (Event τ) × State τ) :=
  if (s.waiting t).isSome then none
  else if timeout.any (· < 0) then
    some (some (.getRaised t (.valueError "'timeout' must be a non-negative number")), s)
  else some (none, { s with waiting := Function.update s.waiting t (some ⟨timeout, s.clock⟩) })

/-- `Queue.get` takes the next connection, or raises when its timeout has elapsed and there is none. -/
def State.get (s : State τ) (t : τ) : Option (Option (Event τ) × State τ) :=
  match s.waiting t with
  | none => none
  | some w =>
    match s.pool.take with
    | some (conn, pool) =>
      some (some (.got t ⟨conn, s.closed conn⟩),
        { s with
          pool := pool
          waiting := Function.update s.waiting t none
          held := Function.update s.held t (conn :: s.held t) })
    | none =>
      if w.expired s.clock then
        some (some (.getRaised t (.timeoutError w.timeout s.pool.capacity)),
          { s with waiting := Function.update s.waiting t none })
      else none

/-- `conn.execute(sql)`; `counter` is `FakeConnection._counter` when the pool was made. -/
def State.execute (counter : Nat) (s : State τ) (conn : Nat) : Except Error String :=
  let id := counter + conn + 1
  if s.closed conn then .error (.runtimeError ("conn-" ++ toString id ++ " is closed"))
  else .ok ("result from conn-" ++ toString id)

/-- `release_conn` puts the connection back. -/
def State.releaseConn (s : State τ) (t : τ) (conn : Nat) : Option (Option (Event τ) × State τ) :=
  match s.pool.put conn with
  | none => none
  | some pool =>
    some (some (.released t conn), { s with pool := pool, held := Function.update s.held t ((s.held t).erase conn) })

/-- The loop of `close`: `empty`, `get_nowait` and `conn.close()`. -/
def State.closeNext (s : State τ) : Option (Option (Event τ) × State τ) :=
  match s.closing with
  | .looking =>
    if s.pool.items.isEmpty then some (some .closeReturned, { s with closing := .returned })
    else some (none, { s with closing := .popping })
  | .popping =>
    match s.pool.take with
    | none => some (some (.closeRaised .empty), { s with closing := .raised .empty })
    | some (conn, pool) => some (some (.popped conn), { s with pool := pool, closing := .closing conn })
  | .closing conn => some (none, { s with closed := Function.update s.closed conn true, closing := .looking })
  | .uncalled | .returned | .raised _ => none

/-- A thread has no `get_conn` in flight and holds the connection. -/
def State.Holds (s : State τ) (t : τ) (conn : Nat) : Prop := (s.waiting t).isNone ∧ conn ∈ s.held t

instance (s : State τ) (t : τ) (conn : Nat) : Decidable (s.Holds t conn) :=
  inferInstanceAs (Decidable (_ ∧ _))

end Methods

/-- Worker threads `τ` on the pool, and one call of `close`. -/
def connectionPool (τ : Type) [DecidableEq τ] (counter : Nat) : Machine (State τ) (Move τ) (Option (Event τ)) where
  step s
    | .tick now => if s.clock ≤ now then some (none, { s with clock := now }) else none
    | .getConn t timeout => s.getConn t timeout
    | .get t => s.get t
    | .execute t conn => if s.Holds t conn then some (some (.executed t conn (s.execute counter conn)), s) else none
    | .releaseConn t conn => if s.Holds t conn then s.releaseConn t conn else none
    | .close => if s.closing = .uncalled then some (none, { s with closing := .looking }) else none
    | .closeNext => s.closeNext

/-- The steps, by what happens in them. -/
inductive Steps {τ : Type} [DecidableEq τ] (counter : Nat) (s : State τ) : Move τ → Option (Event τ) → State τ → Prop
  | tick {now : ℚ} : s.clock ≤ now → Steps counter s (.tick now) none { s with clock := now }
  | refused {t : τ} {timeout : Option ℚ} : Steps counter s (.getConn t timeout)
      (some (.getRaised t (.valueError "'timeout' must be a non-negative number"))) s
  | wait {t : τ} {timeout : Option ℚ} : s.waiting t = none → Steps counter s (.getConn t timeout) none
      { s with waiting := Function.update s.waiting t (some ⟨timeout, s.clock⟩) }
  | got {t : τ} {w : Waiting} {conn : Nat} {pool : Bounded Nat} : s.waiting t = some w →
      s.pool.take = some (conn, pool) → Steps counter s (.get t) (some (.got t ⟨conn, s.closed conn⟩))
      { s with
        pool := pool
        waiting := Function.update s.waiting t none
        held := Function.update s.held t (conn :: s.held t) }
  | timedOut {t : τ} {w : Waiting} : s.waiting t = some w → s.pool.items = [] → w.expired s.clock = true →
      Steps counter s (.get t) (some (.getRaised t (.timeoutError w.timeout s.pool.capacity)))
      { s with waiting := Function.update s.waiting t none }
  | executed {t : τ} {conn : Nat} : s.Holds t conn →
      Steps counter s (.execute t conn) (some (.executed t conn (s.execute counter conn))) s
  | released {t : τ} {conn : Nat} {pool : Bounded Nat} : s.Holds t conn → s.pool.put conn = some pool →
      Steps counter s (.releaseConn t conn) (some (.released t conn))
      { s with pool := pool, held := Function.update s.held t ((s.held t).erase conn) }
  | close : s.closing = .uncalled → Steps counter s .close none { s with closing := .looking }
  | lookedEmpty : s.closing = .looking → s.pool.items = [] →
      Steps counter s .closeNext (some .closeReturned) { s with closing := .returned }
  | looked : s.closing = .looking → s.pool.items ≠ [] → Steps counter s .closeNext none { s with closing := .popping }
  | poppedEmpty : s.closing = .popping → s.pool.items = [] →
      Steps counter s .closeNext (some (.closeRaised .empty)) { s with closing := .raised .empty }
  | popped {conn : Nat} {pool : Bounded Nat} : s.closing = .popping → s.pool.take = some (conn, pool) →
      Steps counter s .closeNext (some (.popped conn)) { s with pool := pool, closing := .closing conn }
  | closed {conn : Nat} : s.closing = .closing conn → Steps counter s .closeNext none
      { s with closed := Function.update s.closed conn true, closing := .looking }

theorem steps_of_step {τ : Type} [DecidableEq τ] {counter : Nat} {s s' : State τ} {a : Move τ} {o : Option (Event τ)}
    (hs : (connectionPool τ counter).step s a = some (o, s')) : Steps counter s a o s' := by
  cases a with
  | tick now =>
    obtain ⟨hle, heq⟩ := Option.ite_none_right_eq_some.mp hs
    cases heq
    exact .tick hle
  | getConn t timeout =>
    simp only [connectionPool, State.getConn] at hs
    split at hs
    · cases hs
    · next hw =>
      split at hs
      · cases hs
        exact .refused
      · cases hs
        exact .wait (by simpa using hw)
  | get t =>
    simp only [connectionPool, State.get] at hs
    split at hs
    · cases hs
    · next w hw =>
      split at hs
      · next conn pool htake =>
        cases hs
        exact .got hw htake
      · next htake =>
        split at hs
        · next hexpired =>
          cases hs
          exact .timedOut hw (Bounded.take_eq_none_iff.mp htake) hexpired
        · cases hs
  | execute t conn =>
    obtain ⟨hholds, heq⟩ := Option.ite_none_right_eq_some.mp hs
    cases heq
    exact .executed hholds
  | releaseConn t conn =>
    obtain ⟨hholds, heq⟩ := Option.ite_none_right_eq_some.mp hs
    unfold State.releaseConn at heq
    split at heq
    · cases heq
    · next pool hput =>
      cases heq
      exact .released hholds hput
  | close =>
    obtain ⟨huncalled, heq⟩ := Option.ite_none_right_eq_some.mp hs
    cases heq
    exact .close huncalled
  | closeNext =>
    simp only [connectionPool, State.closeNext] at hs
    split at hs
    · next hclosing =>
      split at hs
      · next hempty =>
        cases hs
        exact .lookedEmpty hclosing (List.isEmpty_iff.mp hempty)
      · next hempty =>
        cases hs
        exact .looked hclosing fun hnil => hempty (List.isEmpty_iff.mpr hnil)
    · next hclosing =>
      split at hs
      · next htake =>
        cases hs
        exact .poppedEmpty hclosing (Bounded.take_eq_none_iff.mp htake)
      · next conn pool htake =>
        cases hs
        exact .popped hclosing htake
    · next conn hclosing =>
      cases hs
      exact .closed hclosing
    · cases hs
    · cases hs
    · cases hs

/-! ## The pool is a rotation -/

/-- The turn of a connection that an event tells of. -/
def Event.turn? {τ : Type} : Event τ → Option (Turn τ)
  | .got t conn => some (.got t conn.number)
  | .released t conn => some (.released t conn)
  | .popped conn => some (.retired conn)
  | _ => none

def turns {τ : Type} (os : List (Option (Event τ))) : List (Turn τ) := os.filterMap (·.bind Event.turn?)

def Closing.hand : Closing → Option Nat
  | .closing conn => some conn
  | _ => none

variable {τ : Type} [DecidableEq τ] {counter size : Nat} {s s' : State τ} {a : Move τ} {o : Option (Event τ)}
  {r : Rotation τ}

def State.Tracks (size : Nat) (s : State τ) (r : Rotation τ) : Prop :=
  QueuePool.Tracks size s.pool s.held s.closed s.closing.hand r

/-- `ConnectionPool(pool_size)` has a full queue. -/
theorem new_eq (h : 0 < size) : ∃ pool, ConnectionPool.new size = .ok (some pool) ∧
    pool.items = List.range size ∧ pool.capacity = size := by
  obtain ⟨pool, hfill, hitems, hcapacity⟩ := Bounded.fill_eq (q := .empty Nat size) (l := List.range size)
    (by simp [Bounded.empty])
  refine ⟨pool, ?_, hitems, hcapacity⟩
  unfold ConnectionPool.new
  rw [if_neg (by omega), Int.toNat_natCast, hfill]

/-- Every step is a turn of a connection, or none. -/
theorem tracks_step (h : s.Tracks size r) (hs : Steps counter s a o s') :
    ∃ bs r', (rotation τ).run r bs = some ((o.bind Event.turn?).toList, r') ∧ s'.Tracks size r' := by
  unfold State.Tracks at h
  cases hs with
  | tick _ | refused | wait _ | timedOut _ _ _ | executed _ => exact rotation_rests h
  | got hw htake =>
    obtain ⟨r', hstep, h'⟩ := h.got htake _
    exact rotation_turns hstep h'
  | released hholds hput =>
    obtain ⟨r', hstep, h'⟩ := h.released hholds.2 hput
    exact rotation_turns hstep h'
  | close hclosing | lookedEmpty hclosing _ | looked hclosing _ | poppedEmpty hclosing _ =>
    rw [hclosing] at h
    exact rotation_rests h
  | popped hclosing htake =>
    rw [hclosing] at h
    obtain ⟨r', hstep, h'⟩ := h.popped htake
    exact rotation_turns hstep h'
  | closed hclosing =>
    rw [hclosing] at h
    exact rotation_rests h.close

omit [DecidableEq τ] in
theorem tracks_init {pool : Bounded Nat} (hnew : ConnectionPool.new size = .ok (some pool)) :
    (State.init τ pool).Tracks size (.init τ size) := by
  have hsize : 0 < size := by
    by_contra hzero
    unfold ConnectionPool.new at hnew
    rw [if_pos (by omega)] at hnew
    cases hnew
  obtain ⟨pool', hnew', hitems, hcapacity⟩ := new_eq hsize
  obtain rfl : pool' = pool := Option.some.inj (Except.ok.inj (hnew'.symm.trans hnew))
  exact .init hitems hcapacity

/-- A run of the pool is a run of the rotation. -/
theorem tracks_run {pool : Bounded Nat} {moves : List (Move τ)} {os : List (Option (Event τ))}
    (hnew : ConnectionPool.new size = .ok (some pool))
    (h : (connectionPool τ counter).run (.init τ pool) moves = some (os, s)) :
    ∃ bs r, (rotation τ).run (.init τ size) bs = some (turns os, r) ∧ s.Tracks size r := by
  unfold turns
  rw [List.filterMap_eq_flatMap_toList]
  exact Machine.run_simulates (R := State.Tracks size) (fun hR hs => tracks_step hR (steps_of_step hs))
    (tracks_init hnew) h

/-- Every state of a run tracks a rotation. -/
theorem exists_tracks_steps (h : ∃ r, s.Tracks size r) (hs : Steps counter s a o s') : ∃ r, s'.Tracks size r := by
  obtain ⟨r, hr⟩ := h
  obtain ⟨-, r', -, h'⟩ := tracks_step hr hs
  exact ⟨r', h'⟩

theorem exists_tracks_step (h : ∃ r, s.Tracks size r) (hs : (connectionPool τ counter).step s a = some (o, s')) :
    ∃ r, s'.Tracks size r :=
  exists_tracks_steps h (steps_of_step hs)

end TheGrind.QueuePool.Python
