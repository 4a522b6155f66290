import Mathlib
import TheGrind.Data.Partition
import TheGrind.Sync.Monitor

/-!
# SimpleConnectionPool

`borrow` and `return_conn` of `SimpleConnectionPool` as a monitor (`code`): one point for each step between taking the
lock and giving it up, with the loop around `wait` and its timeout. Which connections a thread may return is up to its
caller; `holding` callers return only what they hold.

* `ownership` : the proof outline, for `holding` callers. Every connection is in the pool or with one thread, and `pop`
  finds one;
* `exclusive_ownership` : what follows in every reachable state, and for a borrow that raises `TimeoutError`.
-/

namespace TheGrind.ConnectionPool
open TheGrind.Data TheGrind.Transition TheGrind.Sync

/-- `self.pool`, its right end last, and what each thread holds. -/
structure SimplePool (τ : Type) where
  pool : List String
  held : τ → List String

/-- `[f"conn_{i}" for i in range(size)]` -/
def connections (size : Nat) : List String := (List.range size).map fun i => "conn_" ++ toString i

def SimplePool.init (τ : Type) (size : Nat) : SimplePool τ := ⟨connections size, fun _ => []⟩

/-- The points of the methods. -/
inductive Point where
  | outside
  | borrow (timeout : Option ℚ)
  | check (timeout : Option ℚ)
  | wait (timeout : Option ℚ)
  | waited (timeout : Option ℚ) (notified : Bool)
  | raise
  | pop
  | returnConn (conn : String)
  | append (conn : String)
  | notify
  | leave
  deriving DecidableEq

inductive Error where
  | timeoutError (message : String)
  | indexError (message : String)
  deriving DecidableEq, Repr

/-- What a call did. -/
inductive Outcome (τ : Type) where
  | borrowed (thread : τ) (conn : String)
  | returned (thread : τ) (conn : String)
  | raised (thread : τ) (error : Error)
  deriving DecidableEq

variable {τ : Type} [DecidableEq τ]

/-- `self.pool.pop()` -/
def pop (t : τ) (d : SimplePool τ) : Outcome τ × SimplePool τ :=
  match d.pool.getLast? with
  | none => (.raised t (.indexError "pop from empty list"), d)
  | some conn => (.borrowed t conn, ⟨d.pool.dropLast, Function.update d.held t (conn :: d.held t)⟩)

/-- `self.pool.append(conn)` -/
def append (conn : String) (t : τ) (d : SimplePool τ) : SimplePool τ :=
  ⟨d.pool ++ [conn], Function.update d.held t ((d.held t).erase conn)⟩

def code : Point → Instr τ Point (SimplePool τ) Unit (Outcome τ)
  | .outside => .idle
  | .borrow timeout => .acquire (.check timeout)
  | .check timeout => .act fun _ _ _ d => some (none, d, if d.pool.length = 0 then .wait timeout else .pop)
  | .wait timeout => .wait timeout (.waited timeout)
  | .waited timeout notified => .act fun _ _ _ d => some (none, d, if notified then .check timeout else .raise)
  | .raise => .release (fun t => some (.raised t (.timeoutError "No connection available"))) .outside
  | .pop => .act fun t _ _ d => some (some (pop t d).1, (pop t d).2, .leave)
  | .returnConn conn => .acquire (.append conn)
  | .append conn => .act fun t _ _ d => some (some (.returned t conn), append conn t d, .notify)
  | .notify => .notify .leave
  | .leave => .release (fun _ => none) .outside

/-- A thread borrows, or returns a connection, if its caller lets it: `return_conn` checks nothing. -/
def entry (may : τ → SimplePool τ → String → Bool) (t : τ) (d : SimplePool τ) : Point → Bool
  | .borrow _ => true
  | .returnConn conn => may t d conn
  | _ => false

/-- Callers that return only what they hold. -/
def holding {τ : Type} (t : τ) (d : SimplePool τ) (conn : String) : Bool := conn ∈ d.held t

/-- The methods, as a program of the monitor. -/
def program (τ : Type) [DecidableEq τ] (may : τ → SimplePool τ → String → Bool) :
    Program τ Point (SimplePool τ) Unit (Outcome τ) where
  code := code
  entry := entry may
  flows p := by
    cases p with
    | check timeout =>
      intro t now _ d o d' q h
      cases h
      split <;> exact trivial
    | wait timeout => exact fun _ => trivial
    | waited timeout notified =>
      intro t now _ d o d' q h
      cases h
      split <;> exact trivial
    | pop | append _ =>
      intro t now _ d o d' q h
      cases h
      exact trivial
    | raise | leave => exact fun h => h
    | outside | borrow _ | returnConn _ | notify => exact trivial
  entry_flows t d p h := by
    cases p with
    | borrow _ | returnConn _ => exact fun hl => hl
    | outside | check _ | wait _ | waited _ _ | raise | pop | append _ | notify | leave => cases h

/-- A pool with all threads outside. -/
def start (τ : Type) [DecidableEq τ] (size : Nat) : Monitor τ Point (SimplePool τ) :=
  .init (.init τ size) .outside

/-! ## Every connection has one place -/

/-- The pool, and the threads. -/
def contents (d : SimplePool τ) : Option τ → List String
  | none => d.pool
  | some t => d.held t

theorem nodup_connections (size : Nat) : (connections size).Nodup := by
  apply List.nodup_range.map
  intro i j hij
  have hrepr : toString i = toString j := (String.append_right_inj "conn_").mp hij
  exact Nat.repr_inj.mp hrepr

def Owned (size : Nat) (d : SimplePool τ) : Prop := Partition {conn | conn ∈ connections size} (contents d)

omit [DecidableEq τ] in
theorem owned_init (size : Nat) : Owned size (SimplePool.init τ size) := by
  have hrest : ∀ r, r ≠ none → contents (SimplePool.init τ size) r = [] := by
    intro r hr
    cases r with
    | none => exact absurd rfl hr
    | some t => rfl
  exact Partition.init (C := contents (SimplePool.init τ size)) none (nodup_connections size) hrest

variable {size : Nat} {d : SimplePool τ} {t : τ} {conn : String}

theorem Owned.pop (h : Owned size d) : Owned size (pop t d).2 := by
  unfold ConnectionPool.pop
  split
  · exact h
  · next conn hlast =>
    refine h.move_one (p := none) (q := some t) (c := conn) (by simp) ?_ ?_ fun r hr hr' => ?_
    · show d.pool.Perm (conn :: d.pool.dropLast)
      have hpool : d.pool.dropLast ++ [conn] = d.pool := List.dropLast_append_getLast? conn hlast
      have hperm := List.perm_append_singleton conn d.pool.dropLast
      rwa [hpool] at hperm
    · show (Function.update d.held t (conn :: d.held t) t).Perm (conn :: d.held t)
      rw [Function.update_self]
    · cases r with
      | none => exact absurd rfl hr
      | some u => exact Function.update_of_ne (fun hu => hr' (congrArg some hu)) _ _

theorem Owned.append (h : Owned size d) (hconn : conn ∈ d.held t) : Owned size (append conn t d) := by
  refine h.move_one (p := some t) (q := none) (c := conn) (by simp) ?_ ?_ fun r hr hr' => ?_
  · show (d.held t).Perm (conn :: Function.update d.held t ((d.held t).erase conn) t)
    rw [Function.update_self]
    exact List.perm_cons_erase hconn
  · exact List.perm_append_singleton conn d.pool
  · cases r with
    | none => exact absurd rfl hr'
    | some u => exact Function.update_of_ne (fun hu => hr (congrArg some hu)) _ _

/-- What a thread knows at a point with the lock. -/
def AtPoint (t : τ) (d : SimplePool τ) : Point → Prop
  | .pop => d.pool ≠ []
  | .append conn => conn ∈ d.held t
  | _ => True

/-- What a thread knows without the lock. -/
def OffLock (t : τ) (d : SimplePool τ) : Point → Prop
  | .returnConn conn => conn ∈ d.held t
  | _ => True

/-- Every connection is in one place; a thread that returns a connection holds it, and `pop` finds one. -/
def ownership (size : Nat) : Outline τ Point (SimplePool τ) where
  free d _ := Owned size d
  held t p d _ := Owned size d ∧ AtPoint t d p
  off t p d := OffLock t d p

theorem held_pop_of_ne {u : τ} (h : u ≠ t) : (pop t d).2.held u = d.held u := by
  unfold pop
  split
  · rfl
  · exact Function.update_of_ne h _ _

theorem held_append_of_ne {u : τ} (h : u ≠ t) : (append conn t d).held u = d.held u := Function.update_of_ne h _ _

omit [DecidableEq τ] in
theorem OffLock.of_held {u : τ} {p : Point} {d' : SimplePool τ} (h : OffLock u d p) (hd : d'.held u = d.held u) :
    OffLock u d' p := by
  cases p with
  | returnConn conn =>
    show conn ∈ d'.held u
    rw [hd]
    exact h
  | outside | borrow _ | check _ | wait _ | waited _ _ | raise | pop | append _ | notify | leave => exact trivial

theorem ownership_sound (size : Nat) : (ownership (τ := τ) size).Sound (program τ holding) fun _ => True where
  free_quiet _ _ _ h _ := h
  held_quiet _ _ _ _ _ h _ := h
  entry t d p h := by
    cases p with
    | returnConn conn =>
      have hmem : decide (conn ∈ d.held t) = true := h
      show conn ∈ d.held t
      exact of_decide_eq_true hmem
    | outside | borrow _ | check _ | wait _ | waited _ _ | raise | pop | append _ | notify | leave => exact trivial
  steps p := by
    cases p with
    | outside => exact trivial
    | borrow timeout => exact fun _ _ _ hfree _ => ⟨hfree, trivial⟩
    | returnConn conn => exact fun _ _ _ hfree hoff => ⟨hfree, hoff⟩
    | check timeout =>
      intro t now _ d c o d' q hheld h
      cases h
      refine ⟨⟨hheld.1, ?_⟩, fun _ _ _ hu => hu⟩
      split
      · exact trivial
      · next hlen => exact fun hnil => hlen (by rw [hnil]; rfl)
    | wait timeout => exact ⟨fun _ _ _ _ hheld _ => ⟨hheld.1, trivial⟩, fun _ _ _ _ _ hfree _ _ => ⟨hfree, trivial⟩⟩
    | waited timeout notified =>
      intro t now _ d c o d' q hheld h
      cases h
      refine ⟨⟨hheld.1, ?_⟩, fun _ _ _ hu => hu⟩
      cases notified <;> exact trivial
    | raise | leave => exact fun _ _ _ hheld => ⟨hheld.1, trivial⟩
    | pop =>
      intro t now _ d c o d' q hheld h
      cases h
      exact ⟨⟨hheld.1.pop, trivial⟩, fun u r hu hoff => hoff.of_held (held_pop_of_ne hu)⟩
    | append conn =>
      intro t now _ d c o d' q hheld h
      cases h
      exact ⟨⟨hheld.1.append hheld.2, trivial⟩, fun u r hu hoff => hoff.of_held (held_append_of_ne hu)⟩
    | notify => exact fun _ _ _ hheld _ => ⟨hheld.1, trivial⟩

theorem start_holds (size : Nat) : (ownership size).Holds (program τ holding) (start τ size) where
  placed := Monitor.placed_init fun h => h
  free _ := owned_init size
  knows _ := ⟨fun h => absurd h (fun h => h), fun _ => trivial⟩

theorem holds_run {moves : List (Move τ Point Unit)} {os : List (Option (Outcome τ))}
    {m : Monitor τ Point (SimplePool τ)}
    (h : (Monitor.machine (program τ holding)).run (start τ size) moves = some (os, m)) :
    (ownership size).Holds (program τ holding) m :=
  (ownership_sound size).run_true (start_holds size) h

/-! ## What a borrow changes -/

variable {may : τ → SimplePool τ → String → Bool} {m m' : Monitor τ Point (SimplePool τ)} {a : Move τ Point Unit}
  {o : Option (Outcome τ)}

def Outcome.thread : Outcome τ → τ
  | .borrowed t _ => t
  | .returned t _ => t
  | .raised t _ => t

/-- What a move of `t` does: where it takes the thread, and what it makes of the pool. -/
inductive Act (may : τ → SimplePool τ → String → Bool) (t : τ) (m : Monitor τ Point (SimplePool τ)) :
    Move τ Point Unit → Thread Point → Option (Outcome τ) → Thread Point → SimplePool τ → Prop
  | call {p : Point} : entry may t m.data p = true →
      Act may t m (.call t p) (.running .outside) none (.running p) m.data
  | borrow {e : Unit} {timeout : Option ℚ} :
      Act may t m (.run t e) (.running (.borrow timeout)) none (.running (.check timeout)) m.data
  | empty {e : Unit} {timeout : Option ℚ} : m.data.pool = [] →
      Act may t m (.run t e) (.running (.check timeout)) none (.running (.wait timeout)) m.data
  | found {e : Unit} {timeout : Option ℚ} : m.data.pool ≠ [] →
      Act may t m (.run t e) (.running (.check timeout)) none (.running .pop) m.data
  | wait {e : Unit} {timeout : Option ℚ} : Act may t m (.run t e) (.running (.wait timeout)) none
      (.waiting (.wait timeout) (timeout.map (m.clock + ·))) m.data
  | stir {a : Move τ Point Unit} {p : Point} {deadline : Option ℚ} : (∀ e, a ≠ .run t e) →
      Act may t m a (.waiting p deadline) none (.waiting p deadline) m.data
  | wake {e : Unit} {timeout deadline : Option ℚ} :
      Act may t m (.run t e) (.waiting (.wait timeout) deadline) none
        (.running (.waited timeout (decide (t ∉ m.cond.timedOut)))) m.data
  | notified {e : Unit} {timeout : Option ℚ} :
      Act may t m (.run t e) (.running (.waited timeout true)) none (.running (.check timeout)) m.data
  | timedOut {e : Unit} {timeout : Option ℚ} :
      Act may t m (.run t e) (.running (.waited timeout false)) none (.running .raise) m.data
  | raise {e : Unit} : Act may t m (.run t e) (.running .raise)
      (some (.raised t (.timeoutError "No connection available"))) (.running .outside) m.data
  | pop {e : Unit} :
      Act may t m (.run t e) (.running .pop) (some (pop t m.data).1) (.running .leave) (pop t m.data).2
  | returnConn {e : Unit} {conn : String} :
      Act may t m (.run t e) (.running (.returnConn conn)) none (.running (.append conn)) m.data
  | append {e : Unit} {conn : String} : Act may t m (.run t e) (.running (.append conn)) (some (.returned t conn))
      (.running .notify) (append conn t m.data)
  | notify {e : Unit} : Act may t m (.run t e) (.running .notify) none (.running .leave) m.data
  | leave {e : Unit} : Act may t m (.run t e) (.running .leave) none (.running .outside) m.data

/-- Every move of a thread is one of these. -/
theorem act_of_steps (hs : Monitor.Steps (program τ may) m a o m') (ha : a.thread = some t) :
    ∃ th th' d, m.threads t = th ∧ m'.threads t = th' ∧ m'.data = d ∧ m'.clock = m.clock ∧
      Act may t m a th o th' d := by
  refine ⟨_, _, _, rfl, rfl, rfl, ?_⟩
  cases hs with
  | tick _ => cases ha
  | @call u p q hp hcode hentry =>
    cases ha
    rw [hp, Monitor.threads_goto]
    cases p <;> cases hcode
    exact ⟨rfl, .call hentry⟩
  | @acquire u p q e c hp hcode hc =>
    cases ha
    rw [hp, Monitor.threads_goto]
    cases p <;> cases hcode
    · exact ⟨rfl, .borrow⟩
    · exact ⟨rfl, .returnConn⟩
  | @act u p q e f o d hp hcode hf =>
    cases ha
    rw [hp, Monitor.threads_goto]
    cases p <;> cases hcode <;> cases hf
    · by_cases hlen : m.data.pool.length = 0
      · rw [if_pos hlen]
        exact ⟨rfl, .empty (List.eq_nil_of_length_eq_zero hlen)⟩
      · rw [if_neg hlen]
        exact ⟨rfl, .found fun hnil => hlen (by rw [hnil]; rfl)⟩
    · next timeout notified =>
      cases notified
      · exact ⟨rfl, .timedOut⟩
      · exact ⟨rfl, .notified⟩
    · exact ⟨rfl, .pop⟩
    · exact ⟨rfl, .append⟩
  | @wait u p e timeout next c hp hcode hc =>
    cases ha
    rw [hp, Monitor.threads_goto]
    cases p <;> cases hcode
    exact ⟨rfl, .wait⟩
  | @notify u p q e hp hcode =>
    cases ha
    rw [hp, Monitor.threads_goto]
    cases p <;> cases hcode
    exact ⟨rfl, .notify⟩
  | @notifyAll u p q e hp hcode => cases p <;> cases hcode
  | @release u p q e output c hp hcode hc =>
    cases ha
    rw [hp, Monitor.threads_goto]
    cases p <;> cases hcode
    · exact ⟨rfl, .raise⟩
    · exact ⟨rfl, .leave⟩
  | @reacquire u p e deadline timeout next b c hp hcode hc =>
    cases ha
    rw [hp, Monitor.threads_goto]
    cases p <;> cases hcode
    rw [Condition.reacquire_result hc]
    exact ⟨rfl, .wake⟩
  | expire hp _ _ | rouse hp _ =>
    cases ha
    rw [hp, Monitor.threads_goto]
    exact ⟨rfl, .stir fun _ h => by cases h⟩

theorem placed_run {moves : List (Move τ Point Unit)} {os : List (Option (Outcome τ))}
    (h : (Monitor.machine (program τ may)).run (start τ size) moves = some (os, m)) :
    Monitor.Placed (program τ may) m :=
  (Monitor.placed_init (P := program τ may) (p := .outside) fun hl => hl).run h

/-- The clock moves the threads and the pool nowhere. -/
theorem still_of_steps (hs : Monitor.Steps (program τ may) m a o m') (ha : a.thread = none) :
    o = none ∧ m'.data = m.data ∧ m'.threads = m.threads := by
  cases hs with
  | tick _ => exact ⟨rfl, rfl, rfl⟩
  | call _ _ _ | acquire _ _ _ | act _ _ _ | wait _ _ _ | notify _ _ | notifyAll _ _ | release _ _ _
  | reacquire _ _ _ | expire _ _ _ | rouse _ _ => cases ha

/-- A step without an outcome leaves the pool and the holdings as they are. -/
theorem silent_step (hs : Monitor.Steps (program τ may) m a o m') (ho : o = none) : m'.data = m.data := by
  cases ha : a.thread with
  | none => exact (still_of_steps hs ha).2.1
  | some t =>
    obtain ⟨th, th', d, -, -, hd, -, hact⟩ := act_of_steps hs ha
    rw [hd]
    cases hact with
    | pop | append | raise => cases ho
    | call _ | borrow | empty _ | found _ | wait | stir _ | wake | notified | timedOut | returnConn | notify
    | leave => rfl

/-- An outcome is one of a `pop`, of an `append` or of a raised `TimeoutError`, by the thread that moves. -/
theorem outcome_step {x : Outcome τ} (hs : Monitor.Steps (program τ may) m a o m') (ho : o = some x) :
    ∃ t, a.thread = some t ∧
      ((m.threads t = .running .pop ∧ x = (pop t m.data).1 ∧ m'.data = (pop t m.data).2) ∨
        (∃ conn, x = .returned t conn) ∨
        m.threads t = .running .raise ∧ x = .raised t (.timeoutError "No connection available") ∧
          m'.data = m.data) := by
  cases ha : a.thread with
  | none =>
    rw [(still_of_steps hs ha).1] at ho
    cases ho
  | some t =>
    refine ⟨t, rfl, ?_⟩
    obtain ⟨th, th', d, hp, -, hd, -, hact⟩ := act_of_steps hs ha
    cases hact with
    | pop => exact Or.inl ⟨hp, (Option.some.inj ho).symm, hd⟩
    | append => exact Or.inr (Or.inl ⟨_, (Option.some.inj ho).symm⟩)
    | raise => exact Or.inr (Or.inr ⟨hp, (Option.some.inj ho).symm, hd⟩)
    | call _ | borrow | empty _ | found _ | wait | stir _ | wake | notified | timedOut | returnConn | notify | leave =>
      cases ho

theorem pop_cases (t : τ) (d : SimplePool τ) :
    (d.pool = [] ∧ pop t d = (.raised t (.indexError "pop from empty list"), d)) ∨
      ∃ conn, (pop t d).1 = .borrowed t conn := by
  unfold pop
  cases hlast : d.pool.getLast? with
  | none => exact Or.inl ⟨List.getLast?_eq_none_iff.mp hlast, rfl⟩
  | some conn => exact Or.inr ⟨conn, rfl⟩

/-- An outcome is one of the thread that moves. -/
theorem thread_of_outcome {x : Outcome τ} (hs : Monitor.Steps (program τ may) m a (some x) m') :
    a.thread = some x.thread := by
  obtain ⟨t, ha, ⟨-, rfl, -⟩ | ⟨conn, rfl⟩ | ⟨-, rfl, -⟩⟩ := outcome_step hs rfl
  · rw [ha]
    rcases pop_cases t m.data with ⟨-, hpop⟩ | ⟨conn, hpop⟩ <;> rw [hpop] <;> rfl
  · exact ha
  · exact ha

/-- In a borrow that has not taken a connection. -/
def Borrowing : Thread Point → Prop
  | .running (.borrow _) | .running (.check _) | .running (.wait _) | .running (.waited _ _) => True
  | .running .raise | .running .pop => True
  | .waiting _ _ => True
  | _ => False

/-- At the end of a call. -/
def Done : Thread Point → Prop
  | .running .leave | .running .outside => True
  | _ => False

/-- A step of a borrow goes on with it and does nothing else, or ends it. -/
theorem borrowing_step (hs : Monitor.Steps (program τ may) m a o m') (ha : a.thread = some t)
    (hb : Borrowing (m.threads t)) : (Borrowing (m'.threads t) ∧ o = none) ∨ Done (m'.threads t) := by
  obtain ⟨th, th', d, hp, hp', -, -, hact⟩ := act_of_steps hs ha
  rw [hp] at hb
  rw [hp']
  cases hact with
  | borrow | empty _ | found _ | wait | stir _ | wake | notified | timedOut => exact Or.inl ⟨trivial, rfl⟩
  | raise | pop => exact Or.inr trivial
  | call _ | returnConn | append | notify | leave => exact absurd hb fun hb => hb

/-- A call that is at its end stays there until the next call. -/
theorem done_step (hs : Monitor.Steps (program τ may) m a o m') (ha : a.thread = some t) (hcall : ∀ p, a ≠ .call t p)
    (hd : Done (m.threads t)) : Done (m'.threads t) := by
  obtain ⟨th, th', d, hp, hp', -, -, hact⟩ := act_of_steps hs ha
  rw [hp] at hd
  rw [hp']
  cases hact with
  | call _ => exact absurd rfl (hcall _)
  | leave => exact trivial
  | borrow | empty _ | found _ | wait | stir _ | wake | notified | timedOut | raise | pop | returnConn | append
  | notify => exact absurd hd fun hd => hd

/-- Between the call of a borrow and its `TimeoutError` the thread takes and returns nothing. -/
theorem no_outcome_before_raise {timeout : Option ℚ} {message : String} {moves : List (Move τ Point Unit)}
    {os : List (Option (Outcome τ))} {m₀ m₁ m₂ m₃ : Monitor τ Point (SimplePool τ)} {o : Option (Outcome τ)}
    (hborrow : (Monitor.machine (program τ may)).step m₀ (.call t (.borrow timeout)) = some (o, m₁))
    (hrun : (Monitor.machine (program τ may)).run m₁ moves = some (os, m₂)) (hcall : ∀ p, .call t p ∉ moves)
    (hraise : (Monitor.machine (program τ may)).step m₂ a = some (some (.raised t (.timeoutError message)), m₃)) :
    ∀ x, some x ∈ os → x.thread ≠ t := by
  have hb : Borrowing (m₁.threads t) := by
    cases Monitor.step_steps hborrow with
    | call _ _ _ =>
      rw [Monitor.threads_goto]
      exact trivial
  have hP := Machine.run_history_along (M := Monitor.machine (program τ may)) (Q := fun _ a => ∀ p, a ≠ .call t p)
    (P := fun l m => (Borrowing (m.threads t) ∧ ∀ x, some x ∈ l → x.thread ≠ t) ∨ Done (m.threads t)) ?_ (l := [])
    (Or.inl ⟨hb, fun _ hx => absurd hx List.not_mem_nil⟩)
    (Machine.along_of_forall fun a ha _ p he => hcall p (he ▸ ha)) hrun
  · refine (hP.resolve_right fun hd => ?_).2
    -- the error is raised at a point of the borrow, not at the end of a call
    obtain ⟨u, -, ⟨-, hx, -⟩ | ⟨conn, hx⟩ | ⟨hp, hx, -⟩⟩ := outcome_step (Monitor.step_steps hraise) rfl
    · rcases pop_cases u m₂.data with ⟨-, hpop⟩ | ⟨conn, hpop⟩ <;> rw [hpop] at hx <;> cases hx
    · cases hx
    · cases hx
      rw [hp] at hd
      exact absurd hd fun hd => hd
  · intro l m a o m' hP hQ hs
    have hst := Monitor.step_steps hs
    by_cases ha : a.thread = some t
    · rcases hP with ⟨hb, hl⟩ | hd
      · rcases borrowing_step hst ha hb with ⟨hb', rfl⟩ | hd
        · refine Or.inl ⟨hb', fun x hx => ?_⟩
          rcases List.mem_append.mp hx with hx | hx
          · exact hl x hx
          · exact absurd (List.mem_singleton.mp hx) (by simp)
        · exact Or.inr hd
      · exact Or.inr (done_step hst ha hQ hd)
    · rw [hst.frame ha]
      refine hP.imp_left fun ⟨hb, hl⟩ => ⟨hb, fun x hx => ?_⟩
      rcases List.mem_append.mp hx with hx | hx
      · exact hl x hx
      · obtain rfl := List.mem_singleton.mp hx
        exact fun he => ha (he ▸ thread_of_outcome hst)

/-- **Exclusive ownership.** In every reachable state each connection is in the pool once or with one thread once, and
`pop` does not run on an empty list. A step changes the pool and the holdings only when it hands out or takes back a
connection, and a borrow that raises `TimeoutError` does neither. -/
theorem exclusive_ownership (size : Nat) (moves : List (Move τ Point Unit)) (os : List (Option (Outcome τ)))
    (m : Monitor τ Point (SimplePool τ))
    (h : (Monitor.machine (program τ holding)).run (start τ size) moves = some (os, m)) :
    (∀ conn ∈ connections size, ∃ p, (contents m.data p).count conn = 1 ∧
      ∀ q, q ≠ p → (contents m.data q).count conn = 0) ∧
    (∀ p, ∀ conn ∈ contents m.data p, conn ∈ connections size) ∧
    (∀ a t message m', (Monitor.machine (program τ holding)).step m a ≠
      some (some (.raised t (.indexError message)), m')) ∧
    (∀ a o m', (Monitor.machine (program τ holding)).step m a = some (o, m') →
      (∀ t conn, o ≠ some (.borrowed t conn) ∧ o ≠ some (.returned t conn)) → m'.data = m.data) ∧
    (∀ t timeout message moves' os' a o m₁ m₂ m₃,
      (Monitor.machine (program τ holding)).step m (.call t (.borrow timeout)) = some (o, m₁) →
      (Monitor.machine (program τ holding)).run m₁ moves' = some (os', m₂) → (∀ p, .call t p ∉ moves') →
      (Monitor.machine (program τ holding)).step m₂ a = some (some (.raised t (.timeoutError message)), m₃) →
      ∀ x, some x ∈ os' → x.thread ≠ t) := by
  have hholds := holds_run h
  have howned : Owned size m.data := hholds.data (fun _ _ h => h) fun _ _ _ _ h => h.1
  refine ⟨fun conn hconn => howned.exactly_one hconn, fun p conn hconn => howned.mem hconn, fun a t message m' hs => ?_,
    fun a o m' hs hne => ?_, fun t timeout message moves' os' a o m₁ m₂ m₃ h₁ h₂ hcall h₃ =>
    no_outcome_before_raise h₁ h₂ hcall h₃⟩
  · obtain ⟨u, -, ⟨hp, hx, -⟩ | ⟨conn, hx⟩ | ⟨-, hx, -⟩⟩ := outcome_step (Monitor.step_steps hs) rfl
    · have hne : m.data.pool ≠ [] := (hholds.held_of_threads hp trivial).2.2
      rcases pop_cases u m.data with ⟨hnil, -⟩ | ⟨conn, hpop⟩
      · exact hne hnil
      · rw [hpop] at hx
        cases hx
    · cases hx
    · cases hx
  · cases o with
    | none => exact silent_step (Monitor.step_steps hs) rfl
    | some x =>
      obtain ⟨u, -, ⟨-, rfl, hd⟩ | ⟨conn, rfl⟩ | ⟨-, -, hd⟩⟩ := outcome_step (Monitor.step_steps hs) rfl
      · rcases pop_cases u m.data with ⟨-, hpop⟩ | ⟨conn, hpop⟩
        · rw [hd, hpop]
        · rw [hpop] at hne
          exact absurd rfl (hne u conn).1
      · exact absurd rfl (hne u conn).2
      · exact hd

/-- Two threads share one connection; the second borrow times out. -/
theorem exclusive_ownership_example :
    let moves : List (Move Nat Point Unit) := [.call 0 (.borrow none), .run 0 (), .run 0 (), .run 0 (), .run 0 (),
      .call 1 (.borrow (some 5)), .run 1 (), .run 1 (), .run 1 (), .tick 5, .expire 1, .run 1 (), .run 1 (), .run 1 ()]
    let os : List (Option (Outcome Nat)) := [none, none, none, some (.borrowed 0 "conn_0"), none, none, none, none,
      none, none, none, none, none, some (.raised 1 (.timeoutError "No connection available"))]
    ∃ m, (Monitor.machine (program Nat holding)).run (start Nat 1) moves = some (os, m) ∧
      ∃ p, (contents m.data p).count "conn_0" = 1 ∧ ∀ q, q ≠ p → (contents m.data q).count "conn_0" = 0 := by
  intro moves os
  have hrun : ((Monitor.machine (program Nat holding)).run (start Nat 1) moves).map Prod.fst = some os := by
    decide +kernel
  obtain ⟨m, h⟩ := Machine.exists_run _ hrun
  exact ⟨m, h, (exclusive_ownership 1 moves os m h).1 "conn_0" (by decide +kernel)⟩

end TheGrind.ConnectionPool
