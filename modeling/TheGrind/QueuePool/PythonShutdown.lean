import Mathlib.Data.Fintype.Basic
import TheGrind.QueuePool.Python

/-!
# Closing the Python pool

`close` looks whether the queue is empty and takes a connection in two operations, and it is over once it has found the
queue empty. A worker may take the connection in between, and a connection that a worker holds at the end is never
closed.

* `Quiet` : the loop ends with no connection out, and takes only when there is something; `allClosed_step` : then all
  are closed;
* `Closing.left` : how many steps the loop has before it at most;
* `Safe` : what the shutdown should be in a run;
* `close_all_iff` : in which runs it is.
-/

namespace TheGrind.QueuePool.Python
open TheGrind.Sync TheGrind.Transition TheGrind.QueuePool

variable {τ : Type} [DecidableEq τ] {counter size : Nat} {s s' : State τ} {a : Move τ} {o : Option (Event τ)}

/-- When `close` finds the queue empty no worker holds a connection, and its `get_nowait` finds one. -/
def Quiet (s : State τ) : Move τ → Prop
  | .closeNext => (s.closing = .looking → s.pool.items = [] → ∀ t, s.held t = []) ∧
      (s.closing = .popping → s.pool.items ≠ [])
  | _ => True

instance [Fintype τ] (s : State τ) : DecidablePred (Quiet s)
  | .closeNext => inferInstanceAs (Decidable ((s.closing = .looking → s.pool.items = [] → ∀ t, s.held t = []) ∧
      (s.closing = .popping → s.pool.items ≠ [])))
  | .tick _ | .getConn _ _ | .get _ | .execute _ _ | .releaseConn _ _ | .close => inferInstanceAs (Decidable True)

/-- `close` has returned, and every worker is done. -/
def State.Finished (s : State τ) : Prop := s.closing = .returned ∧ ∀ t, s.waiting t = none ∧ s.held t = []

def State.AllClosed (size : Nat) (s : State τ) : Prop := ∀ conn < size, s.closed conn = true

def NoRaise (o : Option (Event τ)) : Prop := ∀ error, o ≠ some (.closeRaised error)

/-- A connection that `get_conn` returns is open. -/
def GotOpen (o : Option (Event τ)) : Prop := ∀ t conn, o = some (.got t conn) → conn.closed = false

/-- `close` has not raised, no `get_conn` returned a closed connection, and all connections are closed once `close` has
returned and the workers are done. -/
structure Safe (size : Nat) (os : List (Option (Event τ))) (s : State τ) : Prop where
  noRaise : ∀ o ∈ os, NoRaise o
  gotOpen : ∀ o ∈ os, GotOpen o
  closed : s.Finished → s.AllClosed size

theorem gotOpen_step (h : ∃ r, s.Tracks size r) (hs : Steps counter s a o s') : GotOpen o := by
  obtain ⟨r, hr⟩ := h
  intro t conn ho
  cases hs with
  | got hw htake =>
    cases ho
    have hitems := (Bounded.take_eq_some_iff.mp htake).1
    exact (hr.of_idle (by rw [hitems]; exact List.mem_cons_self)).1
  | tick _ | refused | wait _ | timedOut _ _ _ | executed _ | released _ _ | close _ | lookedEmpty _ _ | looked _ _
  | poppedEmpty _ _ | popped _ _ | closed _ => cases ho

theorem gotOpen_run {pool : Bounded Nat} {moves : List (Move τ)} {os : List (Option (Event τ))}
    (hnew : ConnectionPool.new size = .ok (some pool))
    (h : (connectionPool τ counter).run (.init τ pool) moves = some (os, s)) : ∀ o ∈ os, GotOpen o :=
  (Machine.run_outputs (M := connectionPool τ counter) (P := fun s => ∃ r, s.Tracks size r)
    (fun hP hs => ⟨gotOpen_step hP (steps_of_step hs), exists_tracks_step hP hs⟩) ⟨_, tracks_init hnew⟩ h).1

/-! ## The end of the loop -/

/-- In a quiet step `close` does not raise, and it returns only when all connections are closed. -/
theorem allClosed_step (h : ∃ r, s.Tracks size r) (hq : Quiet s a) (hret : s.closing = .returned → s.AllClosed size)
    (hs : Steps counter s a o s') : NoRaise o ∧ (s'.closing = .returned → s'.AllClosed size) := by
  obtain ⟨r, hr⟩ := h
  have hsome : ∀ {x : Event τ}, (∀ error, x ≠ .closeRaised error) → NoRaise (some x) :=
    fun hx error he => hx error (Option.some.inj he)
  have hnone : NoRaise (none : Option (Event τ)) := fun _ h => by cases h
  cases hs with
  | tick _ | wait _ => exact ⟨hnone, hret⟩
  | refused | got _ _ | timedOut _ _ _ | executed _ | released _ _ => exact ⟨hsome fun _ h => (by cases h), hret⟩
  | close _ | looked _ _ | closed _ => exact ⟨hnone, fun hc => by cases hc⟩
  | popped _ _ => exact ⟨hsome fun _ h => (by cases h), fun hc => by cases hc⟩
  | poppedEmpty hclosing hnil => exact absurd hnil (hq.2 hclosing)
  | lookedEmpty hclosing hnil =>
    unfold State.Tracks at hr
    rw [hclosing] at hr
    exact ⟨hsome fun _ h => (by cases h), fun _ => hr.all_closed hnil (hq.1 hclosing hnil)⟩

/-- Once `close` has returned, no connection is closed any more. -/
theorem closed_of_returned {moves : List (Move τ)} : ∀ {s : State τ} {os : List (Option (Event τ))},
    s.closing = .returned → (connectionPool τ counter).run s moves = some (os, s') → s'.closed = s.closed := by
  induction moves with
  | nil =>
    intro s os _ h
    cases h
    rfl
  | cons a moves ih =>
    intro s os hret h
    obtain ⟨o, os', m, hs, hr, rfl⟩ := (Machine.run_cons_iff _).mp h
    have hkeep : m.closing = .returned ∧ m.closed = s.closed := by
      cases steps_of_step hs with
      | tick _ | refused | wait _ | got _ _ | timedOut _ _ _ | executed _ | released _ _ => exact ⟨hret, rfl⟩
      | close hc | lookedEmpty hc _ | looked hc _ | poppedEmpty hc _ | popped hc _ | closed hc =>
        rw [hret] at hc
        cases hc
    rw [ih hkeep.1 hr, hkeep.2]

/-- If in the end `close` has not raised and all connections are closed, every step was quiet. -/
theorem quiet_of_allClosed {moves : List (Move τ)} : ∀ {s : State τ} {os : List (Option (Event τ))},
    (∃ r, s.Tracks size r) → (connectionPool τ counter).run s moves = some (os, s') → (∀ o ∈ os, NoRaise o) →
    s'.AllClosed size → (connectionPool τ counter).Along Quiet s moves := by
  induction moves with
  | nil => exact fun _ _ _ _ => trivial
  | cons a moves ih =>
    intro s os h hrun hraise hclosed
    obtain ⟨o, os', m, hs, hr, rfl⟩ := (Machine.run_cons_iff _).mp hrun
    rw [List.forall_mem_cons] at hraise
    refine (Machine.along_cons_iff hs).mpr ⟨?_, ih (exists_tracks_step h hs) hr hraise.2 hclosed⟩
    obtain ⟨r, htracks⟩ := h
    cases steps_of_step hs with
    | lookedEmpty hclosing hnil =>
      refine ⟨fun _ _ t => ?_, fun hc => ?_⟩
      · -- a connection that is out now stays open
        by_contra hne
        obtain ⟨conn, hconn⟩ := List.exists_mem_of_ne_nil _ hne
        obtain ⟨hopen, hlt, -⟩ := htracks.of_held hconn
        have hkept := closed_of_returned (s := { s with closing := .returned }) rfl hr
        have hend := hclosed conn hlt
        rw [hkept] at hend
        exact Bool.false_ne_true (hopen.symm.trans hend)
      · rw [hclosing] at hc
        cases hc
    | looked hclosing hne =>
      refine ⟨fun _ hnil => absurd hnil hne, fun hc => ?_⟩
      rw [hclosing] at hc
      cases hc
    | poppedEmpty hclosing hnil => exact absurd rfl (hraise.1 _)
    | popped hclosing htake =>
      have hitems := (Bounded.take_eq_some_iff.mp htake).1
      refine ⟨fun hc => ?_, fun _ => by rw [hitems]; exact List.cons_ne_nil _ _⟩
      rw [hclosing] at hc
      cases hc
    | closed hclosing =>
      refine ⟨fun hc => ?_, fun hc => ?_⟩
      · rw [hclosing] at hc
        cases hc
      · rw [hclosing] at hc
        cases hc
    | tick _ | refused | wait _ | got _ _ | timedOut _ _ _ | executed _ | released _ _ | close _ => exact trivial

/-! ## The loop comes to its end -/

/-- How many steps `close` has before it at most, with `n` connections open. -/
def Closing.left (n : Nat) : Closing → Nat
  | .uncalled | .looking => 3 * n + 2
  | .popping => 3 * n + 1
  | .closing _ => 3 * n
  | .returned | .raised _ => 0

def Move.isCloseNext : Move τ → Bool
  | .closeNext => true
  | _ => false

theorem left_step (h : ∃ r, s.Tracks size r) (hs : Steps counter s a o s') :
    s'.closing.left (unclosed size s'.closed) + (if a.isCloseNext then 1 else 0) ≤
      s.closing.left (unclosed size s.closed) := by
  obtain ⟨r, hr⟩ := h
  cases hs with
  | tick _ | refused | wait _ | got _ _ | timedOut _ _ _ | executed _ | released _ _ => exact le_refl _
  | close hclosing =>
    rw [hclosing]
    exact le_refl _
  | lookedEmpty hclosing _ | looked hclosing _ | poppedEmpty hclosing _ | popped hclosing _ =>
    rw [hclosing]
    simp [Closing.left, Move.isCloseNext]
  | closed hclosing =>
    unfold State.Tracks at hr
    rw [hclosing] at hr ⊢
    obtain ⟨hopen, hlt⟩ := hr.of_hand
    have hupdate := unclosed_update hopen hlt
    simp only [Closing.left, Move.isCloseNext, if_true]
    omega

/-- **When the shutdown of the Python pool closes everything.** It does in every run whose steps are quiet, and once
`close` has returned and the workers are done it has done so only in these. No `get_conn` returns a closed connection in
any run, and `close` ends after at most `3 * size + 2` steps, each of which can be taken. -/
theorem close_all_iff (counter size : Nat) (pool : Bounded Nat) (hnew : ConnectionPool.new size = .ok (some pool))
    (moves : List (Move τ)) (os : List (Option (Event τ))) (s : State τ)
    (h : (connectionPool τ counter).run (.init τ pool) moves = some (os, s)) :
    ((connectionPool τ counter).Along Quiet (.init τ pool) moves → Safe size os s) ∧
    (s.Finished → (Safe size os s ↔ (connectionPool τ counter).Along Quiet (.init τ pool) moves)) ∧
    (∀ o ∈ os, GotOpen o) ∧ moves.countP Move.isCloseNext ≤ 3 * size + 2 ∧
    (s.closing = .looking ∨ s.closing = .popping ∨ (∃ conn, s.closing = .closing conn) →
      ∃ r, (connectionPool τ counter).step s .closeNext = some r) := by
  have hinit : ∃ r, (State.init τ pool).Tracks size r := ⟨_, tracks_init hnew⟩
  have hgot := gotOpen_run hnew h
  have hsafe : (connectionPool τ counter).Along Quiet (.init τ pool) moves → Safe size os s := by
    intro hquiet
    obtain ⟨hraise, -, hret⟩ := Machine.run_outputs_along (M := connectionPool τ counter) (Q := Quiet) (G := NoRaise)
      (P := fun s => (∃ r, s.Tracks size r) ∧ (s.closing = .returned → s.AllClosed size))
      (fun hP hq hs => (by
        obtain ⟨ho, hret⟩ := allClosed_step hP.1 hq hP.2 (steps_of_step hs)
        exact ⟨ho, exists_tracks_step hP.1 hs, hret⟩)) ⟨hinit, fun hc => by cases hc⟩ hquiet h
    exact ⟨hraise, hgot, fun hfin => hret hfin.1⟩
  refine ⟨hsafe, fun hfin => ⟨fun hs => ?_, hsafe⟩, hgot, ?_, ?_⟩
  · exact quiet_of_allClosed hinit h hs.noRaise (hs.closed hfin)
  · have hle := Machine.run_rank (M := connectionPool τ counter) (P := fun s => ∃ r, s.Tracks size r)
      (p := Move.isCloseNext) exists_tracks_step (fun hP hs => left_step hP (steps_of_step hs)) hinit h
    have hcard := unclosed_le size (State.init τ pool).closed
    have hleft : (State.init τ pool).closing.left (unclosed size (State.init τ pool).closed) =
      3 * unclosed size (State.init τ pool).closed + 2 := rfl
    omega
  · intro hgoing
    simp only [connectionPool, State.closeNext]
    rcases hgoing with hc | hc | ⟨conn, hc⟩
    · rw [hc]
      cases s.pool.items.isEmpty <;> exact ⟨_, rfl⟩
    · rw [hc]
      cases s.pool.take <;> exact ⟨_, rfl⟩
    · rw [hc]
      exact ⟨_, rfl⟩

/-- A worker gets and releases, then `close` closes the one connection. -/
theorem close_all_iff_example :
    ∃ pool s, ConnectionPool.new 1 = .ok (some pool) ∧ (connectionPool (Fin 2) 0).run (.init (Fin 2) pool)
        [.getConn 0 (some 5), .get 0, .releaseConn 0 0, .close, .closeNext, .closeNext, .closeNext, .closeNext] =
      some ([none, some (.got 0 ⟨0, false⟩), some (.released 0 0), none, none, some (.popped 0), none,
        some .closeReturned], s) ∧
      Safe 1 [none, some (.got 0 ⟨0, false⟩), some (.released 0 0), none, none, some (.popped 0), none,
        some .closeReturned] s := by
  obtain ⟨s, h⟩ := Machine.exists_run (connectionPool (Fin 2) 0) (s := .init (Fin 2) ⟨[0], 1, by decide⟩)
    (show ((connectionPool (Fin 2) 0).run (.init (Fin 2) ⟨[0], 1, by decide⟩) [.getConn 0 (some 5), .get 0,
      .releaseConn 0 0, .close, .closeNext, .closeNext, .closeNext, .closeNext]).map Prod.fst =
      some [none, some (.got 0 ⟨0, false⟩), some (.released 0 0), none, none, some (.popped 0), none,
        some .closeReturned] by rfl)
  exact ⟨_, s, rfl, h, (close_all_iff 0 1 _ rfl _ _ s h).1 (by decide +kernel)⟩

/-- `close` returns while a worker holds the one connection, which the worker then releases into the queue. -/
theorem released_after_close : ¬∀ (size : Nat) (pool : Bounded Nat) (moves : List (Move Nat))
    (os : List (Option (Event Nat))) (s : State Nat), 1 ≤ size → ConnectionPool.new size = .ok (some pool) →
    (connectionPool Nat 0).run (.init Nat pool) moves = some (os, s) → Safe size os s := by
  intro hall
  obtain ⟨s, h, hfin, hopen⟩ : ∃ s, (connectionPool Nat 0).run (.init Nat ⟨[0], 1, by decide⟩)
      [.getConn 0 (some 5), .get 0, .close, .closeNext, .releaseConn 0 0] =
      some ([none, some (.got 0 ⟨0, false⟩), none, some .closeReturned, some (.released 0 0)], s) ∧
      s.Finished ∧ s.closed 0 = false := by
    refine ⟨_, rfl, ⟨rfl, fun t => ?_⟩, rfl⟩
    cases t <;> exact ⟨rfl, rfl⟩
  have hsafe := hall 1 _ _ _ s (le_refl 1) rfl h
  exact Bool.false_ne_true (hopen.symm.trans (hsafe.closed hfin 0 Nat.one_pos))

end TheGrind.QueuePool.Python
