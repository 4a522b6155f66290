import TheGrind.QueuePool.Go
import TheGrind.QueuePool.Python

/-!
# Conservation of connections

The two pools before they are closed. Both are rotations, so what holds of every rotation holds of them: no connection
is lost or doubled, those idle are handed out in the order in which they came, and the same operations hand out the same
connections from either pool. That a release never waits follows as well.

* `Python.Keeps`, `Go.Keeps` : what a pool keeps to in a run, and which steps leave it as it is;
* `pools_conserve` : both pools, and one beside the other.
-/

namespace TheGrind.QueuePool
open TheGrind.Sync TheGrind.Transition

variable {τ : Type} [DecidableEq τ] {counter size : Nat}

namespace Python
variable {s s' : State τ} {a : Move τ} {o : Option (Event τ)} {os : List (Option (Event τ))}

/-- The connections are conserved within the capacity of the queue, a worker that holds one can release it at once, and
a step that neither hands one out nor takes one back, such as a timeout, leaves queue and workers as they are. -/
structure Keeps (counter size : Nat) (os : List (Option (Event τ))) (s : State τ) : Prop where
  conserved : Conserved size s.pool.items s.held (turns os)
  capacity : s.pool.capacity = size ∧ s.pool.items.length ≤ size
  release : ∀ t conn, s.Holds t conn →
    ∃ s', (connectionPool τ counter).step s (.releaseConn t conn) = some (some (.released t conn), s')
  unchanged : ∀ a o s', (connectionPool τ counter).step s a = some (o, s') → o.bind Event.turn? = none →
    s'.pool = s.pool ∧ s'.held = s.held

theorem unchanged_step (hs : Steps counter s a o s') (ho : o.bind Event.turn? = none) :
    s'.pool = s.pool ∧ s'.held = s.held := by
  cases hs with
  | got _ _ | released _ _ | popped _ _ => cases ho
  | tick _ | refused | wait _ | timedOut _ _ _ | executed _ | close _ | lookedEmpty _ _ | looked _ _ | poppedEmpty _ _
  | closed _ => exact ⟨rfl, rfl⟩

/-- Before `close` is called, no connection is retired. -/
theorem uncalled_step (hc : s.closing = .uncalled) (ha : a ≠ .close) (hs : Steps counter s a o s') :
    s'.closing = .uncalled ∧ ∀ b ∈ o.bind Event.turn?, b.retired? = none := by
  cases hs with
  | tick _ | refused | wait _ | timedOut _ _ _ | executed _ => exact ⟨hc, fun b hb => by cases hb⟩
  | got _ _ | released _ _ =>
    refine ⟨hc, fun b hb => ?_⟩
    cases hb
    rfl
  | close _ => exact absurd rfl ha
  | lookedEmpty hcalled _ | looked hcalled _ | poppedEmpty hcalled _ | popped hcalled _ | closed hcalled =>
    rw [hc] at hcalled
    cases hcalled

theorem uncalled_run {pool : Bounded Nat} {moves : List (Move τ)} (hopen : ∀ a ∈ moves, a ≠ .close)
    (h : (connectionPool τ counter).run (.init τ pool) moves = some (os, s)) :
    s.closing = .uncalled ∧ ∀ b ∈ turns os, b.retired? = none := by
  refine Machine.run_history_along (M := connectionPool τ counter) (Q := fun _ a => a ≠ .close)
    (P := fun os s => s.closing = .uncalled ∧ ∀ b ∈ turns os, b.retired? = none) (fun hP ha hs => ?_) (l := [])
    ⟨rfl, fun _ hb => absurd hb List.not_mem_nil⟩ (Machine.along_of_forall fun a ha _ => hopen a ha) h
  obtain ⟨hc, ho⟩ := uncalled_step hP.1 ha (steps_of_step hs)
  exact ⟨hc, kept_snoc hP.2 ho⟩

theorem keeps_run {pool : Bounded Nat} {moves : List (Move τ)} (hnew : ConnectionPool.new size = .ok (some pool))
    (hopen : ∀ a ∈ moves, a ≠ .close) (h : (connectionPool τ counter).run (.init τ pool) moves = some (os, s)) :
    Keeps counter size os s := by
  obtain ⟨bs, r, hr, htracks⟩ := tracks_run hnew h
  refine ⟨?_, ⟨htracks.capacity, ?_⟩, fun t conn hholds => ?_, fun a o s' hs ho => unchanged_step (steps_of_step hs) ho⟩
  · rw [← htracks.idle, ← htracks.held]
    exact conserved_run hr (uncalled_run hopen h).2
  · rw [← htracks.capacity]
    exact s.pool.length_le
  · obtain ⟨pool', hput⟩ := Bounded.exists_put (htracks.of_held hholds.2).2.2 conn
    simp only [connectionPool, if_pos hholds, State.releaseConn, hput]
    exact ⟨_, rfl⟩

end Python

namespace Go
variable {s s' : State τ} {a : Move τ} {o : Option (Event τ)} {os : List (Option (Event τ))}

/-- The same of the channel. -/
structure Keeps (counter size : Nat) (os : List (Option (Event τ))) (s : State τ) : Prop where
  conserved : Conserved size s.conns.buffer.items s.held (turns os)
  capacity : s.conns.buffer.capacity = size ∧ s.conns.buffer.items.length ≤ size
  release : ∀ t conn, s.Holds t conn →
    ∃ s', (pool τ counter).step s (.release t conn) = some (some (.released t conn), s')
  unchanged : ∀ a o s', (pool τ counter).step s a = some (o, s') → o.bind Event.turn? = none →
    s'.conns.buffer = s.conns.buffer ∧ s'.held = s.held

theorem unchanged_step (hs : Steps counter s a o s') (ho : o.bind Event.turn? = none) :
    s'.conns.buffer = s.conns.buffer ∧ s'.held = s.held := by
  cases hs with
  | got _ | released _ _ _ | popped _ _ => cases ho
  | tick _ | wait | gotNil _ _ | timedOut | executed _ _ | executedClosed _ _ | releasedClosed _ _ | close _ _
  | closeClosed _ _ | drained _ _ | closed _ => exact ⟨rfl, rfl⟩

/-- Before `Close` is called, no connection is retired and nothing panics. -/
theorem uncalled_step (h : ∃ r, s.Tracks size r) (hc : s.closing = .uncalled) (hp : s.panicked = false)
    (ha : a ≠ .close) (hs : Steps counter s a o s') :
    s'.closing = .uncalled ∧ s'.panicked = false ∧ ∀ b ∈ o.bind Event.turn?, b.retired? = none := by
  obtain ⟨r, hr⟩ := h
  have hopen : s.conns.closed ≠ true := by
    rw [hr.closed.mpr hc]
    exact Bool.false_ne_true
  cases hs with
  | tick _ | wait | timedOut | executed _ _ => exact ⟨hc, hp, fun b hb => by cases hb⟩
  | got _ | released _ _ _ =>
    refine ⟨hc, hp, fun b hb => ?_⟩
    cases hb
    rfl
  | gotNil hclosed _ | releasedClosed _ hclosed | closeClosed _ hclosed => exact absurd hclosed hopen
  | executedClosed hholds hclosed =>
    exact absurd ((hr.conns.of_held hholds.2).1.symm.trans hclosed) Bool.false_ne_true
  | close _ _ => exact absurd rfl ha
  | popped hcalled _ | drained hcalled _ | closed hcalled =>
    rw [hc] at hcalled
    cases hcalled

theorem uncalled_run {conns : Channel Nat} {moves : List (Move τ)} (hnew : newPool size = some conns)
    (hopen : ∀ a ∈ moves, a ≠ .close) (h : (pool τ counter).run (.init τ size conns) moves = some (os, s)) :
    s.closing = .uncalled ∧ s.panicked = false ∧ ∀ b ∈ turns os, b.retired? = none := by
  refine (Machine.run_history_along (M := pool τ counter) (Q := fun _ a => a ≠ .close)
    (P := fun os s => (∃ r, s.Tracks size r) ∧ s.closing = .uncalled ∧ s.panicked = false ∧
      ∀ b ∈ turns os, b.retired? = none) (fun hP ha hs => ?_) (l := [])
    ⟨⟨_, tracks_init hnew⟩, rfl, rfl, fun _ hb => absurd hb List.not_mem_nil⟩
    (Machine.along_of_forall fun a ha _ => hopen a ha) h).2
  obtain ⟨hc, hp, ho⟩ := uncalled_step hP.1 hP.2.1 hP.2.2.1 ha (steps_of_step hs)
  exact ⟨exists_tracks_step hP.1 hs, hc, hp, kept_snoc hP.2.2.2 ho⟩

theorem keeps_run {conns : Channel Nat} {moves : List (Move τ)} (hnew : newPool size = some conns)
    (hopen : ∀ a ∈ moves, a ≠ .close) (h : (pool τ counter).run (.init τ size conns) moves = some (os, s)) :
    Keeps counter size os s := by
  obtain ⟨bs, r, hr, htracks⟩ := tracks_run hnew h
  obtain ⟨hc, hp, hkept⟩ := uncalled_run hnew hopen h
  have hconns := htracks.conns
  refine ⟨?_, ⟨hconns.capacity, ?_⟩, fun t conn hholds => ?_, fun a o s' hs ho => unchanged_step (steps_of_step hs) ho⟩
  · rw [← hconns.idle, ← hconns.held]
    exact conserved_run hr hkept
  · rw [← hconns.capacity]
    exact s.conns.buffer.length_le
  · obtain ⟨buffer, hput⟩ := Bounded.exists_put (hconns.of_held hholds.2).2.2 conn
    simp only [pool, hp, if_pos hholds, State.release, Channel.send, htracks.closed.mpr hc, hput]
    exact ⟨_, rfl⟩

end Go

/-- **Conservation.** In every run of either pool without a close, each connection is in the queue or with one worker,
once, a release never waits, the queue never exceeds its capacity, a get that times out changes nothing, and idle
connections are handed out first in, first out; and if two runs, one of each pool, come to the same gets and releases,
they have handed out the same connections in the same order. -/
theorem pools_conserve (τ : Type) [DecidableEq τ] (counter counter' size : Nat) (queue : Bounded Nat)
    (conns : Channel Nat) (hqueue : Python.ConnectionPool.new size = .ok (some queue))
    (hconns : Go.newPool size = some conns)
    (moves : List (Python.Move τ)) (os : List (Option (Python.Event τ))) (s : Python.State τ)
    (hopen : ∀ a ∈ moves, a ≠ .close)
    (h : (Python.connectionPool τ counter).run (.init τ queue) moves = some (os, s))
    (moves' : List (Go.Move τ)) (os' : List (Option (Go.Event τ))) (s' : Go.State τ)
    (hopen' : ∀ a ∈ moves', a ≠ .close)
    (h' : (Go.pool τ counter').run (.init τ size conns) moves' = some (os', s')) :
    Python.Keeps counter size os s ∧ Go.Keeps counter' size os' s' ∧
    (operations (.init τ size) (Python.turns os) = operations (.init τ size) (Go.turns os') →
      handed (Python.turns os) = handed (Go.turns os')) := by
  refine ⟨Python.keeps_run hqueue hopen h, Go.keeps_run hconns hopen' h', fun hops => ?_⟩
  obtain ⟨bs, r, hr, -⟩ := Python.tracks_run hqueue h
  obtain ⟨bs', r', hr', -⟩ := Go.tracks_run hconns h'
  rw [rotation_deterministic hr hr' hops]

/-- A third worker waits in vain in the Python program and comes later in the Go program; both get the connection that
came back. -/
theorem pools_conserve_example :
    ∃ queue conns os os' s s', Python.ConnectionPool.new 2 = .ok (some queue) ∧ Go.newPool 2 = some conns ∧
      (Python.connectionPool Nat 0).run (.init Nat queue) [.getConn 0 (some 5), .get 0, .getConn 1 none, .get 1,
        .getConn 2 (some 3), .tick 3, .get 2, .releaseConn 1 1, .getConn 2 (some 0), .get 2] = some (os, s) ∧
      (Go.pool Nat 0).run (.init Nat 2 conns) [.get 1, .get 0, .receive 0, .receive 1, .release 1 1, .get 2,
        .receive 2] = some (os', s') ∧
      Python.turns os = [.got 0 0, .got 1 1, .released 1 1, .got 2 1] ∧
      Conserved 2 s.pool.items s.held (Python.turns os) ∧ handed (Python.turns os) = handed (Go.turns os') := by
  obtain ⟨s, h⟩ := Machine.exists_run (Python.connectionPool Nat 0) (s := .init Nat ⟨[0, 1], 2, by decide⟩)
    (show ((Python.connectionPool Nat 0).run (.init Nat ⟨[0, 1], 2, by decide⟩) [.getConn 0 (some 5), .get 0,
      .getConn 1 none, .get 1, .getConn 2 (some 3), .tick 3, .get 2, .releaseConn 1 1, .getConn 2 (some 0),
      .get 2]).map Prod.fst =
      some [none, some (.got 0 ⟨0, false⟩), none, some (.got 1 ⟨1, false⟩), none, none,
        some (.getRaised 2 (.timeoutError (some 3) 2)), some (.released 1 1), none, some (.got 2 ⟨1, false⟩)] by
      decide +kernel)
  obtain ⟨s', h'⟩ := Machine.exists_run (Go.pool Nat 0) (s := .init Nat 2 ⟨⟨[0, 1], 2, by decide⟩, false⟩)
    (show ((Go.pool Nat 0).run (.init Nat 2 ⟨⟨[0, 1], 2, by decide⟩, false⟩) [.get 1, .get 0, .receive 0, .receive 1,
      .release 1 1, .get 2, .receive 2]).map Prod.fst =
      some [none, none, some (.got 0 (some ⟨0, false⟩) none), some (.got 1 (some ⟨1, false⟩) none),
        some (.released 1 1), none, some (.got 2 (some ⟨1, false⟩) none)] by decide +kernel)
  have hboth := pools_conserve Nat 0 0 2 _ _ rfl rfl _ _ s (fun a ha hc => by subst hc; simp at ha) h _ _ s'
    (fun a ha hc => by subst hc; simp at ha) h'
  exact ⟨_, _, _, _, s, s', rfl, rfl, h, h', by decide, hboth.1.conserved, hboth.2.2 (by decide)⟩

end TheGrind.QueuePool
