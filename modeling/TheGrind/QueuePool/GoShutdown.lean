import TheGrind.QueuePool.Go

/-!
# Closing the Go pool

`Close` closes the channel, and nothing tells the goroutines that still use it: a `Release` then sends on a closed
channel, and a `Get` that finds it drained prints the ID of a `nil` connection. Both end the process.

* `Running` : no operation of a step runs into the closed channel; `noPanic_iff_running` : these are the panics;
* `Safe` : what the shutdown should be in a run;
* `shutdown_safe_iff` : in which runs it is.
-/

namespace TheGrind.QueuePool.Go
open TheGrind.Sync TheGrind.Transition TheGrind.QueuePool

variable {τ : Type} [DecidableEq τ] {counter size : Nat} {s s' : State τ} {a : Move τ} {o : Option (Event τ)}

/-- A `Get` does not take the zero value of a channel that is closed and drained, and a `Release` does not send on a
closed channel. -/
def Running (s : State τ) : Move τ → Prop
  | .receive _ => s.conns.closed = true → s.conns.buffer.items ≠ []
  | .release _ _ => s.conns.closed = false
  | _ => True

instance (s : State τ) : DecidablePred (Running s)
  | .receive _ => inferInstanceAs (Decidable (s.conns.closed = true → s.conns.buffer.items ≠ []))
  | .release _ _ => inferInstanceAs (Decidable (s.conns.closed = false))
  | .tick _ | .get _ | .timeout _ | .execute _ _ | .close | .closeNext => inferInstanceAs (Decidable True)

def NoPanic (o : Option (Event τ)) : Prop := ∀ message, o ≠ some (.panicked message)

/-- `Close` has returned, and every goroutine is done. -/
def State.Finished (s : State τ) : Prop := s.closing = .returned ∧ ∀ t, s.waiting t = none ∧ s.held t = []

/-- A `Get` has returned a connection that is open, or an error. -/
def GetOk (o : Option (Event τ)) : Prop :=
  ∀ t conn err, o = some (.got t conn err) →
    (conn ≠ none ∧ err = none ∨ conn = none ∧ err ≠ none) ∧ ∀ c ∈ conn, c.closed = false

/-- No operation has panicked, every `Get` returned an open connection or an error, and all connections are closed once
`Close` and the goroutines are done. -/
structure Safe (size : Nat) (os : List (Option (Event τ))) (s : State τ) : Prop where
  noPanic : ∀ o ∈ os, NoPanic o
  getOk : ∀ o ∈ os, GetOk o
  closed : s.Finished → ∀ conn < size, s.closed conn = true

theorem noPanic_iff_running (h : ∃ r, s.Tracks size r) (hs : Steps counter s a o s') : NoPanic o ↔ Running s a := by
  obtain ⟨r, hr⟩ := h
  have hfine : ∀ {o : Option (Event τ)} {a : Move τ}, NoPanic o → Running s a → (NoPanic o ↔ Running s a) :=
    fun ho ha => ⟨fun _ => ha, fun _ => ho⟩
  have hpanic : ∀ {message : String} {a : Move τ}, ¬Running s a →
      (NoPanic (some (.panicked message) : Option (Event τ)) ↔ Running s a) := fun ha =>
     ⟨fun hno => absurd rfl (hno _), fun hrun => absurd hrun ha⟩
  have hnone : NoPanic (none : Option (Event τ)) := fun _ h => by cases h
  cases hs with
  | tick _ | wait | close _ _ | closed _ => exact hfine hnone trivial
  | timedOut | executed _ _ | popped _ _ | drained _ _ => exact hfine (fun _ h => by cases h) trivial
  | got htake =>
    refine hfine (fun _ h => by cases h) fun _ hnil => ?_
    rw [Bounded.take_eq_none_iff.mpr hnil] at htake
    cases htake
  | gotNil hclosed hnil => exact hpanic fun hrun => hrun hclosed hnil
  | released _ hopen _ => exact hfine (fun _ h => by cases h) hopen
  | releasedClosed _ hclosed => exact hpanic fun hrun => Bool.false_ne_true (hrun.symm.trans hclosed)
  | executedClosed hholds hclosed =>
    have hopen := (hr.conns.of_held hholds.2).1
    exact absurd (hopen.symm.trans hclosed) Bool.false_ne_true
  | closeClosed huncalled hclosed =>
    have hopen := hr.closed.mpr huncalled
    exact absurd (hopen.symm.trans hclosed) Bool.false_ne_true

theorem getOk_step (h : ∃ r, s.Tracks size r) (hs : Steps counter s a o s') : GetOk o := by
  obtain ⟨r, hr⟩ := h
  intro t conn err ho
  cases hs with
  | got htake =>
    cases ho
    have hitems := (Bounded.take_eq_some_iff.mp htake).1
    refine ⟨Or.inl ⟨by simp, rfl⟩, fun c hc => ?_⟩
    obtain rfl := Option.some.inj hc
    exact (hr.conns.of_idle (by rw [hitems]; exact List.mem_cons_self)).1
  | timedOut =>
    cases ho
    exact ⟨Or.inr ⟨rfl, by simp⟩, fun c hc => by cases hc⟩
  | tick _ | wait | gotNil _ _ | executed _ _ | executedClosed _ _ | released _ _ _ | releasedClosed _ _ | close _ _
  | closeClosed _ _ | popped _ _ | drained _ _ | closed _ => cases ho

theorem getOk_run {conns : Channel Nat} {moves : List (Move τ)} {os : List (Option (Event τ))}
    (hnew : newPool size = some conns) (h : (pool τ counter).run (.init τ size conns) moves = some (os, s)) :
    ∀ o ∈ os, GetOk o :=
  (Machine.run_outputs (M := pool τ counter) (P := fun s => ∃ r, s.Tracks size r)
    (fun hP hs => ⟨getOk_step hP (steps_of_step hs), exists_tracks_step hP hs⟩) ⟨_, tracks_init hnew⟩ h).1

omit [DecidableEq τ] in
/-- When all is done, nothing is left that could be open. -/
theorem closed_of_finished (h : ∃ r, s.Tracks size r) (hfin : s.Finished) : ∀ conn < size, s.closed conn = true := by
  obtain ⟨r, hr⟩ := h
  have hconns := hr.conns
  rw [hfin.1] at hconns
  exact hconns.all_closed (hr.drained hfin.1) fun t => (hfin.2 t).2

/-- **When the shutdown of the Go pool is safe.** It is in exactly the runs in which no `Release` sends once `Close` has
closed the channel, and no `Get` receives once it is drained as well. A `Get` whose timer has fired can always
return. -/
theorem shutdown_safe_iff (counter size : Nat) (conns : Channel Nat) (hnew : newPool size = some conns)
    (moves : List (Move τ)) (os : List (Option (Event τ))) (s : State τ)
    (h : (pool τ counter).run (.init τ size conns) moves = some (os, s)) :
    (Safe size os s ↔ (pool τ counter).Along Running (.init τ size conns) moves) ∧
    ∀ t deadline, s.panicked = false → s.waiting t = some deadline → deadline ≤ s.clock →
      ∃ r, (pool τ counter).step s (.timeout t) = some r := by
  have hrunning := Machine.run_along_iff_of_invariant (M := pool τ counter) (P := fun s => ∃ r, s.Tracks size r)
    (G := NoPanic) (fun hP hs => exists_tracks_step hP hs) (fun hP hs => noPanic_iff_running hP (steps_of_step hs))
    ⟨_, tracks_init hnew⟩ h
  obtain ⟨-, r, -, htracks⟩ := tracks_run hnew h
  refine ⟨⟨fun hsafe => hrunning.mp hsafe.noPanic, fun hall => ?_⟩, fun t deadline hp hw hle => ?_⟩
  · exact ⟨hrunning.mpr hall, getOk_run hnew h, closed_of_finished ⟨r, htracks⟩⟩
  · simp only [pool, hp, State.timeout, hw]
    rw [if_neg (by decide), if_pos hle]
    exact ⟨_, rfl⟩

/-- One goroutine gets, executes and releases, then `Close` closes both connections. -/
theorem shutdown_safe_iff_example :
    ∃ conns s, newPool 2 = some conns ∧ (pool Nat 0).run (.init Nat 2 conns)
        [.get 0, .receive 0, .execute 0 0, .release 0 0, .close, .closeNext, .closeNext, .closeNext, .closeNext,
          .closeNext] =
      some ([none, some (.got 0 (some ⟨0, false⟩) none), some (.executed 0 0 "result from conn-1"),
        some (.released 0 0), none, some (.popped 1), none, some (.popped 0), none, some .closeReturned], s) ∧
      Safe 2 [none, some (.got 0 (some ⟨0, false⟩) none), some (.executed 0 0 "result from conn-1"),
        some (.released 0 0), none, some (.popped 1), none, some (.popped 0), none, some .closeReturned] s := by
  obtain ⟨s, h⟩ := Machine.exists_run (pool Nat 0) (s := .init Nat 2 ⟨⟨[0, 1], 2, by decide⟩, false⟩)
    (show ((pool Nat 0).run (.init Nat 2 ⟨⟨[0, 1], 2, by decide⟩, false⟩) [.get 0, .receive 0, .execute 0 0,
      .release 0 0, .close, .closeNext, .closeNext, .closeNext, .closeNext, .closeNext]).map Prod.fst =
      some [none, some (.got 0 (some ⟨0, false⟩) none), some (.executed 0 0 "result from conn-1"),
        some (.released 0 0), none, some (.popped 1), none, some (.popped 0), none, some .closeReturned] by
      decide +kernel)
  exact ⟨_, s, rfl, h, (shutdown_safe_iff 0 2 _ rfl _ _ s h).1.mpr (by decide +kernel)⟩

/-- `Close` closes the channel while a goroutine holds the one connection, and its `Release` panics. -/
theorem release_after_close_panics : ¬∀ (size : Nat) (conns : Channel Nat) (moves : List (Move Nat))
    (os : List (Option (Event Nat))) (s : State Nat), 1 ≤ size → newPool size = some conns →
    (pool Nat 0).run (.init Nat size conns) moves = some (os, s) → Safe size os s := by
  intro hall
  obtain ⟨s, h⟩ := Machine.exists_run (pool Nat 0) (s := .init Nat 1 ⟨⟨[0], 1, by decide⟩, false⟩)
    (show ((pool Nat 0).run (.init Nat 1 ⟨⟨[0], 1, by decide⟩, false⟩) [.get 0, .receive 0, .close, .closeNext,
      .execute 0 0, .release 0 0]).map Prod.fst =
      some [none, some (.got 0 (some ⟨0, false⟩) none), none, some .closeReturned,
        some (.executed 0 0 "result from conn-1"), some (.panicked "send on closed channel")] by decide +kernel)
  have hsafe := hall 1 _ _ _ s (le_refl 1) rfl h
  exact hsafe.noPanic (some (.panicked "send on closed channel")) (by decide) _ rfl

end TheGrind.QueuePool.Go
