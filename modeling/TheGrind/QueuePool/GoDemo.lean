import TheGrind.QueuePool.GoShutdown

/-!
# The Go program

The program of `pool.go`: goroutines that get a connection, execute and release it, and `main`, which waits for them all
and then calls `Close`. `demo` guides the pool through it.

* `Demo` : what holds in every state of it; `demo_step` : each step keeps it, and leaves fewer steps to make;
* `demo_goes` : somebody can go on;
* `demo_closes` : it does not panic, is never stuck, and ends with every connection closed.
-/

namespace TheGrind.QueuePool.Go
open TheGrind.Sync TheGrind.Transition TheGrind.QueuePool

variable {τ : Type} [DecidableEq τ] {counter size : Nat}

/-- `worker` and `main`. A worker whose `Get` returned an error is done. -/
def demo [Fintype τ] (stages : τ → Stage) (a : Move τ) (o : Option (Event τ)) : Option (τ → Stage) :=
  match a with
  | .tick _ | .closeNext => some stages
  | .get t => if stages t = .start then some (Function.update stages t .getting) else none
  | .receive t =>
    if stages t = .getting then
      match o with
      | some (.got _ (some conn) _) => some (Function.update stages t (.got conn.number))
      | _ => some (Function.update stages t .done)
    else none
  | .timeout t => if stages t = .getting then some (Function.update stages t .done) else none
  | .execute t conn => if stages t = .got conn then some (Function.update stages t (.executed conn)) else none
  | .release t conn => if stages t = .executed conn then some (Function.update stages t .done) else none
  | .close => if ∀ t, stages t = .done then some stages else none

/-- The workers have what their stages say, and `Close` is called when they are done. -/
structure Demo (size : Nat) (s : State τ) (stages : τ → Stage) : Prop where
  tracks : ∃ r, s.Tracks size r
  workers : Workers s.waiting s.held s.closed (s.closing ≠ .uncalled) stages
  running : s.panicked = false

variable {s s' : State τ} {stages stages' : τ → Stage} {a : Move τ} {o : Option (Event τ)} {t : τ} {conn : Nat}

omit [DecidableEq τ] in
theorem demo_init {conns : Channel Nat} (hnew : newPool size = some conns) :
    Demo size (State.init τ size conns) fun _ => .start where
  tracks := ⟨_, tracks_init hnew⟩
  workers := .init (not_not.mpr rfl)
  running := rfl

omit [DecidableEq τ] in
/-- While somebody works, the channel is open. -/
theorem Demo.isOpen (h : Demo size s stages) (ht : stages t ≠ .done) : s.conns.closed = false := by
  obtain ⟨r, hr⟩ := h.tracks
  exact hr.closed.mpr (not_not.mp (h.workers.not_begun ht))

/-- How many steps `Close` has before it at most, with `n` connections open. -/
def Closing.left (n : Nat) : Closing → Nat
  | .uncalled => 2 * n + 2
  | .ranging => 2 * n + 1
  | .closing _ => 2 * n
  | .returned => 0

def Move.isTick : Move τ → Bool
  | .tick _ => true
  | _ => false

variable [Fintype τ]

/-- No operation of the program runs into the closed channel. -/
theorem Demo.runs (h : Demo size s stages) (hn : demo stages a o = some stages') : Running s a := by
  cases a with
  | receive t =>
    obtain ⟨ht, -⟩ := Option.ite_none_right_eq_some.mp hn
    intro hclosed
    exact nomatch (h.isOpen (t := t) (by simp [ht])).symm.trans hclosed
  | release t conn =>
    obtain ⟨ht, -⟩ := Option.ite_none_right_eq_some.mp hn
    exact h.isOpen (t := t) (by simp [ht])
  | tick _ | get _ | timeout _ | execute _ _ | close | closeNext => trivial

/-- The steps that are left of the workers and of `Close`. -/
def remaining (size : Nat) (s : State τ) (stages : τ → Stage) : Nat :=
  work stages + s.closing.left (unclosed size s.closed)

/-- A worker goes on. -/
theorem Demo.worker (h : Demo size s stages) (htracks : ∃ r, s'.Tracks size r) {stage stage' : Stage}
    (ht : stages t = stage) (hlt : stage'.left < stage.left) (hclosing : s'.closing = s.closing)
    (hclosed : s'.closed = s.closed) (hpanicked : s'.panicked = s.panicked)
    (hworkers : Workers s'.waiting s'.held s.closed (s.closing ≠ .uncalled) (Function.update stages t stage')) :
    Demo size s' (Function.update stages t stage') ∧
      remaining size s' (Function.update stages t stage') + 1 ≤ remaining size s stages := by
  refine ⟨⟨htracks, ?_, hpanicked.trans h.running⟩, ?_⟩
  · rw [hclosing, hclosed]
    exact hworkers
  · have hwork := work_goto ht hlt
    unfold remaining
    rw [hclosing, hclosed]
    omega

/-- `Close` goes on. -/
theorem Demo.close_step (h : Demo size s stages) (hs : Steps counter s .closeNext o s') :
    Demo size s' stages ∧ remaining size s' stages + 1 ≤ remaining size s stages := by
  have htracks := exists_tracks_steps h.tracks hs
  have hless (hleft : s'.closing.left (unclosed size s'.closed) + 1 ≤ s.closing.left (unclosed size s.closed)) :
      remaining size s' stages + 1 ≤ remaining size s stages := by
    unfold remaining
    omega
  cases hs with
  | popped hranging _ =>
    have hall := h.workers.joined (by simp [hranging])
    refine ⟨⟨htracks, h.workers.shutdown hall (by simp), h.running⟩, hless ?_⟩
    rw [hranging]
    exact le_rfl
  | drained hranging _ =>
    have hall := h.workers.joined (by simp [hranging])
    refine ⟨⟨htracks, h.workers.shutdown hall (by simp), h.running⟩, hless ?_⟩
    rw [hranging]
    exact Nat.le_add_left _ _
  | closed hclosing =>
    have hall := h.workers.joined (by simp [hclosing])
    refine ⟨⟨htracks, h.workers.shutdown hall (by simp), h.running⟩, hless ?_⟩
    obtain ⟨r, hr⟩ := h.tracks
    have hconns := hr.conns
    rw [hclosing] at hconns ⊢
    obtain ⟨hopen, hlt⟩ := hconns.of_hand
    have hupdate := unclosed_update hopen hlt
    simp only [Closing.left]
    omega

/-- Every step but those of the clock is one of those that were left. -/
theorem demo_step (h : Demo size s stages) (hs : Steps counter s a o s') (hn : demo stages a o = some stages') :
    Demo size s' stages' ∧ remaining size s' stages' + (if !a.isTick then 1 else 0) ≤ remaining size s stages := by
  have htracks := exists_tracks_steps h.tracks hs
  have hrunning := h.runs hn
  cases a with
  | closeNext =>
    cases hn
    exact h.close_step hs
  | close =>
    obtain ⟨hall, hn⟩ := Option.ite_none_right_eq_some.mp hn
    cases hn
    cases hs with
    | close huncalled _ =>
      refine ⟨⟨htracks, h.workers.shutdown hall (by simp), h.running⟩, ?_⟩
      unfold remaining
      rw [huncalled]
      exact le_rfl
    | closeClosed huncalled hclosed =>
      obtain ⟨r, hr⟩ := h.tracks
      exact nomatch (hr.closed.mpr huncalled).symm.trans hclosed
  | tick now =>
    cases hn
    cases hs with
    | tick _ => exact ⟨⟨htracks, h.workers, h.running⟩, le_rfl⟩
  | get t =>
    obtain ⟨ht, hn⟩ := Option.ite_none_right_eq_some.mp hn
    cases hn
    cases hs with
    | wait => exact h.worker htracks ht (show 3 < 4 by decide) rfl rfl rfl (h.workers.waits ht _)
  | receive t =>
    obtain ⟨ht, hn⟩ := Option.ite_none_right_eq_some.mp hn
    cases hs with
    | got htake =>
      cases hn
      exact h.worker htracks ht (show 2 < 3 by decide) rfl rfl rfl (h.workers.got ht _)
    | gotNil hclosed hnil => exact absurd hnil (hrunning hclosed)
  | timeout t =>
    obtain ⟨ht, hn⟩ := Option.ite_none_right_eq_some.mp hn
    cases hn
    cases hs with
    | timedOut => exact h.worker htracks ht (show 0 < 3 by decide) rfl rfl rfl (h.workers.timedOut ht)
  | execute t conn =>
    obtain ⟨ht, hn⟩ := Option.ite_none_right_eq_some.mp hn
    cases hn
    cases hs with
    | executed hholds hopen =>
      exact h.worker htracks ht (show 1 < 2 by decide) rfl rfl rfl (h.workers.executed ht)
    | executedClosed hholds hclosed =>
      obtain ⟨r, hr⟩ := h.tracks
      exact nomatch (hr.conns.of_held hholds.2).1.symm.trans hclosed
  | release t conn =>
    obtain ⟨ht, hn⟩ := Option.ite_none_right_eq_some.mp hn
    cases hn
    cases hs with
    | released hholds hopen hput =>
      exact h.worker htracks ht (show 0 < 1 by decide) rfl rfl rfl (h.workers.released ht)
    | releasedClosed _ hclosed => exact nomatch hrunning.symm.trans hclosed

/-! ## Somebody can go on -/

/-- A worker that has a connection executes on it. -/
theorem Demo.goes_of_got (h : Demo size s stages) (ht : stages t = .got conn) :
    ∃ r, ((pool τ counter).guided demo).step (s, stages) (.execute t conn) = some r := by
  have hholds : s.Holds t conn := h.workers.holds (Or.inl ht)
  have hs : (pool τ counter).step s (.execute t conn) = some (s.execute counter t conn) := by
    simp only [pool, h.running, if_pos hholds]
    rfl
  exact ⟨_, Machine.guided_step_iff.mpr ⟨hs, if_pos ht⟩⟩

/-- Then it releases it: there is room, and the channel is open. -/
theorem Demo.goes_of_executed (h : Demo size s stages) (ht : stages t = .executed conn) :
    ∃ r, ((pool τ counter).guided demo).step (s, stages) (.release t conn) = some r := by
  have hholds : s.Holds t conn := h.workers.holds (Or.inr ht)
  have hopen := h.isOpen (t := t) (by simp [ht])
  obtain ⟨r, hr⟩ := h.tracks
  obtain ⟨buffer, hput⟩ := Bounded.exists_put (hr.conns.of_held hholds.2).2.2 conn
  have hs : (pool τ counter).step s (.release t conn) = some (some (.released t conn),
      { s with
        conns := { s.conns with buffer := buffer }
        held := Function.update s.held t ((s.held t).erase conn) }) := by
    simp only [pool, h.running, if_pos hholds, State.release, Channel.send, hopen, hput]
    rfl
  exact ⟨_, Machine.guided_step_iff.mpr ⟨hs, if_pos ht⟩⟩

theorem Demo.goes_of_start (h : Demo size s stages) (ht : stages t = .start) :
    ∃ r, ((pool τ counter).guided demo).step (s, stages) (.get t) = some r := by
  have hs : (pool τ counter).step s (.get t) =
      some (none, { s with waiting := Function.update s.waiting t (some (s.clock + 5)) }) := by
    simp only [pool, h.running, State.get, (h.workers.at_stage ht).1]
    rfl
  exact ⟨_, Machine.guided_step_iff.mpr ⟨hs, if_pos ht⟩⟩

omit [DecidableEq τ] [Fintype τ] in
/-- A connection that nobody holds is in the channel. -/
theorem Demo.items_ne_nil (h : Demo size s stages) (hsize : 0 < size) (huncalled : s.closing = .uncalled)
    (hheld : ∀ t, s.held t = []) : s.conns.buffer.items ≠ [] := by
  intro hnil
  obtain ⟨r, hr⟩ := h.tracks
  have hconns := hr.conns
  rw [huncalled] at hconns
  have hopen := h.workers.unclosed (not_not.mpr huncalled) 0
  exact Bool.false_ne_true (hopen.symm.trans (hconns.all_closed hnil hheld 0 hsize))

theorem Demo.goes_of_getting (h : Demo size s stages) (ht : stages t = .getting) (hne : s.conns.buffer.items ≠ []) :
    ∃ r, ((pool τ counter).guided demo).step (s, stages) (.receive t) = some r := by
  obtain ⟨deadline, hw⟩ := Option.ne_none_iff_exists'.mp (h.workers.at_stage ht).1
  obtain ⟨⟨conn, buffer⟩, htake⟩ := Option.ne_none_iff_exists'.mp fun hnone => hne (Bounded.take_eq_none_iff.mp hnone)
  have hs : (pool τ counter).step s (.receive t) = some (some (.got t (some ⟨conn, s.closed conn⟩) none),
      { s with
        conns := { s.conns with buffer := buffer }
        waiting := Function.update s.waiting t none
        held := Function.update s.held t (conn :: s.held t) }) := by
    simp only [pool, h.running, State.receive, hw, Channel.receive, htake]
    rfl
  exact ⟨_, Machine.guided_step_iff.mpr ⟨hs, if_pos ht⟩⟩

theorem Demo.goes_of_done (h : Demo size s stages) (hall : ∀ t, stages t = .done) (huncalled : s.closing = .uncalled) :
    ∃ r, ((pool τ counter).guided demo).step (s, stages) .close = some r := by
  have hs : (pool τ counter).step s .close = some s.close := by
    simp only [pool, h.running, if_pos huncalled]
    rfl
  exact ⟨_, Machine.guided_step_iff.mpr ⟨hs, if_pos hall⟩⟩

theorem Demo.goes_of_called (h : Demo size s stages) (hcalled : s.closing ≠ .uncalled) (hr : s.closing ≠ .returned) :
    ∃ r, ((pool τ counter).guided demo).step (s, stages) .closeNext = some r := by
  obtain ⟨r, htracks⟩ := h.tracks
  have hclosed : s.conns.closed = true := by
    rw [← Bool.not_eq_false, htracks.closed]
    exact hcalled
  obtain ⟨o, s', hs⟩ : ∃ o s', (pool τ counter).step s .closeNext = some (o, s') := by
    simp only [pool, h.running, State.closeNext]
    cases hc : s.closing with
    | uncalled => exact absurd hc hcalled
    | returned => exact absurd hc hr
    | ranging =>
      rcases s.conns.receive_cases with ⟨x, buffer, -, hreceive⟩ | ⟨-, -, hreceive⟩ | ⟨-, hopen, -⟩
      · exact ⟨_, _, by rw [hreceive]; rfl⟩
      · exact ⟨_, _, by rw [hreceive]; rfl⟩
      · exact absurd (hopen.symm.trans hclosed) Bool.false_ne_true
    | closing conn => exact ⟨_, _, rfl⟩
  exact ⟨_, Machine.guided_step_iff.mpr ⟨hs, rfl⟩⟩

/-- Until `Close` has returned, the program can go on without the clock. -/
theorem demo_goes (hsize : 0 < size) (h : Demo size s stages) (hr : s.closing ≠ .returned) :
    ∃ a r, a.isTick = false ∧ ((pool τ counter).guided demo).step (s, stages) a = some r := by
  by_cases huncalled : s.closing = .uncalled
  · rcases h.workers.phases with ⟨t, conn, ht⟩ | ⟨t, conn, ht⟩ | ⟨t, ht⟩ | hall | ⟨⟨t, ht⟩, hheld⟩
    · exact ⟨_, _, rfl, (h.goes_of_got ht).choose_spec⟩
    · exact ⟨_, _, rfl, (h.goes_of_executed ht).choose_spec⟩
    · exact ⟨_, _, rfl, (h.goes_of_start ht).choose_spec⟩
    · exact ⟨_, _, rfl, (h.goes_of_done hall huncalled).choose_spec⟩
    · exact ⟨_, _, rfl, (h.goes_of_getting ht (h.items_ne_nil hsize huncalled hheld)).choose_spec⟩
  · exact ⟨_, _, rfl, (h.goes_of_called huncalled hr).choose_spec⟩

/-- **The program shuts down.** In every run of the program: nothing panics; until `Close` has returned somebody can go
on, and the program takes a bounded number of steps; once it has returned, the goroutines are done and every connection
is closed. -/
theorem demo_closes (counter size : Nat) (conns : Channel Nat) (hsize : 0 < size) (hnew : newPool size = some conns)
    (moves : List (Move τ)) (os : List (Option (Event τ))) (s : State τ) (stages : τ → Stage)
    (h : ((pool τ counter).guided demo).run (.init τ size conns, fun _ => .start) moves = some (os, s, stages)) :
    (∀ o ∈ os, NoPanic o) ∧
    (s.closing ≠ .returned → ∃ a r, a.isTick = false ∧ ((pool τ counter).guided demo).step (s, stages) a = some r) ∧
    moves.countP (fun a => !a.isTick) ≤ 4 * Fintype.card τ + 2 * size + 2 ∧
    (s.closing = .returned → (∀ conn < size, s.closed conn = true) ∧ ∀ t, stages t = .done) := by
  have hinit := demo_init (τ := τ) hnew
  have hkeep {s : State τ × (τ → Stage)} {a : Move τ} {o : Option (Event τ)} {s' : State τ × (τ → Stage)}
      (hd : Demo size s.1 s.2) (hs : ((pool τ counter).guided demo).step s a = some (o, s')) :=
    demo_step hd (steps_of_step (Machine.guided_step_iff.mp hs).1) (Machine.guided_step_iff.mp hs).2
  obtain ⟨hout, hdemo⟩ := Machine.run_outputs (M := (pool τ counter).guided demo) (P := fun s => Demo size s.1 s.2)
    (G := NoPanic) (fun hd hs => (by
      obtain ⟨hpool, hguide⟩ := Machine.guided_step_iff.mp hs
      exact ⟨(noPanic_iff_running hd.tracks (steps_of_step hpool)).mpr (hd.runs hguide), (hkeep hd hs).1⟩)) hinit h
  have hrank := Machine.run_rank (M := (pool τ counter).guided demo) (P := fun s => Demo size s.1 s.2)
    (r := fun s => remaining size s.1 s.2) (p := fun a => !a.isTick) (fun hd hs => (hkeep hd hs).1)
    (fun hd hs => (hkeep hd hs).2) hinit h
  refine ⟨hout, fun hr => demo_goes hsize hdemo hr, ?_, fun hret => ?_⟩
  · have hstart : remaining size (State.init τ size conns) (fun _ => .start) ≤ 4 * Fintype.card τ + 2 * size + 2 := by
      have hle := unclosed_le size (State.init τ size conns).closed
      unfold remaining
      rw [work_start]
      show 4 * Fintype.card τ + (2 * unclosed size (State.init τ size conns).closed + 2) ≤ _
      omega
    exact (Nat.le_add_left _ _).trans (hrank.trans hstart)
  · have hall := hdemo.workers.joined (by rw [hret]; simp)
    exact ⟨closed_of_finished hdemo.tracks ⟨hret, fun t => hdemo.workers.at_stage (hall t)⟩, hall⟩

/-- Two goroutines share a connection, one after the other. -/
def demoMoves : List (Move (Fin 2)) :=
  [.get 0, .get 1, .receive 0, .execute 0 0, .release 0 0, .tick 1, .receive 1, .execute 1 0, .release 1 0, .close,
    .closeNext, .closeNext, .closeNext]

theorem demo_closes_example :
    ∃ conns os s stages, newPool 1 = some conns ∧
      ((pool (Fin 2) 0).guided demo).run (.init (Fin 2) 1 conns, fun _ => .start) demoMoves = some (os, s, stages) ∧
      s.closed 0 = true := by
  have hrun : (((pool (Fin 2) 0).guided demo).run (.init (Fin 2) 1 ⟨⟨[0], 1, by decide⟩, false⟩, fun _ => .start)
      demoMoves).map (fun r => decide (r.2.1.closing = .returned)) = some true := by
    decide +kernel
  obtain ⟨⟨os, s, stages⟩, h, hret⟩ := Option.map_eq_some_iff.mp hrun
  obtain ⟨-, -, -, hend⟩ := demo_closes 0 1 _ Nat.one_pos rfl demoMoves os s stages h
  exact ⟨_, os, s, stages, rfl, h, (hend (of_decide_eq_true hret)).1 0 Nat.one_pos⟩

end TheGrind.QueuePool.Go
