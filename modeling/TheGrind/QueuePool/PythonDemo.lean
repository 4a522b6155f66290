import TheGrind.QueuePool.PythonShutdown

/-!
# The Python program

The program of `pool.py`: workers that get a connection, execute and release it, and a main thread that joins them all
and then calls `close`. `demo` guides the pool through it.

* `Demo` : what holds in every state of it; `demo_step` : each step keeps it, and leaves fewer steps to make;
* `demo_goes` : somebody can go on;
* `demo_shuts_down` : it raises nothing but timeouts, is never stuck, and ends with every connection closed.
-/

namespace TheGrind.QueuePool.Python
open TheGrind.Sync TheGrind.Transition TheGrind.QueuePool

variable {τ : Type} [DecidableEq τ] {counter size : Nat}

/-- `worker` and the main thread. A worker that an exception ends is done. -/
def demo [Fintype τ] (stages : τ → Stage) (a : Move τ) (o : Option (Event τ)) : Option (τ → Stage) :=
  match a with
  | .tick _ | .closeNext => some stages
  | .getConn t timeout =>
    if stages t = .start ∧ timeout = some 5 then
      some (Function.update stages t (if o.isSome then .done else .getting))
    else none
  | .get t =>
    if stages t = .getting then
      match o with
      | some (.got _ conn) => some (Function.update stages t (.got conn.number))
      | _ => some (Function.update stages t .done)
    else none
  | .execute t conn =>
    if stages t = .got conn then
      match o with
      | some (.executed _ _ (.ok _)) => some (Function.update stages t (.executed conn))
      | _ => some (Function.update stages t .done)
    else none
  | .releaseConn t conn => if stages t = .executed conn then some (Function.update stages t .done) else none
  | .close => if ∀ t, stages t = .done then some stages else none

/-- The workers have what their stages say, and `close` is called when they are done. -/
structure Demo (size : Nat) (s : State τ) (stages : τ → Stage) : Prop where
  tracks : ∃ r, s.Tracks size r
  workers : Workers s.waiting s.held s.closed (s.closing ≠ .uncalled) stages
  popping : s.closing = .popping → s.pool.items ≠ []
  raised : ∀ error, s.closing ≠ .raised error
  returned : s.closing = .returned → s.AllClosed size

variable {s s' : State τ} {stages stages' : τ → Stage} {a : Move τ} {o : Option (Event τ)} {t : τ} {conn : Nat}

omit [DecidableEq τ] in
theorem demo_init {pool : Bounded Nat} (hnew : ConnectionPool.new size = .ok (some pool)) :
    Demo size (State.init τ pool) fun _ => .start where
  tracks := ⟨_, tracks_init hnew⟩
  workers := .init (not_not.mpr rfl)
  popping h := nomatch h
  raised _ h := nomatch h
  returned h := nomatch h

omit [DecidableEq τ] in
/-- While somebody works, `close` is not called. -/
theorem Demo.uncalled (h : Demo size s stages) (ht : stages t ≠ .done) : s.closing = .uncalled :=
  not_not.mp (h.workers.not_begun ht)

omit [DecidableEq τ] in
/-- `close` is called when no connection is out, and takes only when there is one. -/
theorem Demo.quiet (h : Demo size s stages) : Quiet s a := by
  cases a with
  | closeNext =>
    refine ⟨fun hlooking _ t => ?_, h.popping⟩
    exact (h.workers.at_stage (h.workers.joined (by rw [hlooking]; simp) t)).2
  | tick _ | getConn _ _ | get _ | execute _ _ | releaseConn _ _ | close => trivial

/-- A connection that a worker executes on is open. -/
def Executes (o : Option (Event τ)) : Prop := ∀ t conn error, o ≠ some (.executed t conn (.error error))

omit [DecidableEq τ] in
/-- What a worker holds is open, so the query runs. -/
theorem Demo.execute_eq (h : Demo size s stages) (hconn : conn ∈ s.held t) :
    s.execute counter conn = .ok ("result from conn-" ++ toString (counter + conn + 1)) := by
  obtain ⟨r, hr⟩ := h.tracks
  unfold State.execute
  rw [if_neg (by rw [(hr.of_held hconn).1]; exact Bool.false_ne_true)]

theorem executes_step (h : Demo size s stages) (hs : Steps counter s a o s') : Executes o := by
  intro t conn error ho
  cases hs with
  | executed hholds =>
    rw [h.execute_eq hholds.2] at ho
    cases ho
  | tick _ | refused | wait _ | got _ _ | timedOut _ _ _ | released _ _ | close _ | lookedEmpty _ _ | looked _ _
  | poppedEmpty _ _ | popped _ _ | closed _ => cases ho

def Move.isTick : Move τ → Bool
  | .tick _ => true
  | _ => false

variable [Fintype τ]

/-- The steps that are left of the workers and of `close`. -/
def remaining (size : Nat) (s : State τ) (stages : τ → Stage) : Nat :=
  work stages + s.closing.left (unclosed size s.closed) + if s.closing = .uncalled then 1 else 0

/-- A worker goes on. -/
theorem Demo.worker (h : Demo size s stages) (htracks : ∃ r, s'.Tracks size r) {stage stage' : Stage}
    (ht : stages t = stage) (hlt : stage'.left < stage.left) (hclosing : s'.closing = s.closing)
    (hclosed : s'.closed = s.closed)
    (hworkers : Workers s'.waiting s'.held s.closed (s.closing ≠ .uncalled) (Function.update stages t stage')) :
    Demo size s' (Function.update stages t stage') ∧
      remaining size s' (Function.update stages t stage') + 1 ≤ remaining size s stages := by
  have huncalled : s.closing = .uncalled := by
    refine h.uncalled (t := t) fun hdone => ?_
    rw [← ht, hdone] at hlt
    exact Nat.not_lt_zero _ hlt
  have hclosing' := hclosing.trans huncalled
  refine ⟨⟨htracks, ?_, fun hc => ?_, fun _ hc => ?_, fun hc => ?_⟩, ?_⟩
  · rw [hclosing, hclosed]
    exact hworkers
  · exact nomatch hclosing'.symm.trans hc
  · exact nomatch hclosing'.symm.trans hc
  · exact nomatch hclosing'.symm.trans hc
  · have hwork := work_goto ht hlt
    unfold remaining
    rw [hclosing, hclosed]
    omega

/-- `close` goes on. -/
theorem Demo.close_step (h : Demo size s stages) (hs : Steps counter s .closeNext o s') :
    Demo size s' stages ∧ remaining size s' stages + 1 ≤ remaining size s stages := by
  have htracks := exists_tracks_steps h.tracks hs
  have hreturned := (allClosed_step h.tracks h.quiet h.returned hs).2
  have hleft := left_step h.tracks hs
  have hless (hc : s.closing ≠ .uncalled) (hc' : s'.closing ≠ .uncalled) :
      remaining size s' stages + 1 ≤ remaining size s stages := by
    unfold remaining
    rw [if_neg hc, if_neg hc']
    simp only [Move.isCloseNext, if_true] at hleft
    omega
  cases hs with
  | lookedEmpty hlooking _ =>
    have hc : s.closing ≠ .uncalled := by simp [hlooking]
    exact ⟨⟨htracks, h.workers.shutdown (h.workers.joined hc) (by simp), by simp, by simp, hreturned⟩,
      hless hc (by simp)⟩
  | looked hlooking hne =>
    have hc : s.closing ≠ .uncalled := by simp [hlooking]
    exact ⟨⟨htracks, h.workers.shutdown (h.workers.joined hc) (by simp), fun _ => hne, by simp, hreturned⟩,
      hless hc (by simp)⟩
  | poppedEmpty hpopping hnil => exact absurd hnil (h.popping hpopping)
  | popped hpopping _ =>
    have hc : s.closing ≠ .uncalled := by simp [hpopping]
    exact ⟨⟨htracks, h.workers.shutdown (h.workers.joined hc) (by simp), by simp, by simp, hreturned⟩,
      hless hc (by simp)⟩
  | closed hclosing =>
    have hc : s.closing ≠ .uncalled := by simp [hclosing]
    exact ⟨⟨htracks, h.workers.shutdown (h.workers.joined hc) (by simp), by simp, by simp, hreturned⟩,
      hless hc (by simp)⟩

/-- Every step but those of the clock is one of those that were left. -/
theorem demo_step (h : Demo size s stages) (hs : Steps counter s a o s') (hn : demo stages a o = some stages') :
    Demo size s' stages' ∧ remaining size s' stages' + (if !a.isTick then 1 else 0) ≤ remaining size s stages := by
  have htracks := exists_tracks_steps h.tracks hs
  cases a with
  | closeNext =>
    cases hn
    exact h.close_step hs
  | close =>
    obtain ⟨hall, hn⟩ := Option.ite_none_right_eq_some.mp hn
    cases hn
    cases hs with
    | close huncalled =>
      refine ⟨⟨htracks, h.workers.shutdown hall (by simp), fun hc => (nomatch hc), fun _ hc => (nomatch hc),
        fun hc => (nomatch hc)⟩, ?_⟩
      unfold remaining
      rw [huncalled]
      exact le_rfl
  | tick now =>
    cases hn
    cases hs with
    | tick _ => exact ⟨⟨htracks, h.workers, h.popping, h.raised, h.returned⟩, le_rfl⟩
  | getConn t timeout =>
    obtain ⟨⟨ht, -⟩, hn⟩ := Option.ite_none_right_eq_some.mp hn
    cases hn
    cases hs with
    | refused => exact h.worker htracks ht (show 0 < 4 by decide) rfl rfl (h.workers.refused ht)
    | wait hw => exact h.worker htracks ht (show 3 < 4 by decide) rfl rfl (h.workers.waits ht _)
  | get t =>
    obtain ⟨ht, hn⟩ := Option.ite_none_right_eq_some.mp hn
    cases hs with
    | got hw htake =>
      cases hn
      exact h.worker htracks ht (show 2 < 3 by decide) rfl rfl (h.workers.got ht _)
    | timedOut hw hnil hexpired =>
      cases hn
      exact h.worker htracks ht (show 0 < 3 by decide) rfl rfl (h.workers.timedOut ht)
  | execute t conn =>
    obtain ⟨ht, hn⟩ := Option.ite_none_right_eq_some.mp hn
    cases hs with
    | executed hholds =>
      rw [h.execute_eq hholds.2] at hn
      cases hn
      exact h.worker htracks ht (show 1 < 2 by decide) rfl rfl (h.workers.executed ht)
  | releaseConn t conn =>
    obtain ⟨ht, hn⟩ := Option.ite_none_right_eq_some.mp hn
    cases hn
    cases hs with
    | released hholds hput =>
      exact h.worker htracks ht (show 0 < 1 by decide) rfl rfl (h.workers.released ht)

/-! ## Somebody can go on -/

/-- A worker that has a connection executes on it. -/
theorem Demo.goes_of_got (h : Demo size s stages) (ht : stages t = .got conn) :
    ∃ r, ((connectionPool τ counter).guided demo).step (s, stages) (.execute t conn) = some r := by
  have hholds : s.Holds t conn := h.workers.holds (Or.inl ht)
  have hs : (connectionPool τ counter).step s (.execute t conn) =
      some (some (.executed t conn (s.execute counter conn)), s) := if_pos hholds
  have hn : demo stages (.execute t conn) (some (.executed t conn (s.execute counter conn))) =
      some (Function.update stages t (.executed conn)) := by
    rw [h.execute_eq hholds.2]
    exact if_pos ht
  exact ⟨_, Machine.guided_step_iff.mpr ⟨hs, hn⟩⟩

/-- Then it releases it: there is room. -/
theorem Demo.goes_of_executed (h : Demo size s stages) (ht : stages t = .executed conn) :
    ∃ r, ((connectionPool τ counter).guided demo).step (s, stages) (.releaseConn t conn) = some r := by
  have hholds : s.Holds t conn := h.workers.holds (Or.inr ht)
  obtain ⟨r, hr⟩ := h.tracks
  obtain ⟨pool, hput⟩ := Bounded.exists_put (hr.of_held hholds.2).2.2 conn
  have hs : (connectionPool τ counter).step s (.releaseConn t conn) = some (some (.released t conn),
      { s with pool := pool, held := Function.update s.held t ((s.held t).erase conn) }) := by
    simp only [connectionPool, if_pos hholds, State.releaseConn, hput]
  exact ⟨_, Machine.guided_step_iff.mpr ⟨hs, if_pos ht⟩⟩

theorem Demo.goes_of_start (h : Demo size s stages) (ht : stages t = .start) :
    ∃ r, ((connectionPool τ counter).guided demo).step (s, stages) (.getConn t (some 5)) = some r := by
  have hs : (connectionPool τ counter).step s (.getConn t (some 5)) =
      some (none, { s with waiting := Function.update s.waiting t (some ⟨some 5, s.clock⟩) }) := by
    simp only [connectionPool, State.getConn, (h.workers.at_stage ht).1]
    rfl
  exact ⟨_, Machine.guided_step_iff.mpr ⟨hs, if_pos ⟨ht, rfl⟩⟩⟩

omit [DecidableEq τ] [Fintype τ] in
/-- A connection that nobody holds is in the queue. -/
theorem Demo.items_ne_nil (h : Demo size s stages) (hsize : 0 < size) (huncalled : s.closing = .uncalled)
    (hheld : ∀ t, s.held t = []) : s.pool.items ≠ [] := by
  intro hnil
  obtain ⟨r, hr⟩ := h.tracks
  unfold State.Tracks at hr
  rw [huncalled] at hr
  have hopen := h.workers.unclosed (not_not.mpr huncalled) 0
  exact Bool.false_ne_true (hopen.symm.trans (hr.all_closed hnil hheld 0 hsize))

theorem Demo.goes_of_getting (h : Demo size s stages) (ht : stages t = .getting) (hne : s.pool.items ≠ []) :
    ∃ r, ((connectionPool τ counter).guided demo).step (s, stages) (.get t) = some r := by
  obtain ⟨w, hw⟩ := Option.ne_none_iff_exists'.mp (h.workers.at_stage ht).1
  obtain ⟨⟨conn, pool⟩, htake⟩ := Option.ne_none_iff_exists'.mp fun hnone => hne (Bounded.take_eq_none_iff.mp hnone)
  have hs : (connectionPool τ counter).step s (.get t) = some (some (.got t ⟨conn, s.closed conn⟩),
      { s with
        pool := pool
        waiting := Function.update s.waiting t none
        held := Function.update s.held t (conn :: s.held t) }) := by
    simp only [connectionPool, State.get, hw, htake]
  exact ⟨_, Machine.guided_step_iff.mpr ⟨hs, if_pos ht⟩⟩

theorem Demo.goes_of_called (h : Demo size s stages) (hcalled : s.closing ≠ .uncalled) (hr : s.closing ≠ .returned) :
    ∃ r, ((connectionPool τ counter).guided demo).step (s, stages) .closeNext = some r := by
  obtain ⟨o, s', hs⟩ : ∃ o s', (connectionPool τ counter).step s .closeNext = some (o, s') := by
    simp only [connectionPool, State.closeNext]
    cases hc : s.closing with
    | uncalled => exact absurd hc hcalled
    | returned => exact absurd hc hr
    | raised error => exact absurd hc (h.raised error)
    | looking => cases s.pool.items.isEmpty <;> exact ⟨_, _, rfl⟩
    | popping => cases s.pool.take <;> exact ⟨_, _, rfl⟩
    | closing conn => exact ⟨_, _, rfl⟩
  exact ⟨_, Machine.guided_step_iff.mpr ⟨hs, rfl⟩⟩

/-- Until `close` has returned, the program can go on without the clock. -/
theorem demo_goes (hsize : 0 < size) (h : Demo size s stages) (hr : s.closing ≠ .returned) :
    ∃ a r, a.isTick = false ∧ ((connectionPool τ counter).guided demo).step (s, stages) a = some r := by
  by_cases huncalled : s.closing = .uncalled
  · rcases h.workers.phases with ⟨t, conn, ht⟩ | ⟨t, conn, ht⟩ | ⟨t, ht⟩ | hall | ⟨⟨t, ht⟩, hheld⟩
    · exact ⟨_, _, rfl, (h.goes_of_got ht).choose_spec⟩
    · exact ⟨_, _, rfl, (h.goes_of_executed ht).choose_spec⟩
    · exact ⟨_, _, rfl, (h.goes_of_start ht).choose_spec⟩
    · exact ⟨.close, _, rfl, Machine.guided_step_iff.mpr ⟨if_pos huncalled, if_pos hall⟩⟩
    · exact ⟨_, _, rfl, (h.goes_of_getting ht (h.items_ne_nil hsize huncalled hheld)).choose_spec⟩
  · exact ⟨_, _, rfl, (h.goes_of_called huncalled hr).choose_spec⟩

/-- **The program shuts down.** In every run of the program: no query runs on a closed connection and `close` does not
raise; until `close` has returned somebody can go on, and the program takes a bounded number of steps; once it has
returned, the workers are done and every connection is closed. -/
theorem demo_shuts_down (counter size : Nat) (pool : Bounded Nat) (hsize : 0 < size)
    (hnew : ConnectionPool.new size = .ok (some pool)) (moves : List (Move τ)) (os : List (Option (Event τ)))
    (s : State τ) (stages : τ → Stage)
    (h : ((connectionPool τ counter).guided demo).run (.init τ pool, fun _ => .start) moves = some (os, s, stages)) :
    (∀ o ∈ os, NoRaise o ∧ Executes o) ∧
    (s.closing ≠ .returned →
      ∃ a r, a.isTick = false ∧ ((connectionPool τ counter).guided demo).step (s, stages) a = some r) ∧
    moves.countP (fun a => !a.isTick) ≤ 4 * Fintype.card τ + 3 * size + 3 ∧
    (s.closing = .returned → s.AllClosed size ∧ ∀ t, stages t = .done) := by
  have hinit := demo_init (τ := τ) hnew
  have hkeep {s : State τ × (τ → Stage)} {a : Move τ} {o : Option (Event τ)} {s' : State τ × (τ → Stage)}
      (hd : Demo size s.1 s.2) (hs : ((connectionPool τ counter).guided demo).step s a = some (o, s')) :=
    demo_step hd (steps_of_step (Machine.guided_step_iff.mp hs).1) (Machine.guided_step_iff.mp hs).2
  obtain ⟨hout, hdemo⟩ := Machine.run_outputs (M := (connectionPool τ counter).guided demo)
    (P := fun s => Demo size s.1 s.2) (G := fun o => NoRaise o ∧ Executes o)
    (fun hd hs => (by
      have hsteps := steps_of_step (Machine.guided_step_iff.mp hs).1
      have hraise := (allClosed_step hd.tracks hd.quiet hd.returned hsteps).1
      exact ⟨⟨hraise, executes_step hd hsteps⟩, (hkeep hd hs).1⟩)) hinit h
  have hrank := Machine.run_rank (M := (connectionPool τ counter).guided demo) (P := fun s => Demo size s.1 s.2)
    (r := fun s => remaining size s.1 s.2) (p := fun a => !a.isTick) (fun hd hs => (hkeep hd hs).1)
    (fun hd hs => (hkeep hd hs).2) hinit h
  refine ⟨hout, fun hr => demo_goes hsize hdemo hr, ?_, fun hret => ⟨hdemo.returned hret, hdemo.workers.joined ?_⟩⟩
  · have hstart : remaining size (State.init τ pool) (fun _ => .start) ≤ 4 * Fintype.card τ + 3 * size + 3 := by
      have hle := unclosed_le size (State.init τ pool).closed
      unfold remaining
      rw [work_start]
      show 4 * Fintype.card τ + (3 * unclosed size (State.init τ pool).closed + 2) + 1 ≤ _
      omega
    exact (Nat.le_add_left _ _).trans (hrank.trans hstart)
  · rw [hret]
    simp

/-- Two workers share a connection, one after the other. -/
def demoMoves : List (Move Bool) :=
  [.getConn false (some 5), .getConn true (some 5), .get false, .execute false 0, .releaseConn false 0, .tick 1,
    .get true, .execute true 0, .releaseConn true 0, .close, .closeNext, .closeNext, .closeNext, .closeNext]

theorem demo_shuts_down_example :
    ∃ pool os s stages, ConnectionPool.new 1 = .ok (some pool) ∧
      ((connectionPool Bool 0).guided demo).run (.init Bool pool, fun _ => .start) demoMoves =
        some (os, s, stages) ∧ s.AllClosed 1 := by
  have hrun : (((connectionPool Bool 0).guided demo).run (.init Bool ⟨[0], 1, by decide⟩, fun _ => .start)
      demoMoves).map (fun r => decide (r.2.1.closing = .returned)) = some true := by
    decide +kernel
  obtain ⟨⟨os, s, stages⟩, h, hret⟩ := Option.map_eq_some_iff.mp hrun
  obtain ⟨-, -, -, hend⟩ := demo_shuts_down 0 1 _ Nat.one_pos rfl demoMoves os s stages h
  exact ⟨_, os, s, stages, rfl, h, (hend (of_decide_eq_true hret)).1⟩

end TheGrind.QueuePool.Python
