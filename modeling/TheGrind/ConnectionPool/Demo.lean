import TheGrind.ConnectionPool.Progress

/-!
# The workers of the SimpleConnectionPool

The program around the pool: each `worker` borrows a connection with a timeout, sleeps, and returns it; a `TimeoutError`
ends it. `demo` guides the pool through it, with any number of workers.

* `InStage` : where a worker is and what it holds at each stage; `inStage_act` : every move keeps it;
* `demo_completes` : nobody is left behind, and the pool is whole at the end.
-/

namespace TheGrind.ConnectionPool
open TheGrind.Data TheGrind.Transition TheGrind.Sync

inductive WorkerStage where
  | start
  | borrowing
  | got (conn : String)
  | returning (conn : String)
  | returned
  | raised
  deriving DecidableEq

variable {τ : Type} [DecidableEq τ]

/-- `worker` in every thread. -/
def demo (stages : τ → WorkerStage) (a : Move τ Point Unit) : Option (Outcome τ) → Option (τ → WorkerStage)
  | some (.borrowed t conn) => some (Function.update stages t (.got conn))
  | some (.returned t _) => some (Function.update stages t .returned)
  | some (.raised t _) => some (Function.update stages t .raised)
  | none =>
    match a with
    | .call t (.borrow timeout) =>
      if stages t = .start ∧ timeout = some 10 then some (Function.update stages t .borrowing) else none
    | .call t (.returnConn conn) =>
      if stages t = .got conn then some (Function.update stages t (.returning conn)) else none
    | .call _ _ => none
    | .tick _ | .run _ _ | .expire _ | .rouse _ => some stages

/-- Where a worker is, and what it holds. -/
def InStage (th : Thread Point) (held : List String) : WorkerStage → Prop
  | .start => th = .running .outside ∧ held = []
  | .borrowing => Borrowing th ∧ held = []
  | .got conn => Done th ∧ held = [conn]
  | .returning conn => (th = .running (.returnConn conn) ∨ th = .running (.append conn)) ∧ held = [conn]
  | .returned => (th = .running .notify ∨ Done th) ∧ held = []
  | .raised => Done th ∧ held = []

/-- The worker has returned its connection, or its `borrow` has raised. -/
def Finished (m : Monitor τ Point (SimplePool τ)) (stages : τ → WorkerStage) (t : τ) : Prop :=
  (stages t = .returned ∨ stages t = .raised) ∧ m.threads t = .running .outside

/-- A step or a call of a thread: nothing that waits for the clock or comes from outside. -/
def own : Move τ Point Unit → Bool
  | .run _ _ | .call _ _ => true
  | .tick _ | .expire _ | .rouse _ => false

variable {m m' : Monitor τ Point (SimplePool τ)} {a : Move τ Point Unit} {o : Option (Outcome τ)} {t : τ}
  {stages stages' : τ → WorkerStage} {th th' : Thread Point} {d : SimplePool τ} {stage : WorkerStage}
  {held : List String}

/-! ## One move -/

theorem Done.not_borrowing (h : Done th) : ¬Borrowing th := by
  intro hb
  unfold Done at h
  split at h
  · exact hb
  · exact hb
  · exact h

/-- A worker in its `borrow` is at that stage. -/
theorem InStage.borrowing (h : InStage th held stage) (hb : Borrowing th) : stage = .borrowing ∧ held = [] := by
  cases stage with
  | borrowing => exact ⟨rfl, h.2⟩
  | start =>
    rw [h.1] at hb
    exact absurd hb fun hb => hb
  | got conn | raised => exact absurd hb h.1.not_borrowing
  | returning conn => rcases h.1 with rfl | rfl <;> exact absurd hb fun hb => hb
  | returned =>
    rcases h.1 with rfl | hd
    · exact absurd hb fun hb => hb
    · exact absurd hb hd.not_borrowing

/-- A worker in its `return_conn`, before it has given the connection up. -/
theorem InStage.returning {conn : String} (h : InStage th held stage)
    (hth : th = .running (.returnConn conn) ∨ th = .running (.append conn)) :
    stage = .returning conn ∧ held = [conn] := by
  have hb : ¬Borrowing th := by rcases hth with rfl | rfl <;> exact fun hb => hb
  have hd : ¬Done th := by rcases hth with rfl | rfl <;> exact fun hd => hd
  cases stage with
  | start => rcases hth with rfl | rfl <;> cases h.1
  | borrowing => exact absurd h.1 hb
  | got conn | raised => exact absurd h.1 hd
  | returning conn' =>
    obtain rfl : conn' = conn := by
      rcases hth with rfl | rfl <;> rcases h.1 with he | he <;> cases he <;> rfl
    exact ⟨rfl, h.2⟩
  | returned =>
    rcases h.1 with rfl | hd'
    · rcases hth with he | he <;> cases he
    · exact absurd hd' hd

theorem InStage.notify (h : InStage (.running .notify) held stage) : stage = .returned ∧ held = [] := by
  cases stage with
  | returned => exact ⟨rfl, h.2⟩
  | start => cases h.1
  | borrowing | got _ | raised => exact absurd h.1 fun hf => hf
  | returning conn => rcases h.1 with he | he <;> cases he

theorem InStage.leave (h : InStage (.running .leave) held stage) : InStage (.running .outside) held stage := by
  cases stage with
  | start => cases h.1
  | borrowing => exact absurd h.1 fun hf => hf
  | got _ | raised => exact ⟨trivial, h.2⟩
  | returning conn => rcases h.1 with he | he <;> cases he
  | returned => exact ⟨.inr trivial, h.2⟩

omit [DecidableEq τ] in
theorem exists_pop [DecidableEq τ] (t : τ) (h : d.pool ≠ []) : ∃ conn,
    pop t d = (.borrowed t conn, ⟨d.pool.dropLast, Function.update d.held t (conn :: d.held t)⟩) := by
  obtain ⟨conn, hconn⟩ := Option.ne_none_iff_exists'.mp fun hnone => h (List.getLast?_eq_none_iff.mp hnone)
  unfold pop
  rw [hconn]
  exact ⟨conn, rfl⟩

/-- What happens in a `borrow` before it ends takes the worker to no other stage. -/
theorem demo_silent (hn : demo stages a none = some stages') (ha : a.thread = some t) (ht : stages t = .borrowing) :
    stages' = stages := by
  cases a with
  | tick _ => cases ha
  | run _ _ | expire _ | rouse _ =>
    cases hn
    rfl
  | call u p =>
    cases ha
    cases p with
    | borrow timeout =>
      obtain ⟨⟨hstart, -⟩, -⟩ := Option.ite_none_right_eq_some.mp hn
      rw [ht] at hstart
      cases hstart
    | returnConn conn =>
      obtain ⟨hgot, -⟩ := Option.ite_none_right_eq_some.mp hn
      rw [ht] at hgot
      cases hgot
    | outside | check _ | wait _ | waited _ _ | raise | pop | append _ | notify | leave => cases hn

/-- A move of a worker keeps it in its stage, or takes it to the next. -/
theorem inStage_act (hact : Act holding t m a th o th' d) (h : InStage th (m.data.held t) (stages t))
    (ha : a.thread = some t) (hpop : th = .running .pop → m.data.pool ≠ []) (hn : demo stages a o = some stages') :
    InStage th' (d.held t) (stages' t) := by
  have hborrowing (hb : Borrowing th) (hb' : Borrowing th') (hn : demo stages a none = some stages') :
      InStage th' (m.data.held t) (stages' t) := by
    obtain ⟨hstage, hheld⟩ := h.borrowing hb
    rw [demo_silent hn ha hstage, hstage]
    exact ⟨hb', hheld⟩
  cases hact with
  | @call p hentry =>
    cases p with
    | borrow timeout =>
      obtain ⟨⟨hstart, -⟩, hn⟩ := Option.ite_none_right_eq_some.mp hn
      cases hn
      rw [hstart] at h
      rw [Function.update_self]
      exact ⟨trivial, h.2⟩
    | returnConn conn =>
      obtain ⟨hgot, hn⟩ := Option.ite_none_right_eq_some.mp hn
      cases hn
      rw [hgot] at h
      rw [Function.update_self]
      exact ⟨.inl rfl, h.2⟩
    | outside | check _ | wait _ | waited _ _ | raise | pop | append _ | notify | leave => cases hn
  | borrow | empty _ | found _ | wait | stir _ | wake | notified | timedOut => exact hborrowing trivial trivial hn
  | raise =>
    cases hn
    rw [Function.update_self]
    exact ⟨trivial, (h.borrowing trivial).2⟩
  | pop =>
    obtain ⟨-, hheld⟩ := h.borrowing trivial
    obtain ⟨conn, hp⟩ := exists_pop t (hpop rfl)
    rw [hp] at hn ⊢
    cases hn
    rw [Function.update_self]
    refine ⟨trivial, ?_⟩
    show Function.update m.data.held t (conn :: m.data.held t) t = [conn]
    rw [Function.update_self, hheld]
  | returnConn =>
    obtain ⟨hstage, hheld⟩ := h.returning (.inl rfl)
    cases hn
    rw [hstage]
    exact ⟨.inr rfl, hheld⟩
  | @append e conn =>
    obtain ⟨-, hheld⟩ := h.returning (.inr rfl)
    cases hn
    rw [Function.update_self]
    refine ⟨.inl rfl, ?_⟩
    show Function.update m.data.held t ((m.data.held t).erase conn) t = []
    rw [Function.update_self, hheld]
    simp
  | notify =>
    obtain ⟨hstage, hheld⟩ := h.notify
    cases hn
    rw [hstage]
    exact ⟨.inr trivial, hheld⟩
  | leave =>
    cases hn
    exact h.leave

/-- A move leaves the other workers where they are, with what they hold. -/
theorem inStage_frame {u : τ} (hs : Monitor.Steps (program τ holding) m a o m') (hn : demo stages a o = some stages')
    (hu : a.thread ≠ some u) : m'.threads u = m.threads u ∧ m'.data.held u = m.data.held u ∧ stages' u = stages u := by
  refine ⟨hs.frame hu, ?_, ?_⟩
  · cases ha : a.thread with
    | none => rw [(still_of_steps hs ha).2.1]
    | some t =>
      have hne : u ≠ t := fun he => hu (he ▸ ha)
      obtain ⟨th, th', d, -, -, hd, -, hact⟩ := act_of_steps hs ha
      rw [hd]
      cases hact with
      | pop => exact held_pop_of_ne hne
      | append => exact held_append_of_ne hne
      | call _ | borrow | empty _ | found _ | wait | stir _ | wake | notified | timedOut | raise | returnConn | notify
      | leave => rfl
  · cases o with
    | some x =>
      have hx := thread_of_outcome hs
      have hne : u ≠ x.thread := fun he => hu (he ▸ hx)
      cases x <;> cases hn <;> exact Function.update_of_ne hne _ _
    | none =>
      cases a with
      | tick _ | run _ _ | expire _ | rouse _ =>
        cases hn
        rfl
      | call t p =>
        have hne : u ≠ t := fun he => hu (congrArg some he.symm)
        cases p with
        | borrow timeout =>
          obtain ⟨-, hn⟩ := Option.ite_none_right_eq_some.mp hn
          cases hn
          exact Function.update_of_ne hne _ _
        | returnConn conn =>
          obtain ⟨-, hn⟩ := Option.ite_none_right_eq_some.mp hn
          cases hn
          exact Function.update_of_ne hne _ _
        | outside | check _ | wait _ | waited _ _ | raise | pop | append _ | notify | leave => cases hn

/-! ## Every run -/

/-- The workers are in their stages, in a pool whose outline holds. -/
structure Working (size : Nat) (m : Monitor τ Point (SimplePool τ)) (stages : τ → WorkerStage) : Prop where
  holds : (ownership size).Holds (program τ holding) m
  stages : ∀ t, InStage (m.threads t) (m.data.held t) (stages t)

theorem working_start (size : Nat) : Working size (start τ size) fun _ => .start :=
  ⟨start_holds size, fun _ => ⟨rfl, rfl⟩⟩

theorem working_step {size : Nat} (h : Working size m stages) (hs : Monitor.Steps (program τ holding) m a o m')
    (hn : demo stages a o = some stages') : Working size m' stages' := by
  refine ⟨h.holds.steps (ownership_sound size) Outline.notifiesIf_true hs, fun u => ?_⟩
  by_cases hu : a.thread = some u
  · obtain ⟨th, th', d, hp, hp', hd, -, hact⟩ := act_of_steps hs hu
    rw [hp', hd]
    refine inStage_act hact (hp ▸ h.stages u) hu (fun he => ?_) hn
    exact (h.holds.held_of_threads (hp.trans he) trivial).2.2
  · obtain ⟨hthreads, hheld, hstages⟩ := inStage_frame hs hn hu
    rw [hthreads, hheld, hstages]
    exact h.stages u

theorem working_run {size : Nat} {moves : List (Move τ Point Unit)} {os : List (Option (Outcome τ))}
    (h : ((Monitor.machine (program τ holding)).guided demo).run (start τ size, fun _ => .start) moves =
      some (os, m, stages)) : Working size m stages :=
  Machine.run_invariant (M := (Monitor.machine (program τ holding)).guided demo) (P := fun s => Working size s.1 s.2)
    (fun hP hs => by
      obtain ⟨hs, hn⟩ := Machine.guided_step_iff.mp hs
      exact working_step hP (Monitor.step_steps hs) hn) (working_start size) h

/-- When all workers have finished the pool has all its connections. -/
theorem pool_of_finished {size : Nat} (h : Working size m stages) (hall : ∀ t, Finished m stages t) :
    m.data.pool.Perm (connections size) := by
  have howned : Owned size m.data := h.holds.data (fun _ _ h => h) fun _ _ _ _ h => h.1
  have hheld : ∀ t, m.data.held t = [] := by
    intro t
    have hstage := h.stages t
    rcases (hall t).1 with he | he
    · rw [he] at hstage
      exact hstage.2
    · rw [he] at hstage
      exact hstage.2
  apply (List.perm_ext_iff_of_nodup (howned.nodup none) (nodup_connections size)).mpr
  refine fun conn => ⟨fun hc => ?_, fun hc => ?_⟩
  · exact howned.mem (p := none) hc
  · obtain ⟨p, hp⟩ := (howned.mem_iff conn).mp hc
    cases p with
    | none => exact hp
    | some t =>
      have hp : conn ∈ m.data.held t := hp
      rw [hheld t] at hp
      cases hp

/-- A worker that can make no step and does not sleep is at one of three stages. -/
theorem InStage.idle (h : InStage (.running .outside) held stage) :
    stage = .start ∨ (∃ conn, stage = .got conn ∧ held = [conn]) ∨ stage = .returned ∨ stage = .raised := by
  cases stage with
  | start => exact .inl rfl
  | borrowing => exact absurd h.1 fun hf => hf
  | got conn => exact .inr (.inl ⟨conn, rfl, h.2⟩)
  | returning conn => rcases h.1 with he | he <;> cases he
  | returned => exact .inr (.inr (.inl rfl))
  | raised => exact .inr (.inr (.inr rfl))

/-- Until all workers have finished one of them can go on, if the idle connections are covered. -/
theorem demo_goes {size : Nat} (hsize : 0 < size) (h : Working size m stages)
    (hsettled : Monitor.Settled (program τ holding) m) (hcovered : m.cond.owner = none → Covered 0 m.data m.cond)
    (hne : ¬∀ t, Finished m stages t) :
    ∃ a r, own a = true ∧ ((Monitor.machine (program τ holding)).guided demo).step (m, stages) a = some r := by
  by_contra hstop
  have hno {a : Move τ Point Unit} {o : Option (Outcome τ)} {m' : Monitor τ Point (SimplePool τ)}
      {stages' : τ → WorkerStage} (ha : own a = true)
      (hs : (Monitor.machine (program τ holding)).step m a = some (o, m')) (hn : demo stages a o = some stages') :
      False :=
    hstop ⟨a, _, ha, Machine.guided_step_iff.mpr ⟨hs, hn⟩⟩
  have hstuck : Monitor.Stuck (program τ holding) m := by
    intro t e
    cases hs : (Monitor.machine (program τ holding)).step m (.run t e) with
    | none => rfl
    | some r =>
      obtain ⟨o, m'⟩ := r
      have hn : ∃ stages', demo stages (.run t e) o = some stages' := by
        cases o with
        | none => exact ⟨_, rfl⟩
        | some x => cases x <;> exact ⟨_, rfl⟩
      obtain ⟨stages', hn⟩ := hn
      exact (hno rfl hs hn).elim
  obtain ⟨hfree, hall⟩ := (hsettled.stuck_iff (able τ)).mp hstuck
  -- a worker in no call has finished, or it would make its next one
  have hidle : ∀ t, m.threads t = .running .outside → Finished m stages t := by
    intro t hp
    have hstage := h.stages t
    rw [hp] at hstage
    rcases hstage.idle with he | ⟨conn, he, hheld⟩ | he | he
    · have hs := Monitor.step_call (P := program τ holding) (q := .borrow (some 10)) hp rfl rfl
      exact (hno rfl hs (if_pos ⟨he, rfl⟩)).elim
    · have hs := Monitor.step_call (P := program τ holding) (q := .returnConn conn) hp rfl
        (decide_eq_true (by simp [hheld]))
      exact (hno rfl hs (if_pos he)).elim
    · exact ⟨.inl he, hp⟩
    · exact ⟨.inr he, hp⟩
  obtain ⟨t, ht⟩ := not_forall.mp hne
  rcases hall t with hi | ha
  · exact ht (hidle t ((Monitor.idle_iff code_idle_iff).mp hi))
  · have howned : Owned size m.data := h.holds.data (fun _ _ h => h) fun _ _ _ _ h => h.1
    obtain ⟨-, hexhausted⟩ := exhausted_of_asleep hsettled (hcovered hfree) howned hall ⟨t, ha⟩
    obtain ⟨u, hu⟩ := hexhausted _ (zero_mem_connections hsize)
    have hstage := h.stages u
    have hheld : m.data.held u ≠ [] := List.ne_nil_of_mem hu
    rcases hall u with hi | ha
    · rcases (hidle u ((Monitor.idle_iff code_idle_iff).mp hi)).1 with he | he
      · rw [he] at hstage
        exact hheld hstage.2
      · rw [he] at hstage
        exact hheld hstage.2
    · cases hp : m.threads u with
      | running p => exact absurd ha.1 (hsettled.outside u p hp).1
      | waiting p deadline =>
        rw [hp] at hstage
        exact hheld (hstage.borrowing trivial).2

/-- **The workers complete.** In every run of the program only `TimeoutError` is raised, and when all workers have
finished the pool has every connection again. In a run whose notifications do not pick a timed-out waiter while another
worker sleeps, some worker can go on until all have finished, without the clock and without a spurious wakeup. -/
theorem demo_completes (size : Nat) (hsize : 0 < size) (moves : List (Move τ Point Unit))
    (os : List (Option (Outcome τ))) (m : Monitor τ Point (SimplePool τ)) (stages : τ → WorkerStage)
    (h : ((Monitor.machine (program τ holding)).guided demo).run (start τ size, fun _ => .start) moves =
      some (os, m, stages)) :
    (∀ t error, some (.raised t error) ∈ os → error = .timeoutError "No connection available") ∧
    ((∀ t, Finished m stages t) → m.data.pool.Perm (connections size)) ∧
    (((Monitor.machine (program τ holding)).guided demo).Along
        (fun s a => Outline.NotifiesIf (program τ holding) Reaching s.1 a) (start τ size, fun _ => .start) moves →
      (¬∀ t, Finished m stages t) → ∃ a r, own a = true ∧
        ((Monitor.machine (program τ holding)).guided demo).step (m, stages) a = some r) := by
  have hrun := Machine.guided_run h
  have hworking := working_run h
  refine ⟨fun t error hmem => ?_, pool_of_finished hworking, fun hr hne => ?_⟩
  · have hout := Machine.run_outputs (M := Monitor.machine (program τ holding))
      (P := (ownership size).Holds (program τ holding))
      (G := fun o => ∀ t error, o = some (.raised t error) → error = .timeoutError "No connection available") ?_
      (start_holds size) hrun
    · exact hout.1 _ hmem t error rfl
    · intro m a o m' hholds hs
      refine ⟨fun t error ho => ?_, hholds.steps (ownership_sound size) Outline.notifiesIf_true (Monitor.step_steps hs)⟩
      obtain ⟨u, -, ⟨hp, hx, -⟩ | ⟨conn, hx⟩ | ⟨-, hx, -⟩⟩ := outcome_step (Monitor.step_steps hs) ho
      · obtain ⟨conn, hpop⟩ := exists_pop u (hholds.held_of_threads hp trivial).2.2
        rw [hpop] at hx
        cases hx
      · cases hx
      · cases hx
        rfl
  · have hcovered := wakeup_sound.run (wakeup_start size) (Machine.guided_along h hr) hrun
    exact demo_goes hsize hworking (settled_run hrun) (fun ho => hcovered.free ho) hne

/-- Two workers share a connection: one sleeps until the other returns it. -/
def shared : List (Move Bool Point Unit) :=
  [.call false (.borrow (some 10)), .run false (), .run false (), .run false (), .run false (),
    .call true (.borrow (some 10)), .run true (), .run true (), .run true (), .call false (.returnConn "conn_0"),
    .run false (), .run false (), .run false (), .run false (), .run true (), .run true (), .run true (), .run true (),
    .run true (), .call true (.returnConn "conn_0"), .run true (), .run true (), .run true (), .run true ()]

theorem demo_completes_example :
    ∃ os m stages, ((Monitor.machine (program Bool holding)).guided demo).run (start Bool 1, fun _ => .start) shared =
        some (os, m, stages) ∧ m.data.pool.Perm (connections 1) := by
  obtain ⟨⟨os, m, stages⟩, h⟩ : ∃ r, ((Monitor.machine (program Bool holding)).guided demo).run
      (start Bool 1, fun _ => .start) shared = some r := ⟨_, rfl⟩
  have hall : ∀ t, Finished m stages t := by
    cases h
    intro t
    cases t with
    | false => exact ⟨.inl rfl, rfl⟩
    | true => exact ⟨.inl rfl, rfl⟩
  exact ⟨os, m, stages, h, (demo_completes 1 Nat.one_pos shared os m stages h).2.1 hall⟩

end TheGrind.ConnectionPool
