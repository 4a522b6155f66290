import TheGrind.KvStore.Cleanup
import TheGrind.KvStore.Shutdown

/-!
# The cleanup task of lifespan

`cleanup_loop` as the task that `lifespan` starts after `init_pools`: suspended at its awaits, each of which returns or
raises, until `lifespan` cancels it, awaits it and closes the pools. Its `except Exception` catches what an await
raises, a `CancelledError` apart. Nobody else writes the table.

* `CleanupTask` : where the task is suspended, and `CleanupTask.resume` how it goes on;
* `app` : the machine;
* `App.Ok` : what holds in every state;
* `Lost` : the `CancelledError` is gone, another exception was raised in its place;
* `cleanup_task` : the task on its table and its pool; `close_reached_iff` : when `lifespan` gets to `close_pools`.
-/

namespace TheGrind.KvStore
open TheGrind.Transition

/-! ## The task -/

/-- What an await raises: an `Exception`, or the `CancelledError` that `cancel` asked for. -/
inductive Thrown where
  | exception
  | cancelled
  deriving DecidableEq, Repr

/-- How an await ends, with what comes after it in the same block. -/
inductive Ending where
  | returned
  | raised (e : Thrown)
  deriving DecidableEq, Repr

/-- Where `cleanup_loop` is suspended. The release of the connection remembers what is in flight. -/
inductive CleanupTask where
  | created
  | sleep
  | acquire (pool : Node)
  | execute (pool : Node) (now : Int) (ran : Bool)
  | release (pool : Node) (thrown : Option Thrown)
  | ended
  deriving DecidableEq, Repr

/-- The `except Exception` and the next turn of the loop. -/
def Thrown.caught : Thrown → CleanupTask
  | .exception => .sleep
  | .cancelled => .ended

/-- After the `async with`, with what was in flight. -/
def CleanupTask.leave : Option Thrown → CleanupTask
  | none => .sleep
  | some e => e.caught

/-- How an await of the task may end. Only what `cancel` asked for ends a sleep early, and it does not stay unseen. -/
def CleanupTask.mayEnd (cancelling : Bool) : CleanupTask → Ending → Bool
  | .execute _ _ ran, .returned => !cancelling && ran
  | _, .returned => !cancelling
  | .created, .raised .exception | .sleep, .raised .exception => false
  | _, .raised .exception => true
  | _, .raised .cancelled => cancelling

/-- The task goes on when its await has ended. -/
def CleanupTask.resume (clock : Int) (pools : Pools Node) : CleanupTask → Ending → Option CleanupTask
  | .created, .returned => some .sleep
  | .created, .raised _ => some .ended
  | .sleep, .returned =>
    match getPrimaryPool pools with
    | .done pool => some (.acquire pool)
    | _ => some .sleep
  | .sleep, .raised _ => some .ended
  | .acquire pool, .returned => some (.execute pool clock false)
  | .acquire _, .raised e => some e.caught
  | .execute pool _ _, .returned => some (.release pool none)
  | .execute pool _ _, .raised e => some (.release pool (some e))
  | .release _ thrown, .returned => some (leave thrown)
  | .release _ _, .raised e => some e.caught
  | .ended, _ => none

/-- The pool that the task has got from `get_primary_pool`. -/
def CleanupTask.pool? : CleanupTask → Option Node
  | .acquire pool | .execute pool _ _ | .release pool _ => some pool
  | .created | .sleep | .ended => none

/-- A `CancelledError` is in flight while the connection is released. -/
def CleanupTask.unwinding : CleanupTask → Bool
  | .release _ (some .cancelled) => true
  | _ => false

/-! ## lifespan -/

/-- Where `lifespan` is after `init_pools`. -/
inductive Phase where
  | serving
  | joining
  | closing (close : Close Node)

/-- The task with the table, and `lifespan`. With `cancelling`, the next await of the task that ends raises. -/
structure App where
  clock : Int
  table : Store
  pools : Pools Node
  task : CleanupTask
  cancelling : Bool
  phase : Phase

inductive AppMove where
  | tick (now : Int)
  | delete (picked : List Nat)
  | resume (ending : Ending)
  | shutdown
  | joined
  | closed (ok : Bool)
  deriving DecidableEq

/-- What a step shows: the rows that the `DELETE` of the task took, or that the task has gone on. -/
inductive AppEvent where
  | silent
  | deleted (now : Int) (picked : List Nat)
  | resumed
  deriving DecidableEq

namespace App

/-- After `create_task`. -/
def init (replicaPorts : List Nat) (clock : Int) (table : Store) : App where
  clock := clock
  table := table
  pools := .opened .primary (replicas replicaPorts.length)
  task := .created
  cancelling := false
  phase := .serving

end App

/-- `lifespan` with its cleanup task. -/
def app (batch : Nat) : Machine App AppMove AppEvent where
  step s
    | .tick now => if s.clock ≤ now then some (.silent, { s with clock := now }) else none
    | .delete picked =>
      match s.task with
      | .execute pool now false =>
        if Batch batch (s.table.selectDead now) picked then
          some (.deleted now picked, { s with table := (cleanupOnce s.table picked).2, task := .execute pool now true })
        else none
      | _ => none
    | .resume ending =>
      if s.task.mayEnd s.cancelling ending then
        (s.task.resume s.clock s.pools ending).map fun task => (.resumed, { s with task := task, cancelling := false })
      else none
    | .shutdown =>
      match s.phase with
      | .serving => some (.silent, { s with cancelling := true, phase := .joining })
      | _ => none
    | .joined =>
      match s.phase, s.task with
      | .joining, .ended =>
        let r := closeBegin s.pools
        some (.silent, { s with pools := r.2, phase := .closing r.1 })
      | _, _ => none
    | .closed ok =>
      match s.phase with
      | .closing c => (c.resume s.pools ok).map fun r => (.silent, { s with pools := r.2, phase := .closing r.1 })
      | _ => none

/-- The cancellation is on its way: asked for, or in flight. -/
def App.stopping (s : App) : Bool := s.cancelling || s.task.unwinding

/-- While the cancellation is on its way, an await does not raise anything else. -/
def Kept (s : App) : AppMove → Prop
  | .resume (.raised .exception) => s.stopping = false
  | _ => True

instance (s : App) : DecidablePred (Kept s)
  | .resume (.raised .exception) => inferInstanceAs (Decidable (s.stopping = false))
  | .resume (.raised .cancelled) | .resume .returned | .tick _ | .delete _ | .shutdown | .joined | .closed _ =>
    inferInstanceAs (Decidable True)

variable {batch n : Nat} {s t : App} {a : AppMove} {e : AppEvent} {os : List AppEvent}

/-! ## What a step does -/

section Task
variable {clock : Int} {pools : Pools Node} {cancelling : Bool} {r r' : CleanupTask} {ending : Ending}

/-- How many of its awaits a task that is being cancelled has left at most. -/
def CleanupTask.awaitsLeft : CleanupTask → Nat
  | .ended => 0
  | .execute _ _ _ => 2
  | .created | .sleep | .acquire _ | .release _ _ => 1

/-- A task that is being cancelled comes nearer to its end, unless an await raises something else; a task that is not,
or where one did, is not ended. -/
theorem resume_cases (hend : r.mayEnd cancelling ending = true) (hr : r.resume clock pools ending = some r') :
    ((cancelling || r.unwinding) = true ∧ ending ≠ .raised .exception ∧ (r' = .ended ∨ r'.unwinding = true) ∧
        r'.awaitsLeft < r.awaitsLeft) ∨
      (((cancelling || r.unwinding) = false ∨ ending = .raised .exception) ∧ r' ≠ .ended ∧ r'.unwinding = false) := by
  cases r with
  | ended => cases hr
  | created =>
    rcases ending with _ | _ | _
    · cases hr
      exact .inr ⟨.inl (by simpa [CleanupTask.mayEnd, CleanupTask.unwinding] using hend), by simp, rfl⟩
    · cases hend
    · cases hr
      obtain rfl : cancelling = true := hend
      exact .inl ⟨rfl, by simp, .inl rfl, Nat.zero_lt_one⟩
  | sleep =>
    rcases ending with _ | _ | _
    · have hc : cancelling = false := by simpa [CleanupTask.mayEnd] using hend
      simp only [CleanupTask.resume] at hr
      split at hr <;> cases hr <;> exact .inr ⟨.inl (by rw [hc]; rfl), by simp, rfl⟩
    · cases hend
    · cases hr
      obtain rfl : cancelling = true := hend
      exact .inl ⟨rfl, by simp, .inl rfl, Nat.zero_lt_one⟩
  | acquire pool =>
    rcases ending with _ | _ | _
    · cases hr
      exact .inr ⟨.inl (by simpa [CleanupTask.mayEnd, CleanupTask.unwinding] using hend), by simp, rfl⟩
    · cases hr
      exact .inr ⟨.inr rfl, by simp [Thrown.caught], rfl⟩
    · cases hr
      obtain rfl : cancelling = true := hend
      exact .inl ⟨rfl, by simp, .inl rfl, Nat.zero_lt_one⟩
  | execute pool now ran =>
    rcases ending with _ | _ | _
    · cases hr
      have hc : cancelling = false ∧ ran = true := by simpa [CleanupTask.mayEnd] using hend
      exact .inr ⟨.inl (by rw [hc.1]; rfl), by simp, rfl⟩
    · cases hr
      exact .inr ⟨.inr rfl, by simp, rfl⟩
    · cases hr
      obtain rfl : cancelling = true := hend
      exact .inl ⟨rfl, by simp, .inr rfl, Nat.one_lt_two⟩
  | release pool thrown =>
    rcases ending with _ | _ | _
    · obtain rfl : cancelling = false := by simpa [CleanupTask.mayEnd] using hend
      cases hr
      rcases thrown with _ | _ | _
      · exact .inr ⟨.inl rfl, by simp [CleanupTask.leave], rfl⟩
      · exact .inr ⟨.inl rfl, by simp [CleanupTask.leave, Thrown.caught], rfl⟩
      · exact .inl ⟨rfl, by simp, .inl rfl, Nat.zero_lt_one⟩
    · cases hr
      exact .inr ⟨.inr rfl, by simp [Thrown.caught], rfl⟩
    · cases hr
      obtain rfl : cancelling = true := hend
      exact .inl ⟨rfl, by simp, .inl rfl, Nat.zero_lt_one⟩

/-- A task that is being cancelled can go on without another exception. -/
theorem exists_ending (clock : Int) (pools : Pools Node) (hlive : r ≠ .ended)
    (hstop : (cancelling || r.unwinding) = true) : ∃ ending r', ending ≠ .raised .exception ∧
      r.mayEnd cancelling ending = true ∧ r.resume clock pools ending = some r' := by
  cases cancelling with
  | true =>
    cases r with
    | ended => exact absurd rfl hlive
    | created | sleep | acquire _ | execute _ _ _ | release _ _ =>
      exact ⟨.raised .cancelled, _, by simp, rfl, rfl⟩
  | false =>
    cases r with
    | ended => exact absurd rfl hlive
    | created | sleep | acquire _ | execute _ _ _ => cases hstop
    | release pool thrown => exact ⟨.returned, _, by simp, rfl, rfl⟩

/-- What a resumed task knows: the pool is the one it had, or the primary pool, and the reading is the clock's. -/
structure Knows (clock : Int) (pools : Pools Node) (r r' : CleanupTask) : Prop where
  pool : ∀ pool, r'.pool? = some pool → r.pool? = some pool ∨ getPrimaryPool pools = .done pool
  reading : ∀ pool now ran, r' = .execute pool now ran → now = clock

theorem Knows.of_none (h : r'.pool? = none) : Knows clock pools r r' where
  pool pool hpool := absurd (h.symm.trans hpool) (by simp)
  reading pool now ran he := by
    rw [he] at h
    cases h

theorem pool_leave (thrown : Option Thrown) : (CleanupTask.leave thrown).pool? = none := by
  rcases thrown with _ | _ | _ <;> rfl

theorem resume_knows (hr : r.resume clock pools ending = some r') : Knows clock pools r r' := by
  cases r with
  | ended => cases hr
  | created =>
    rcases ending with _ | _
    · cases hr
      exact .of_none rfl
    · cases hr
      exact .of_none rfl
  | sleep =>
    rcases ending with _ | _
    · simp only [CleanupTask.resume] at hr
      split at hr
      · next hdone =>
        cases hr
        exact ⟨fun _ hpool => .inr (Option.some.inj hpool ▸ hdone), fun _ _ _ he => by cases he⟩
      · cases hr
        exact .of_none rfl
    · cases hr
      exact .of_none rfl
  | acquire pool =>
    rcases ending with _ | e
    · cases hr
      refine ⟨fun _ hpool => .inl hpool, fun _ _ _ he => ?_⟩
      cases he
      rfl
    · cases hr
      exact .of_none (pool_leave (some e))
  | execute pool now ran =>
    rcases ending with _ | _
    · cases hr
      exact ⟨fun _ hpool => .inl hpool, fun _ _ _ he => by cases he⟩
    · cases hr
      exact ⟨fun _ hpool => .inl hpool, fun _ _ _ he => by cases he⟩
  | release pool thrown =>
    rcases ending with _ | e
    · cases hr
      exact .of_none (pool_leave thrown)
    · cases hr
      exact .of_none (pool_leave (some e))

end Task

/-! ## Every state -/

/-- A step of the application, with what its guards say. -/
inductive Proceeds (batch : Nat) (s : App) : AppMove → AppEvent → App → Prop where
  | tick {now : Int} : s.clock ≤ now → Proceeds batch s (.tick now) .silent { s with clock := now }
  | delete {picked : List Nat} {pool : Node} {now : Int} : s.task = .execute pool now false →
      Batch batch (s.table.selectDead now) picked → Proceeds batch s (.delete picked) (.deleted now picked)
        { s with table := (cleanupOnce s.table picked).2, task := .execute pool now true }
  | resume {ending : Ending} {task : CleanupTask} : s.task.mayEnd s.cancelling ending = true →
      s.task.resume s.clock s.pools ending = some task →
      Proceeds batch s (.resume ending) .resumed { s with task := task, cancelling := false }
  | shutdown : s.phase = .serving → Proceeds batch s .shutdown .silent { s with cancelling := true, phase := .joining }
  | joined : s.phase = .joining → s.task = .ended → Proceeds batch s .joined .silent
      { s with pools := (closeBegin s.pools).2, phase := .closing (closeBegin s.pools).1 }
  | closed {ok : Bool} {c : Close Node} {r : Close Node × Pools Node} : s.phase = .closing c →
      c.resume s.pools ok = some r →
      Proceeds batch s (.closed ok) .silent { s with pools := r.2, phase := .closing r.1 }

theorem proceeds (h : (app batch).step s a = some (e, t)) : Proceeds batch s a e t := by
  cases a with
  | tick now =>
    obtain ⟨hle, he⟩ := Option.ite_none_right_eq_some.mp h
    cases he
    exact .tick hle
  | delete picked =>
    simp only [app] at h
    split at h
    · next pool now htask =>
      obtain ⟨hbatch, he⟩ := Option.ite_none_right_eq_some.mp h
      cases he
      exact .delete htask hbatch
    · cases h
  | resume ending =>
    obtain ⟨hend, h⟩ := Option.ite_none_right_eq_some.mp h
    obtain ⟨task, hr, he⟩ := Option.map_eq_some_iff.mp h
    cases he
    exact .resume hend hr
  | shutdown =>
    simp only [app] at h
    split at h
    · next hphase =>
      cases h
      exact .shutdown hphase
    · cases h
  | joined =>
    simp only [app] at h
    split at h
    · next hphase htask =>
      cases h
      exact .joined hphase htask
    · cases h
  | closed ok =>
    simp only [app] at h
    split at h
    · next c hphase =>
      obtain ⟨r, hr, he⟩ := Option.map_eq_some_iff.mp h
      cases he
      exact .closed hphase hr
    · cases h

/-- In every state: until the task has ended the pools are as `init_pools` left them, and it ends only when cancelled.
-/
structure App.Ok (n : Nat) (s : App) : Prop where
  serving : s.phase = .serving → s.stopping = false ∧ s.task ≠ .ended
  closing : ∀ c, s.phase = .closing c → s.task = .ended
  pools : s.task ≠ .ended → s.pools = .opened .primary (replicas n)
  ended : s.task = .ended → s.cancelling = false
  pool : ∀ pool, s.task.pool? = some pool → pool = .primary

theorem ok_init (replicaPorts : List Nat) (clock : Int) (table : Store) :
    (App.init replicaPorts clock table).Ok replicaPorts.length where
  serving _ := ⟨rfl, by simp [App.init]⟩
  closing _ h := by cases h
  pools _ := rfl
  ended h := by cases h
  pool _ h := by cases h

theorem ok_step (h : s.Ok n) (hs : (app batch).step s a = some (e, t)) : t.Ok n := by
  cases proceeds hs with
  | tick _ => exact ⟨h.serving, h.closing, h.pools, h.ended, h.pool⟩
  | @delete picked pool now htask _ =>
    refine ⟨fun hphase => ⟨?_, by simp⟩, fun c hphase => ?_, fun _ => h.pools (by simp [htask]), by simp,
      fun p hp => ?_⟩
    · have hstop := (h.serving hphase).1
      rwa [App.stopping, htask] at hstop
    · have he := h.closing c hphase
      rw [htask] at he
      cases he
    · exact h.pool p (htask ▸ hp)
  | @resume ending task hend hr =>
    have hlive : s.task ≠ .ended := by
      intro he
      rw [he] at hr
      cases hr
    have hpools := h.pools hlive
    refine ⟨fun hphase => ?_, fun c hphase => absurd (h.closing c hphase) hlive, fun _ => hpools, fun _ => rfl,
      fun p hp => ?_⟩
    · have hstop := (h.serving hphase).1
      rcases resume_cases hend hr with ⟨hyes, -⟩ | ⟨-, hne, hunwinding⟩
      · exact absurd (hyes.symm.trans hstop) (by simp)
      · exact ⟨hunwinding, hne⟩
    · rcases (resume_knows hr).pool p hp with hp | hp
      · exact h.pool p hp
      · rw [hpools] at hp
        cases hp
        rfl
  | shutdown hphase =>
    refine ⟨by simp, by simp, h.pools, fun he => absurd he (h.serving hphase).2, h.pool⟩
  | joined _ htask =>
    exact ⟨by simp, fun _ _ => htask, fun hne => absurd htask hne, h.ended, h.pool⟩
  | closed hphase _ =>
    have htask := h.closing _ hphase
    exact ⟨by simp, fun _ _ => htask, fun hne => absurd htask hne, h.ended, h.pool⟩

theorem ok_run {replicaPorts : List Nat} {clock : Int} {table : Store} {moves : List AppMove}
    (h : (app batch).run (.init replicaPorts clock table) moves = some (os, s)) : s.Ok replicaPorts.length :=
  Machine.run_invariant (M := app batch) (P := App.Ok replicaPorts.length) ok_step (ok_init replicaPorts clock table) h

/-! ## The table -/

/-- The turns of `cleanup_loop` in which its statement ran. -/
def AppEvent.turn? : AppEvent → Option CleanupMove
  | .deleted now picked => some (.iterate now picked)
  | .silent | .resumed => none

def turns (os : List AppEvent) : List CleanupMove := os.filterMap AppEvent.turn?

theorem turns_append (os : List AppEvent) (e : AppEvent) : turns (os ++ [e]) = turns os ++ turns [e] :=
  List.filterMap_append

theorem cleanupReadings_append (moves moves' : List CleanupMove) :
    cleanupReadings (moves ++ moves') = cleanupReadings moves ++ cleanupReadings moves' :=
  List.filterMap_append

/-- The table is that of `cleanup_loop` alone, at readings in order, none after the clock or the task's own. -/
structure Swept (batch : Nat) (table : Store) (os : List AppEvent) (s : App) : Prop where
  run : ∃ counts, (cleanupLoop batch).run table (turns os) = some (counts, s.table)
  sorted : (cleanupReadings (turns os)).Pairwise (· ≤ ·)
  clock : ∀ r ∈ cleanupReadings (turns os), r ≤ s.clock
  reading : ∀ pool now ran, s.task = .execute pool now ran →
    now ≤ s.clock ∧ ∀ r ∈ cleanupReadings (turns os), r ≤ now

theorem swept_init (replicaPorts : List Nat) (clock : Int) (table : Store) :
    Swept batch table [] (.init replicaPorts clock table) where
  run := ⟨[], rfl⟩
  sorted := .nil
  clock _ hr := absurd hr List.not_mem_nil
  reading _ _ _ h := by cases h

/-- A step that leaves the table, and the task at its reading or without one. -/
theorem Swept.keep {table : Store} (h : Swept batch table os s) (he : turns [e] = []) (htable : t.table = s.table)
    (hclock : s.clock ≤ t.clock) (htask : ∀ pool now ran, t.task = .execute pool now ran →
      s.task = .execute pool now ran ∨ (now = s.clock ∧ s.clock = t.clock)) : Swept batch table (os ++ [e]) t := by
  have hturns : turns (os ++ [e]) = turns os := by rw [turns_append, he, List.append_nil]
  refine ⟨?_, ?_, ?_, ?_⟩
  · rw [hturns, htable]
    exact h.run
  · rw [hturns]
    exact h.sorted
  · rw [hturns]
    exact fun r hr => le_trans (h.clock r hr) hclock
  · rw [hturns]
    intro pool now ran ht
    rcases htask pool now ran ht with ht | ⟨rfl, hc⟩
    · obtain ⟨hnow, hle⟩ := h.reading pool now ran ht
      exact ⟨le_trans hnow hclock, hle⟩
    · exact ⟨hclock, h.clock⟩

theorem swept_step {table : Store} (h : Swept batch table os s) (hs : (app batch).step s a = some (e, t)) :
    Swept batch table (os ++ [e]) t := by
  cases proceeds hs with
  | tick hle => exact h.keep rfl rfl hle fun _ _ _ ht => .inl ht
  | @delete picked pool now htask hbatch =>
    obtain ⟨hnow, hle⟩ := h.reading pool now false htask
    obtain ⟨counts, hrun⟩ := h.run
    have hreadings : cleanupReadings (turns (os ++ [.deleted now picked])) = cleanupReadings (turns os) ++ [now] := by
      rw [turns_append, cleanupReadings_append]
      rfl
    have hall : ∀ r ∈ cleanupReadings (turns os) ++ [now], r ≤ now := by
      intro r hr
      rcases List.mem_append.mp hr with hr | hr
      · exact hle r hr
      · exact le_of_eq (List.mem_singleton.mp hr)
    refine ⟨⟨counts ++ [some (cleanupOnce s.table picked).1], ?_⟩, ?_, ?_, ?_⟩
    · rw [turns_append]
      refine (Machine.run_append_iff _).mpr ⟨counts, _, s.table, hrun, (Machine.run_singleton_iff _).mpr ?_, rfl⟩
      refine ⟨_, ?_, rfl⟩
      simp only [cleanupLoop]
      rw [if_pos hbatch]
    · rw [hreadings]
      exact List.pairwise_append.mpr ⟨h.sorted, List.pairwise_singleton _ _, fun r hr r' hr' =>
        List.mem_singleton.mp hr' ▸ hle r hr⟩
    · rw [hreadings]
      exact fun r hr => le_trans (hall r hr) hnow
    · rw [hreadings]
      intro pool' now' ran ht
      cases ht
      exact ⟨hnow, hall⟩
  | resume _ hr =>
    exact h.keep rfl rfl (le_refl _) fun pool now ran ht => .inr ⟨(resume_knows hr).reading pool now ran ht, rfl⟩
  | shutdown _ => exact h.keep rfl rfl (le_refl _) fun _ _ _ ht => .inl ht
  | joined _ _ => exact h.keep rfl rfl (le_refl _) fun _ _ _ ht => .inl ht
  | closed _ _ => exact h.keep rfl rfl (le_refl _) fun _ _ _ ht => .inl ht

/-- **The cleanup task in lifespan.** Whatever its awaits raise, the table of the task is the one of some turns of
`cleanup_loop` alone, at readings in order, and no row that is live by the clock has been deleted. The task ends only
when it is cancelled, and before `close_pools` is called; until then `get_primary_pool` gives it the primary pool. -/
theorem cleanup_task (batch : Nat) (replicaPorts : List Nat) (clock : Int) (table : Store) (moves : List AppMove)
    (os : List AppEvent) (s : App) (h : (app batch).run (.init replicaPorts clock table) moves = some (os, s)) :
    (∃ counts, (cleanupLoop batch).run table (turns os) = some (counts, s.table)) ∧
      (cleanupReadings (turns os)).Pairwise (· ≤ ·) ∧
      (∀ r ∈ table.rows, r.expireAt = 0 ∨ s.clock < r.expireAt → r ∈ s.table.rows) ∧
      (s.task = .ended → s.phase ≠ .serving) ∧ (∀ c, s.phase = .closing c → s.task = .ended) ∧
      (s.task ≠ .ended → getPrimaryPool s.pools = .done .primary) ∧
      ∀ pool, s.task.pool? = some pool → pool = .primary := by
  have hswept : Swept batch table os s :=
    Machine.run_history (M := app batch) (P := Swept batch table) swept_step (l := []) (swept_init _ _ _) h
  have hok := ok_run h
  obtain ⟨counts, hrun⟩ := hswept.run
  refine ⟨⟨counts, hrun⟩, hswept.sorted, fun r hr hlive => (rows_run hrun).2 r hr fun now hnow => ?_,
    fun hended hserving => (hok.serving hserving).2 hended, hok.closing, fun hne => ?_, hok.pool⟩
  · have hle := hswept.clock now hnow
    simp only [dead, decide_eq_false_iff_not]
    omega
  · rw [hok.pools hne]
    rfl

/-- An iteration deletes a row, and fails after that; the next is cancelled in its statement. -/
theorem cleanup_task_example :
    ∃ os s, (app 2).run (.init [5433] 5 backlog)
        [.resume .returned, .resume .returned, .resume .returned, .delete [0, 1], .resume (.raised .exception),
          .resume .returned, .tick 6, .resume .returned, .resume .returned, .shutdown, .resume (.raised .cancelled),
          .resume .returned, .joined, .closed true, .closed true] = some (os, s) ∧
      (∃ counts, (cleanupLoop 2).run backlog (turns os) = some (counts, s.table)) ∧
      (cleanupReadings (turns os)).Pairwise (· ≤ ·) ∧
      (∀ r ∈ backlog.rows, r.expireAt = 0 ∨ s.clock < r.expireAt → r ∈ s.table.rows) ∧
      (s.task = .ended → s.phase ≠ .serving) ∧ (∀ c, s.phase = .closing c → s.task = .ended) ∧
      (s.task ≠ .ended → getPrimaryPool s.pools = .done .primary) ∧
      ∀ pool, s.task.pool? = some pool → pool = .primary := by
  have hrun : ((app 2).run (.init [5433] 5 backlog)
      [.resume .returned, .resume .returned, .resume .returned, .delete [0, 1], .resume (.raised .exception),
        .resume .returned, .tick 6, .resume .returned, .resume .returned, .shutdown, .resume (.raised .cancelled),
        .resume .returned, .joined, .closed true, .closed true]).isSome := by decide +kernel
  obtain ⟨⟨os, s⟩, h⟩ := Option.isSome_iff_exists.mp hrun
  exact ⟨os, s, h, cleanup_task 2 [5433] 5 backlog _ os s h⟩

/-! ## Whether lifespan gets to close_pools -/

/-- `lifespan` awaits a task that is not ended and that nothing cancels. -/
structure Lost (s : App) : Prop where
  joining : s.phase = .joining
  live : s.task ≠ .ended
  stopping : s.stopping = false

theorem lost_step (h : Lost s) (hs : (app batch).step s a = some (e, t)) : Lost t := by
  have hjoining := h.joining
  cases proceeds hs with
  | tick _ => exact ⟨h.joining, h.live, h.stopping⟩
  | delete htask _ =>
    have hstop := h.stopping
    rw [App.stopping, htask] at hstop
    exact ⟨h.joining, by simp, hstop⟩
  | resume hend hr =>
    rcases resume_cases hend hr with ⟨hyes, -⟩ | ⟨-, hne, hunwinding⟩
    · exact absurd (hyes.symm.trans h.stopping) (by simp)
    · exact ⟨h.joining, hne, hunwinding⟩
  | shutdown hphase =>
    rw [hphase] at hjoining
    cases hjoining
  | joined _ htask => exact absurd htask h.live
  | closed hphase _ =>
    rw [hphase] at hjoining
    cases hjoining

/-- An exception in place of the cancellation loses it. -/
theorem lost_begins (h : s.Ok n) (hkept : ¬Kept s a) (hs : (app batch).step s a = some (e, t)) : Lost t := by
  cases proceeds hs with
  | tick _ | delete _ _ | shutdown _ | joined _ _ | closed _ _ => exact absurd trivial hkept
  | @resume ending task hend hr =>
    rcases ending with _ | _ | _
    · exact absurd trivial hkept
    · have hstop : s.stopping = true := by simpa [Kept] using hkept
      rcases resume_cases hend hr with ⟨-, hne, -⟩ | ⟨-, hne, hunwinding⟩
      · exact absurd rfl hne
      · refine ⟨?_, hne, hunwinding⟩
        show s.phase = .joining
        cases hphase : s.phase with
        | serving => exact absurd (hstop.symm.trans (h.serving hphase).1) (by simp)
        | joining => rfl
        | closing c =>
          rw [h.closing c hphase] at hr
          cases hr
    · exact absurd trivial hkept

theorem not_lost_step (hnot : ¬Lost s) (hkept : Kept s a) (hs : (app batch).step s a = some (e, t)) :
    ¬Lost t := by
  intro hlost
  cases proceeds hs with
  | tick _ => exact hnot ⟨hlost.joining, hlost.live, hlost.stopping⟩
  | delete htask _ =>
    refine hnot ⟨hlost.joining, by simp [htask], ?_⟩
    rw [App.stopping, htask]
    exact hlost.stopping
  | @resume ending task hend hr =>
    rcases resume_cases hend hr with ⟨-, -, hended | hunwinding, -⟩ | ⟨hstop | rfl, -⟩
    · exact hlost.live hended
    · exact absurd (hunwinding.symm.trans hlost.stopping) (by simp)
    · refine hnot ⟨hlost.joining, ?_, hstop⟩
      intro he
      rw [he] at hr
      cases hr
    · refine hnot ⟨hlost.joining, ?_, hkept⟩
      intro he
      rw [he] at hr
      cases hr
  | shutdown _ => cases hlost.stopping
  | joined _ htask => exact hlost.live htask
  | closed _ _ => cases hlost.joining

/-- A task that is being cancelled can go on without another exception, and comes nearer to its end. -/
theorem exists_stopping_step (batch : Nat) (hlive : s.task ≠ .ended) (hstop : s.stopping = true) :
    ∃ ending t, Kept s (.resume ending) ∧ (app batch).step s (.resume ending) = some (.resumed, t) ∧
      t.phase = s.phase ∧ t.task.awaitsLeft < s.task.awaitsLeft := by
  obtain ⟨ending, task, hne, hend, hr⟩ := exists_ending s.clock s.pools hlive hstop
  refine ⟨ending, { s with task := task, cancelling := false }, ?_, ?_, rfl, ?_⟩
  · rcases ending with _ | _ | _
    · trivial
    · exact absurd rfl hne
    · trivial
  · simp only [app]
    rw [if_pos hend, hr]
    rfl
  · rcases resume_cases hend hr with ⟨-, -, -, hlt⟩ | ⟨hno | he, -⟩
    · exact hlt
    · exact absurd (hno.symm.trans hstop) (by simp)
    · exact absurd he hne

/-- How far `lifespan` is from `close_pools`. -/
def App.rank (s : App) : Nat :=
  match s.phase with
  | .serving => s.task.awaitsLeft + 2
  | .joining => s.task.awaitsLeft + 1
  | .closing _ => 0

/-- While the cancellation is not lost, `lifespan` can get to `close_pools`. -/
theorem closes_of_not_lost (h : s.Ok n) (hnot : ¬Lost s) :
    ∃ t, (app batch).Reaches s t ∧ ∃ c, t.phase = .closing c := by
  refine Machine.exists_reaches (P := fun s => s.Ok n ∧ ¬Lost s) (r := App.rank) ?_ (le_refl _) ⟨h, hnot⟩
  intro s ⟨h, hnot⟩ hfinal
  cases hphase : s.phase with
  | closing c => exact absurd ⟨c, hphase⟩ hfinal
  | serving =>
    have hs : (app batch).step s .shutdown = some (.silent, { s with cancelling := true, phase := .joining }) := by
      simp only [app, hphase]
    refine ⟨.shutdown, _, _, hs, ⟨ok_step h hs, not_lost_step (a := .shutdown) hnot trivial hs⟩, ?_⟩
    simp only [App.rank, hphase]
    omega
  | joining =>
    by_cases hlive : s.task = .ended
    · have hs : (app batch).step s .joined =
          some (.silent, { s with pools := (closeBegin s.pools).2, phase := .closing (closeBegin s.pools).1 }) := by
        simp only [app, hphase, hlive]
      refine ⟨.joined, _, _, hs, ⟨ok_step h hs, not_lost_step (a := .joined) hnot trivial hs⟩, ?_⟩
      simp only [App.rank, hphase]
      omega
    · have hstop : s.stopping = true := by
        by_contra hno
        exact hnot ⟨hphase, hlive, by simpa using hno⟩
      obtain ⟨ending, t, hkept, hs, hphase', hlt⟩ := exists_stopping_step batch hlive hstop
      refine ⟨.resume ending, _, t, hs, ⟨ok_step h hs, not_lost_step hnot hkept hs⟩, ?_⟩
      simp only [App.rank, hphase', hphase]
      omega

/-- Once `lifespan` awaits the task, each of its awaits that ends brings it nearer to its end. -/
theorem awaitsLeft_step (h : s.Ok n) (hserving : s.phase ≠ .serving) (hnot : ¬Lost s) (hkept : Kept s a)
    (hs : (app batch).step s a = some (e, t)) :
    t.phase ≠ .serving ∧ t.task.awaitsLeft + [e].count .resumed ≤ s.task.awaitsLeft := by
  cases proceeds hs with
  | tick _ => exact ⟨hserving, le_refl _⟩
  | delete htask _ =>
    rw [htask]
    exact ⟨hserving, le_refl _⟩
  | @resume ending task hend hr =>
    refine ⟨hserving, ?_⟩
    rcases resume_cases hend hr with ⟨-, -, -, hlt⟩ | ⟨hno, -⟩
    · exact hlt
    · exfalso
      have hstop : s.stopping = false := by
        rcases hno with hno | rfl
        · exact hno
        · exact hkept
      cases hphase : s.phase with
      | serving => exact hserving hphase
      | joining =>
        refine hnot ⟨hphase, ?_, hstop⟩
        intro he
        rw [he] at hr
        cases hr
      | closing c =>
        rw [h.closing c hphase] at hr
        cases hr
  | shutdown hphase => exact absurd hphase hserving
  | joined _ _ => exact ⟨by simp, le_refl _⟩
  | closed _ _ => exact ⟨by simp, le_refl _⟩

theorem not_lost_iff_kept {replicaPorts : List Nat} {clock : Int} {table : Store} {moves : List AppMove}
    (h : (app batch).run (.init replicaPorts clock table) moves = some (os, s)) :
    ¬Lost s ↔ (app batch).Along Kept (.init replicaPorts clock table) moves := by
  constructor
  · intro hnot
    exact Machine.along_of_not_doomed (M := app batch) (B := Lost) (R := fun _ _ => True)
      (P := App.Ok replicaPorts.length) (fun hP _ hs => ok_step hP hs) lost_begins (fun _ hB _ hs => lost_step hB hs)
      (ok_init replicaPorts clock table) h hnot (Machine.along_of_forall fun _ _ _ => trivial)
  · intro hkept
    exact Machine.run_invariant_along (M := app batch) (P := fun s => ¬Lost s) not_lost_step
      (fun hlost => by cases hlost.joining) hkept h

/-- **When lifespan gets to close_pools.** After a run it can exactly if no await of the cleanup task raised another
exception while the cancellation was on its way; otherwise it awaits the task forever. Once it awaits the task, at most
two of the task's awaits end before that, unless one raises so. -/
theorem close_reached_iff (batch : Nat) (replicaPorts : List Nat) (clock : Int) (table : Store) (moves : List AppMove)
    (os : List AppEvent) (s : App) (h : (app batch).run (.init replicaPorts clock table) moves = some (os, s)) :
    ((∃ t, (app batch).Reaches s t ∧ ∃ c, t.phase = .closing c) ↔
      (app batch).Along Kept (.init replicaPorts clock table) moves) ∧
    ((app batch).Along Kept (.init replicaPorts clock table) moves → s.phase = .joining →
      ∀ moves' os' t, (app batch).run s moves' = some (os', t) → (app batch).Along Kept s moves' →
        os'.count .resumed ≤ 2) := by
  have hok := ok_run h
  rw [← not_lost_iff_kept h]
  refine ⟨⟨?_, closes_of_not_lost hok⟩, fun hnot hphase moves' os' t hrun hkept => ?_⟩
  · rintro ⟨t, hreach, c, hclosing⟩ hlost
    have ht := hreach.invariant (P := Lost) lost_step hlost
    exact absurd (ht.joining.symm.trans hclosing) (by simp)
  · have hstart : s.task.awaitsLeft ≤ 2 := by
      cases s.task <;> simp [CleanupTask.awaitsLeft]
    have hall := Machine.run_history_along (M := app batch) (P := fun os t => (t.Ok replicaPorts.length ∧ ¬Lost t) ∧
      t.phase ≠ .serving ∧ t.task.awaitsLeft + os.count .resumed ≤ 2) ?_ (l := [])
      ⟨⟨hok, hnot⟩, by simp [hphase], by simpa using hstart⟩ hkept hrun
    · have hcount := hall.2.2
      rw [List.nil_append] at hcount
      omega
    · intro os s a e t ⟨⟨hok, hnot⟩, hserving, hcount⟩ hkept hs
      obtain ⟨hserving', hlt⟩ := awaitsLeft_step hok hserving hnot hkept hs
      refine ⟨⟨ok_step hok hs, not_lost_step hnot hkept hs⟩, hserving', ?_⟩
      rw [List.count_append]
      omega

/-- The statement is cancelled, and the release of its connection raises: `lifespan` awaits the task forever. -/
theorem close_reached_iff_example :
    ∃ os s, (app cleanupBatchSize).run (.init [5433, 5434] 5 backlog)
        [.resume .returned, .resume .returned, .resume .returned, .shutdown, .resume (.raised .cancelled),
          .resume (.raised .exception)] = some (os, s) ∧
      ¬∃ t, (app cleanupBatchSize).Reaches s t ∧ ∃ c, t.phase = .closing c := by
  have hrun : ((app cleanupBatchSize).run (.init [5433, 5434] 5 backlog) [.resume .returned, .resume .returned,
      .resume .returned, .shutdown, .resume (.raised .cancelled), .resume (.raised .exception)]).isSome := by
    decide +kernel
  obtain ⟨⟨os, s⟩, h⟩ := Option.isSome_iff_exists.mp hrun
  refine ⟨os, s, h, fun hreach => ?_⟩
  exact absurd ((close_reached_iff _ _ _ _ _ os s h).1.mp hreach) (by decide +kernel)

end TheGrind.KvStore
