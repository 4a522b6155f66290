import TheGrind.KvStore.Interleaved
import TheGrind.KvStore.Replica

/-!
# What a default read may miss

The primary under its requests and the cleanup, replicas that replay in order what the primary's table was after each of
its steps, and GETs with `consistent=false` that read from whatever node `get_replica_pool` gives them.

* `replicated` : the machine; it runs `primary` and `replicaReads` side by side, under one clock;
* `Follows` : what becomes of a GET at a step of the cluster;
* `Recorded` : every table of the history is the primary's after a run of its steps, and every replica's is in the
  history;
* `default_read_is_past_read` : a default GET answers as a consistent one would have answered at some point that every
  replica had already reached when it began, or later.
-/

namespace TheGrind.KvStore
open TheGrind.Transition

/-- The primary and the tables it has had, how far each replica has replayed them, and the cluster that the GETs see. -/
structure Replicated (ρ : Type) where
  primary : Primary ρ
  history : List Store
  replayed : Nat → Nat
  cluster : Cluster ρ

inductive ReplicatedMove (ρ : Type) where
  | primary (a : Move ρ)
  | replay (replica position : Nat)
  | get (id : ρ) (key : String)
  | resume (id : ρ) (reachable : Bool)

/-- What a step shows: a step of the primary, a replay, or a step of a GET. -/
inductive ReplicatedEvent (ρ : Type) where
  | primary (o : Effect)
  | replayed
  | read (o : Option (ReadEvent ρ))
  deriving DecidableEq

namespace Replicated
variable {ρ : Type} [DecidableEq ρ]

def init (ρ : Type) [DecidableEq ρ] (replicaPorts : List Nat) : Replicated ρ :=
  ⟨.init, [.empty], fun _ => 0, .init ρ replicaPorts⟩

/-- The primary has made a step: the cluster sees its clock and its table. -/
def advance (s : Replicated ρ) (p : Primary ρ) : Replicated ρ :=
  { s with
    primary := p
    history := s.history ++ [p.store]
    cluster := { s.cluster with clock := p.clock, tables := Function.update s.cluster.tables .primary p.store } }

/-- A replica replays up to a position of the history, at which the primary had this table. -/
def replay (s : Replicated ρ) (replica position : Nat) (table : Store) : Replicated ρ :=
  { s with
    replayed := Function.update s.replayed replica position
    cluster := { s.cluster with tables := Function.update s.cluster.tables (.replica replica) table } }

end Replicated

/-- The primary, its replicas, and default GETs. -/
def replicated (ρ : Type) [DecidableEq ρ] (batch : Nat) (replicaPorts : List Nat) :
    Machine (Replicated ρ) (ReplicatedMove ρ) (ReplicatedEvent ρ) where
  step s
    | .primary a => ((primary ρ batch).step s.primary a).map fun r => (.primary r.1, s.advance r.2)
    | .replay replica position =>
      match s.history[position]? with
      | some table => if s.replayed replica ≤ position then some (.replayed, s.replay replica position table) else none
      | none => none
    | .get id key =>
      ((replicaReads ρ replicaPorts).step s.cluster (.get id key)).map fun r => (.read r.1, { s with cluster := r.2 })
    | .resume id reachable =>
      ((replicaReads ρ replicaPorts).step s.cluster (.resume id reachable)).map fun r =>
        (.read r.1, { s with cluster := r.2 })

variable {ρ : Type} [DecidableEq ρ] {batch : Nat} {replicaPorts : List Nat}

/-! ## What becomes of a GET -/

section Follows
variable {c c' : Cluster ρ} {o : Option (ReadEvent ρ)} {id : ρ}

/-- What becomes of a GET at a step of the cluster: it stays, it has no pool or no reading yet, it takes its reading, or
it fetches its row. -/
inductive Follows (clock : Int) (tables : Node → Store) : Read → Read → Prop
  | stays (r : Read) : Follows clock tables r r
  | idle (r : Read) : Follows clock tables r .idle
  | probes (r : Read) (key : String) (p : Probe Node) : Follows clock tables r (.probing key p)
  | acquires (r : Read) (key : String) (pool : Node) : Follows clock tables r (.acquire key pool)
  | unwinds (r : Read) (pool : Node) : Follows clock tables r (.unwinding pool)
  | reads (key : String) (pool : Node) : Follows clock tables (.acquire key pool) (.fetchrow key pool clock)
  | fetches (key : String) (pool : Node) (now : Int) :
      Follows clock tables (.fetchrow key pool now) (.release key pool ((tables pool).selectLive key now))

theorem follows_goto {clock : Int} {tables : Node → Store} {id' : ρ} {r : Read}
    (h : Follows clock tables (c.reads id') r) : Follows clock tables (c.reads id) ((c.goto id' r).reads id) := by
  by_cases hid : id = id'
  · subst hid
    rw [reads_goto]
    exact h
  · rw [reads_goto_of_ne hid]
    exact .stays _

/-- The GETs of a cluster after a step, and what it shows of them. -/
structure Moved (c : Cluster ρ) (o : Option (ReadEvent ρ)) (c' : Cluster ρ) : Prop where
  clock : c'.clock = c.clock
  tables : c'.tables = c.tables
  follows : ∀ id, Follows c.clock c.tables (c.reads id) (c'.reads id)
  answered : ∀ id key node answer, o = some (.answered id key node answer) →
    ∃ row, c.reads id = .release key node row ∧ answer = getAnswer row

theorem Moved.goto {id' : ρ} {r : Read} (h : Follows c.clock c.tables (c.reads id') r) (ho : ∀ id key node answer,
    o = some (.answered id key node answer) → ∃ row, c.reads id = .release key node row ∧ answer = getAnswer row) :
    Moved c o (c.goto id' r) :=
  ⟨rfl, rfl, fun _ => follows_goto h, ho⟩

/-- A GET that goes on with what became of its `get_replica_pool`, the shared pools being `pools` now. -/
theorem moved_enter {key : String} {next : Next Node} (pools : Pools Node)
    (h : Cluster.enter { c with pools } id key next = (o, c')) : Moved c o c' := by
  cases next with
  | suspend p =>
    cases h
    exact ⟨rfl, rfl, fun _ => follows_goto (.probes _ key p), by intro _ _ _ _ he; cases he⟩
  | done pool =>
    cases h
    exact ⟨rfl, rfl, fun _ => follows_goto (.acquires _ key pool), by intro _ _ _ _ he; cases he⟩
  | raise e =>
    cases h
    exact ⟨rfl, rfl, fun _ => follows_goto (.idle _), by intro _ _ _ _ he; cases he⟩

theorem moved_resume {reachable : Bool} (h : Cluster.resume replicaPorts c id reachable = some (o, c')) :
    Moved c o c' := by
  unfold Cluster.resume at h
  cases hr : c.reads id with
  | idle =>
    rw [hr] at h
    cases h
  | probing key p =>
    rw [hr] at h
    exact moved_enter c.pools (Option.some.inj h)
  | acquire key pool =>
    rw [hr] at h
    cases reachable with
    | true =>
      cases h
      exact .goto (hr ▸ .reads key pool) (by intro _ _ _ _ he; cases he)
    | false =>
      cases h
      exact .goto (.idle _) (by intro _ _ _ _ he; cases he)
  | fetchrow key pool now =>
    rw [hr] at h
    cases reachable with
    | true =>
      cases h
      exact .goto (hr ▸ .fetches key pool now) (by intro _ _ _ _ he; cases he)
    | false =>
      cases h
      exact .goto (.unwinds _ pool) (by intro _ _ _ _ he; cases he)
  | release key pool row =>
    rw [hr] at h
    cases reachable with
    | true =>
      cases h
      refine .goto (.idle _) fun _ _ _ _ he => ?_
      cases he
      exact ⟨row, hr, rfl⟩
    | false =>
      cases h
      exact .goto (.idle _) (by intro _ _ _ _ he; cases he)
  | unwinding pool =>
    rw [hr] at h
    cases h
    exact .goto (.idle _) (by intro _ _ _ _ he; cases he)

theorem moved_get {key : String} (h : (replicaReads ρ replicaPorts).step c (.get id key) = some (o, c')) :
    Moved c o c' := by
  simp only [replicaReads] at h
  split at h
  · exact moved_enter _ (Option.some.inj h)
  · cases h

theorem moved_of_resume {reachable : Bool}
    (h : (replicaReads ρ replicaPorts).step c (.resume id reachable) = some (o, c')) : Moved c o c' := by
  simp only [replicaReads] at h
  split at h
  · cases h
  · exact moved_resume h

end Follows

/-! ## The history -/

section Recorded
variable {s t : Replicated ρ} {a : ReplicatedMove ρ} {e : ReplicatedEvent ρ}

/-- The steps of the primary in a run. -/
def effects (es : List (ReplicatedEvent ρ)) : List Effect :=
  es.filterMap fun
    | .primary o => some o
    | .replayed | .read _ => none

omit [DecidableEq ρ] in
theorem effects_append (es es' : List (ReplicatedEvent ρ)) : effects (es ++ es') = effects es ++ effects es' :=
  List.filterMap_append

/-- What a step does. -/
inductive Advances (batch : Nat) (replicaPorts : List Nat) (s : Replicated ρ) :
    ReplicatedEvent ρ → Replicated ρ → Prop
  | primary {a : Move ρ} {o : Effect} {p : Primary ρ} :
      (TheGrind.KvStore.primary ρ batch).step s.primary a = some (o, p) →
      Advances batch replicaPorts s (.primary o) (s.advance p)
  | replay {replica position : Nat} {table : Store} : s.history[position]? = some table →
      s.replayed replica ≤ position → Advances batch replicaPorts s .replayed (s.replay replica position table)
  | read {a : ReadMove ρ} {o : Option (ReadEvent ρ)} {c : Cluster ρ} :
      (replicaReads ρ replicaPorts).step s.cluster a = some (o, c) → Moved s.cluster o c →
      Advances batch replicaPorts s (.read o) { s with cluster := c }

theorem advances_of_step (h : (replicated ρ batch replicaPorts).step s a = some (e, t)) :
    Advances batch replicaPorts s e t := by
  cases a with
  | primary a =>
    obtain ⟨r, hr, he⟩ := Option.map_eq_some_iff.mp h
    cases he
    exact .primary hr
  | replay replica position =>
    simp only [replicated] at h
    split at h
    · next table htable =>
      split at h
      · next hle =>
        cases h
        exact .replay htable hle
      · cases h
    · cases h
  | get id key =>
    obtain ⟨r, hr, he⟩ := Option.map_eq_some_iff.mp h
    cases he
    exact .read hr (moved_get hr)
  | resume id reachable =>
    obtain ⟨r, hr, he⟩ := Option.map_eq_some_iff.mp h
    cases he
    exact .read hr (moved_of_resume hr)

/-- The primary at some point of its run. -/
def Past (batch : Nat) (os : List Effect) (table : Store) : Prop :=
  ∃ (moves : List (Move ρ)) (p : Primary ρ), (primary ρ batch).run Primary.init moves = some (os, p) ∧ p.store = table

/-- Each table of the history is the primary's after as many of its steps, and every replica has one of them. -/
structure Recorded (batch n : Nat) (os : List Effect) (s : Replicated ρ) : Prop where
  run : ∃ moves, (primary ρ batch).run Primary.init moves = some (os, s.primary)
  length : s.history.length = os.length + 1
  past : ∀ (k : Nat) table, s.history[k]? = some table → Past (ρ := ρ) batch (os.take k) table
  now : s.history[os.length]? = some s.primary.store
  clock : s.cluster.clock = s.primary.clock
  primary : s.cluster.tables .primary = s.primary.store
  replicas : ∀ i, s.history[s.replayed i]? = some (s.cluster.tables (.replica i))
  ready : Ready n s.cluster

theorem recorded_init : Recorded batch replicaPorts.length [] (Replicated.init ρ replicaPorts) where
  run := ⟨[], rfl⟩
  length := rfl
  past k table h := by
    cases k with
    | zero =>
      cases h
      exact ⟨[], .init, rfl, rfl⟩
    | succ k => cases h
  now := rfl
  clock := rfl
  primary := rfl
  replicas _ := rfl
  ready := ready_init replicaPorts

theorem recorded_step {es : List (ReplicatedEvent ρ)} (h : Recorded batch replicaPorts.length (effects es) s)
    (hs : Advances batch replicaPorts s e t) : Recorded batch replicaPorts.length (effects (es ++ [e])) t := by
  rw [effects_append]
  cases hs with
  | @primary a o p hs =>
    obtain ⟨moves, hrun⟩ := h.run
    have hrun' := (Machine.run_append_iff _).mpr ⟨_, _, _, hrun, (Machine.run_singleton_iff _).mpr ⟨o, hs, rfl⟩, rfl⟩
    have hget : ∀ k, k < s.history.length → (s.history ++ [p.store])[k]? = s.history[k]? := fun k hk =>
      List.getElem?_append_left hk
    refine ⟨⟨_, hrun'⟩, ?_, ?_, ?_, rfl, ?_, fun i => ?_, h.ready.pools, h.ready.reads⟩
    · show (s.history ++ [p.store]).length = _
      rw [List.length_append, List.length_append, h.length]
      rfl
    · intro k table hk
      by_cases hlt : k < s.history.length
      · rw [show (s.advance p).history = s.history ++ [p.store] from rfl, hget k hlt] at hk
        have hle : k ≤ (effects es).length := by rw [h.length] at hlt; omega
        rw [List.take_append_of_le_length hle]
        exact h.past k table hk
      · have hk' : k = s.history.length := by
          have hlt' := (List.getElem?_eq_some_iff.mp hk).1
          rw [show (s.advance p).history = s.history ++ [p.store] from rfl, List.length_append] at hlt'
          change k < s.history.length + 1 at hlt'
          omega
        subst hk'
        rw [show (s.advance p).history = s.history ++ [p.store] from rfl, List.getElem?_concat_length] at hk
        cases hk
        rw [h.length, List.take_of_length_le (by rw [List.length_append]; exact le_refl _)]
        exact ⟨_, p, hrun', rfl⟩
    · show (s.history ++ [p.store])[(effects es ++ [o]).length]? = _
      rw [List.length_append, List.length_singleton, ← h.length]
      exact List.getElem?_concat_length
    · show Function.update s.cluster.tables .primary p.store .primary = p.store
      exact Function.update_self _ _ _
    · show (s.history ++ [p.store])[s.replayed i]? =
        some (Function.update s.cluster.tables .primary p.store (.replica i))
      have hi := h.replicas i
      rw [hget _ (List.getElem?_eq_some_iff.mp hi).1, hi, Function.update_of_ne (by simp)]
  | @replay replica position table htable hle =>
    rw [show effects [(.replayed : ReplicatedEvent ρ)] = [] from rfl, List.append_nil]
    refine ⟨h.run, h.length, h.past, h.now, h.clock, ?_, fun i => ?_, h.ready.pools, h.ready.reads⟩
    · show Function.update s.cluster.tables (.replica replica) table .primary = _
      rw [Function.update_of_ne (by simp)]
      exact h.primary
    · show s.history[Function.update s.replayed replica position i]? =
        some (Function.update s.cluster.tables (.replica replica) table (.replica i))
      by_cases hi : i = replica
      · subst hi
        rw [Function.update_self, Function.update_self]
        exact htable
      · rw [Function.update_of_ne hi, Function.update_of_ne (fun he => hi (Node.replica.inj he))]
        exact h.replicas i
  | @read a o c hs hmoved =>
    rw [show effects [(.read o : ReplicatedEvent ρ)] = [] from rfl, List.append_nil]
    refine ⟨h.run, h.length, h.past, h.now, hmoved.clock.trans h.clock, ?_, fun i => ?_, (ready_step rfl h.ready hs).1⟩
    · show c.tables .primary = _
      rw [hmoved.tables]
      exact h.primary
    · show _ = some (c.tables (.replica i))
      rw [hmoved.tables]
      exact h.replicas i

theorem recorded_run {moves : List (ReplicatedMove ρ)} {es : List (ReplicatedEvent ρ)}
    (hrun : (replicated ρ batch replicaPorts).run (.init ρ replicaPorts) moves = some (es, s)) :
    Recorded batch replicaPorts.length (effects es) s :=
  Machine.run_history (M := replicated ρ batch replicaPorts)
    (P := fun es s => Recorded batch replicaPorts.length (effects es) s)
    (fun hP hs => recorded_step hP (advances_of_step hs)) (l := []) recorded_init hrun

end Recorded

/-! ## Reads from then on -/

/-- The last step of the primary whose table a node has. -/
def Replicated.position (s : Replicated ρ) : Node → Nat
  | .primary => s.history.length - 1
  | .replica i => s.replayed i

section Since
variable {s t : Replicated ρ} {e : ReplicatedEvent ρ} {n : Nat} {n₀ : Node → Nat} {c₀ : Int} {id : ρ}
  {pool : Node} {key : String} {row : Option (String × String)} {os : List Effect}

/-- The row is what the node's table showed at a position from `n₀` on, at a reading from `c₀` on. -/
def Seen (n₀ : Nat) (c₀ : Int) (s : Replicated ρ) (pool : Node) (key : String) (row : Option (String × String)) :
    Prop :=
  ∃ (k : Nat) (now : Int) (table : Store), n₀ ≤ k ∧ k ≤ s.position pool ∧ s.history[k]? = some table ∧ c₀ ≤ now ∧
    now ≤ s.primary.clock ∧ row = table.selectLive key now

/-- The reading of a GET is from `c₀` on, and the row that it has fetched was seen on its node from `n₀` on. -/
def Read.Since (n₀ : Node → Nat) (c₀ : Int) (s : Replicated ρ) : Read → Prop
  | .fetchrow _ _ now => c₀ ≤ now ∧ now ≤ s.primary.clock
  | .release key pool row => Seen (n₀ pool) c₀ s pool key row
  | _ => True

/-- Every node has reached `n₀`, the clock `c₀`, and so has the GET. -/
structure Since (n₀ : Node → Nat) (c₀ : Int) (n : Nat) (id : ρ) (s : Replicated ρ) : Prop where
  reached : ∀ pool, pool = .primary ∨ pool ∈ replicas n → n₀ pool ≤ s.position pool
  clock : c₀ ≤ s.primary.clock
  read : (s.cluster.reads id).Since n₀ c₀ s

theorem clock_le_advances (hs : Advances batch replicaPorts s e t) : s.primary.clock ≤ t.primary.clock := by
  cases hs with
  | primary hs => exact (step_change hs).clock_le
  | replay _ _ => exact le_refl _
  | read _ _ => exact le_refl _

/-- The history is never rewritten. -/
theorem history_advances {k : Nat} {table : Store} (hs : Advances batch replicaPorts s e t)
    (h : s.history[k]? = some table) : t.history[k]? = some table := by
  cases hs with
  | primary hs =>
    show (s.history ++ [_])[k]? = _
    rw [List.getElem?_append_left (List.getElem?_eq_some_iff.mp h).1]
    exact h
  | replay _ _ => exact h
  | read _ _ => exact h

/-- No node goes back. -/
theorem position_le_advances (hs : Advances batch replicaPorts s e t) : s.position pool ≤ t.position pool := by
  cases hs with
  | @primary a o p _ =>
    cases pool with
    | primary =>
      show s.history.length - 1 ≤ (s.history ++ [p.store]).length - 1
      rw [List.length_append]
      omega
    | replica i => exact le_refl _
  | @replay replica position table _ hle =>
    cases pool with
    | primary => exact le_refl _
    | replica i =>
      show s.replayed i ≤ Function.update s.replayed replica position i
      by_cases hi : i = replica
      · subst hi
        rw [Function.update_self]
        exact hle
      · rw [Function.update_of_ne hi]
  | read _ _ => exact le_refl _

theorem Seen.advances {n₀ : Nat} (h : Seen n₀ c₀ s pool key row) (hs : Advances batch replicaPorts s e t) :
    Seen n₀ c₀ t pool key row := by
  obtain ⟨k, now, table, hk, hle, htable, hc, hnow, hrow⟩ := h
  exact ⟨k, now, table, hk, hle.trans (position_le_advances hs), history_advances hs htable, hc,
    le_trans hnow (clock_le_advances hs), hrow⟩

theorem Read.Since.advances {r : Read} (h : r.Since n₀ c₀ s) (hs : Advances batch replicaPorts s e t) :
    r.Since n₀ c₀ t := by
  cases r with
  | fetchrow key pool now => exact ⟨h.1, le_trans h.2 (clock_le_advances hs)⟩
  | release key pool row => exact Seen.advances h hs
  | idle | probing _ _ | acquire _ _ | unwinding _ => trivial

/-- A node of the cluster has the primary's table at its position. -/
theorem table_of_recorded (hr : Recorded batch n os s) (hpool : pool = .primary ∨ pool ∈ replicas n) :
    s.history[s.position pool]? = some (s.cluster.tables pool) := by
  rcases hpool with rfl | hpool
  · show s.history[s.history.length - 1]? = _
    rw [hr.length, Nat.add_sub_cancel, hr.primary]
    exact hr.now
  · obtain ⟨i, -, rfl⟩ := List.mem_map.mp hpool
    exact hr.replicas i

theorem since_step (h : Since n₀ c₀ replicaPorts.length id s) (hr : Recorded batch replicaPorts.length os s)
    (hs : Advances batch replicaPorts s e t) : Since n₀ c₀ replicaPorts.length id t := by
  have hreached := fun pool hpool => (h.reached pool hpool).trans (position_le_advances hs)
  have hclock := le_trans h.clock (clock_le_advances hs)
  have hread := h.read.advances hs
  cases hs with
  | primary _ => exact ⟨hreached, hclock, hread⟩
  | replay _ _ => exact ⟨hreached, hclock, hread⟩
  | @read a o c hs hmoved =>
    refine ⟨hreached, hclock, ?_⟩
    show (c.reads id).Since n₀ c₀ { s with cluster := c }
    have hok := hr.ready.reads id
    have hfollows := hmoved.follows id
    generalize s.cluster.reads id = r at hread hok hfollows
    generalize c.reads id = r' at hfollows
    cases hfollows with
    | stays => exact hread
    | idle | probes _ _ | acquires _ _ | unwinds _ => trivial
    | reads key pool => exact ⟨hr.clock ▸ h.clock, hr.clock ▸ le_refl _⟩
    | fetches key pool now =>
      exact ⟨s.position pool, now, s.cluster.tables pool, h.reached pool hok, le_refl _, table_of_recorded hr hok,
        hread.1, hread.2, rfl⟩

/-- A GET answers with what it has seen. -/
theorem answer_step {node : Node} {answer : Response} (h : Since n₀ c₀ replicaPorts.length id s)
    (hs : Advances batch replicaPorts s (.read (some (.answered id key node answer))) t) :
    ∃ row, Seen (n₀ node) c₀ s node key row ∧ answer = getAnswer row := by
  cases hs with
  | read _ hmoved =>
    obtain ⟨row, hread, rfl⟩ := hmoved.answered id key node answer rfl
    have hsince := h.read
    rw [hread] at hsince
    exact ⟨row, hsince, rfl⟩

/-- A run that goes on from where `es₀` had been shown, and what a GET has seen and answered since. -/
structure Watched (batch : Nat) (n₀ : Node → Nat) (c₀ : Int) (n : Nat) (id : ρ) (es₀ es : List (ReplicatedEvent ρ))
    (s : Replicated ρ) : Prop where
  recorded : Recorded batch n (effects (es₀ ++ es)) s
  since : Since n₀ c₀ n id s
  answers : ∀ key node answer, .read (some (.answered id key node answer)) ∈ es →
    ∃ row, Seen (n₀ node) c₀ s node key row ∧ answer = getAnswer row

theorem watched_step {es₀ es : List (ReplicatedEvent ρ)} (h : Watched batch n₀ c₀ replicaPorts.length id es₀ es s)
    (hs : Advances batch replicaPorts s e t) : Watched batch n₀ c₀ replicaPorts.length id es₀ (es ++ [e]) t where
  recorded := List.append_assoc es₀ es [e] ▸ recorded_step h.recorded hs
  since := since_step h.since h.recorded hs
  answers key node answer hmem := by
    rcases List.mem_append.mp hmem with hmem | hmem
    · obtain ⟨row, hrow, rfl⟩ := h.answers key node answer hmem
      exact ⟨row, hrow.advances hs, rfl⟩
    · obtain rfl := List.mem_singleton.mp hmem
      obtain ⟨row, hrow, rfl⟩ := answer_step h.since hs
      exact ⟨row, hrow.advances hs, rfl⟩

/-- A GET that has not begun is watched from there on. -/
theorem watched_run (n₀ : Node → Nat) {es₀ es : List (ReplicatedEvent ρ)} {moves : List (ReplicatedMove ρ)}
    (h : Recorded batch replicaPorts.length (effects es₀) s) (hidle : s.cluster.reads id = .idle)
    (hreached : ∀ pool, pool = .primary ∨ pool ∈ replicas replicaPorts.length → n₀ pool ≤ s.position pool)
    (hrun : (replicated ρ batch replicaPorts).run s moves = some (es, t)) :
    Watched batch n₀ s.primary.clock replicaPorts.length id es₀ es t := by
  have hstart : Watched batch n₀ s.primary.clock replicaPorts.length id es₀ [] s :=
    ⟨by rw [List.append_nil]; exact h, ⟨hreached, le_refl _, by rw [hidle]; trivial⟩,
      fun _ _ _ hmem => absurd hmem List.not_mem_nil⟩
  exact Machine.run_history (P := Watched batch n₀ s.primary.clock replicaPorts.length id es₀)
    (fun hP hs => watched_step hP (advances_of_step hs)) (l := []) hstart hrun

/-- What a GET answers from a past table is the last write of its key before it, live at the reading. -/
theorem last_write_of_past {table : Store} {now : Int} {k value : String} (hpast : Past (ρ := ρ) batch os table)
    (hnow : 0 ≤ now) (hvalue : getKey table now key = .kv k value) :
    k = key ∧ ∃ os₁ o e os₂, os = os₁ ++ o :: os₂ ∧ o.Puts key value e ∧ (∀ o ∈ os₂, ¬o.writes key) ∧
      (e = 0 ∨ now < e) := by
  obtain ⟨moves, p, hrun, rfl⟩ := hpast
  refine last_write_of_seen (inv_attributed_run hrun).2 hnow ?_
  unfold getKey at hvalue
  cases hsel : p.store.selectLive key now with
  | none =>
    rw [hsel] at hvalue
    cases hvalue
  | some kv =>
    obtain ⟨k', v⟩ := kv
    rw [hsel] at hvalue
    cases hvalue
    rfl

/-- **A default read is a past read.** A GET with `consistent=false` that begins when every replica has replayed the
first `n₀` steps of the primary answers as a GET with `consistent=true` would have answered after some first `k ≥ n₀`
of them, at a reading taken while it ran. A value that it answers with is its own key's, the last one that these steps
stored for it, not deleted by them and live at the reading. -/
theorem default_read_is_past_read (batch : Nat) (replicaPorts : List Nat) (moves₀ moves : List (ReplicatedMove ρ))
    (es₀ es : List (ReplicatedEvent ρ)) (s t : Replicated ρ) (id : ρ) (n₀ : Nat) (key : String) (node : Node)
    (answer : Response) (h₀ : (replicated ρ batch replicaPorts).run (.init ρ replicaPorts) moves₀ = some (es₀, s))
    (hidle : s.cluster.reads id = .idle) (hn : n₀ < s.history.length)
    (hreplayed : ∀ i < replicaPorts.length, n₀ ≤ s.replayed i)
    (h : (replicated ρ batch replicaPorts).run s moves = some (es, t))
    (ha : .read (some (.answered id key node answer)) ∈ es) :
    ∃ (k : Nat) (now : Int) (table : Store), n₀ ≤ k ∧ k ≤ (effects (es₀ ++ es)).length ∧
      Past (ρ := ρ) batch ((effects (es₀ ++ es)).take k) table ∧ s.primary.clock ≤ now ∧ now ≤ t.primary.clock ∧
      answer = getKey table now key ∧
      ∀ k' value, answer = .kv k' value → k' = key ∧ ∃ os₁ o e os₂, (effects (es₀ ++ es)).take k = os₁ ++ o :: os₂ ∧
        o.Puts key value e ∧ (∀ o ∈ os₂, ¬o.writes key) ∧ (e = 0 ∨ now < e) := by
  have hrecorded := recorded_run h₀
  have hreached : ∀ pool, pool = .primary ∨ pool ∈ replicas replicaPorts.length → n₀ ≤ s.position pool := by
    rintro pool (rfl | hpool)
    · exact Nat.le_sub_one_of_lt hn
    · obtain ⟨i, hi, rfl⟩ := List.mem_map.mp hpool
      exact hreplayed i (List.mem_range.mp hi)
  obtain ⟨hrecorded', -, hseen⟩ := watched_run (fun _ => n₀) hrecorded hidle hreached h
  obtain ⟨row, ⟨k, now, table, hk, -, htable, hc, hnow, rfl⟩, rfl⟩ := hseen key node answer ha
  have hlen := (List.getElem?_eq_some_iff.mp htable).1
  rw [hrecorded'.length] at hlen
  have hpast := hrecorded'.past k table htable
  refine ⟨k, now, table, hk, by omega, hpast, hc, hnow, rfl, fun k' value hvalue => ?_⟩
  obtain ⟨moves₁, hrun₁⟩ := hrecorded.run
  have hnonneg : 0 ≤ now := le_trans (inv_attributed_run hrun₁).1.clock_nonneg hc
  exact last_write_of_past hpast hnonneg hvalue

/-- A GET reads a key that is overwritten meanwhile, from a replica that has its first value. -/
theorem default_read_is_past_read_example :
    let moves₀ : List (ReplicatedMove Bool) :=
      [.primary (.readPut true "k" ⟨"v", none⟩), .primary (.execute true), .replay 0 2]
    let moves : List (ReplicatedMove Bool) :=
      [.get false "k", .primary (.readPut true "k" ⟨"w", none⟩), .primary (.execute true), .resume false true,
        .resume false true, .resume false true, .resume false true, .resume false true, .resume false true]
    let es₀ : List (ReplicatedEvent Bool) := [.primary .silent, .primary (.put "k" "v" 0 (.kv "k" "v")), .replayed]
    let es : List (ReplicatedEvent Bool) :=
      [.read none, .primary .silent, .primary (.put "k" "w" 0 (.kv "k" "w")), .read none, .read none, .read none,
        .read none, .read none, .read (some (.answered false "k" (.replica 0) (.kv "k" "v")))]
    ∃ s t, (replicated Bool cleanupBatchSize [5433]).run (.init Bool [5433]) moves₀ = some (es₀, s) ∧
      (replicated Bool cleanupBatchSize [5433]).run s moves = some (es, t) ∧
      ∃ (k : Nat) (now : Int) (table : Store), 2 ≤ k ∧ k ≤ (effects (es₀ ++ es)).length ∧
        Past (ρ := Bool) cleanupBatchSize ((effects (es₀ ++ es)).take k) table ∧ s.primary.clock ≤ now ∧
        now ≤ t.primary.clock ∧ Response.kv "k" "v" = getKey table now "k" ∧
        ∀ k' value, Response.kv "k" "v" = .kv k' value → k' = "k" ∧ ∃ os₁ o e os₂,
          (effects (es₀ ++ es)).take k = os₁ ++ o :: os₂ ∧ o.Puts "k" value e ∧ (∀ o ∈ os₂, ¬o.writes "k") ∧
            (e = 0 ∨ now < e) := by
  intro moves₀ moves es₀ es
  refine ⟨_, _, rfl, rfl, ?_⟩
  exact default_read_is_past_read cleanupBatchSize [5433] moves₀ moves es₀ es _ _ false 2 "k" (.replica 0) (.kv "k" "v")
    rfl rfl (by decide) (by decide) rfl (by decide)

end Since

end TheGrind.KvStore
