import TheGrind.Transition.Machine
import TheGrind.KvStore.Handlers
import TheGrind.KvStore.Pools

/-!
# Reads from the replicas

A GET with `consistent=false` asks `get_replica_pool` for a pool and reads from it. It is suspended at every `await` of
the health checks and of its own `acquire`, `fetchrow` and release, and there a replica may turn out to be unreachable;
the primary never does. Requests `ρ` move in any order, and the tables of the nodes change at will.

* `replicaReads` : the machine;
* `Ready` : the pools stay open, and suspended requests wait for nodes of the cluster;
* `Read.rank` : how many awaits a request has before it at most;
* `replica_read_iff` : no replica error surfaces exactly in the runs in which every replica a GET was given stays
  reachable until the GET is done with it, and every GET completes; `replica_error_surfaces` : one that does not.
-/

namespace TheGrind.KvStore
open TheGrind.Transition

inductive Node where
  | primary
  | replica (i : Nat)
  deriving DecidableEq, Repr

/-- Where a GET is suspended. -/
inductive Read where
  | idle
  | probing (key : String) (probe : Probe Node)
  | acquire (key : String) (pool : Node)
  | fetchrow (key : String) (pool : Node) (now : Int)
  | release (key : String) (pool : Node) (row : Option (String × String))
  | unwinding (pool : Node)

/-- The node that a suspended GET waits for. -/
def Read.node? : Read → Option Node
  | .idle => none
  | .probing _ p => some p.pool
  | .acquire _ pool => some pool
  | .fetchrow _ pool _ => some pool
  | .release _ pool _ => some pool
  | .unwinding pool => some pool

/-- The awaits of `get_key` itself, on the way to its answer. -/
def Read.own : Read → Bool
  | .acquire _ _ | .fetchrow _ _ _ | .release _ _ _ => true
  | _ => false

/-- A request got its answer, or an exception left `get_key`: a connection error, or one of `get_replica_pool`. -/
inductive ReadEvent (ρ : Type) where
  | answered (id : ρ) (key : String) (node : Node) (answer : Response)
  | failed (id : ρ) (node : Node)
  | raised (id : ρ) (error : PoolError)
  deriving DecidableEq

inductive ReadMove (ρ : Type) where
  | tick (now : Int)
  | replicate (node : Node) (table : Store)
  | get (id : ρ) (key : String)
  | resume (id : ρ) (reachable : Bool)

structure Cluster (ρ : Type) where
  clock : Int
  pools : Pools Node
  tables : Node → Store
  reads : ρ → Read

namespace Cluster
variable {ρ : Type} [DecidableEq ρ]

/-- After `init_pools`, with one replica for each port. -/
def init (ρ : Type) (replicaPorts : List Nat) : Cluster ρ where
  clock := 0
  pools := .opened .primary ((List.range replicaPorts.length).map .replica)
  tables _ := .empty
  reads _ := .idle

def goto (s : Cluster ρ) (id : ρ) (r : Read) : Cluster ρ := { s with reads := Function.update s.reads id r }

/-- What a GET does with what became of its `get_replica_pool`. -/
def enter (s : Cluster ρ) (id : ρ) (key : String) : Next Node → Option (ReadEvent ρ) × Cluster ρ
  | .suspend p => (none, s.goto id (.probing key p))
  | .done pool => (none, s.goto id (.acquire key pool))
  | .raise e => (some (.raised id e), s.goto id .idle)

/-- A GET goes on when its await is over. -/
def resume (replicaPorts : List Nat) (s : Cluster ρ) (id : ρ) (reachable : Bool) :
    Option (Option (ReadEvent ρ) × Cluster ρ) :=
  match s.reads id with
  | .idle => none
  | .probing key p => some (s.enter id key (p.resume s.pools replicaPorts reachable))
  | .acquire key pool =>
    if reachable then some (none, s.goto id (.fetchrow key pool s.clock))
    else some (some (.failed id pool), s.goto id .idle)
  | .fetchrow key pool now =>
    if reachable then some (none, s.goto id (.release key pool ((s.tables pool).selectLive key now)))
    else some (some (.failed id pool), s.goto id (.unwinding pool))
  | .release key pool row =>
    if reachable then some (some (.answered id key pool (getAnswer row)), s.goto id .idle)
    else some (some (.failed id pool), s.goto id .idle)
  | .unwinding _ => some (none, s.goto id .idle)

end Cluster

/-- GETs with `consistent=false`; the primary is always reachable. -/
def replicaReads (ρ : Type) [DecidableEq ρ] (replicaPorts : List Nat) :
    Machine (Cluster ρ) (ReadMove ρ) (Option (ReadEvent ρ)) where
  step s
    | .tick now => some (none, { s with clock := now })
    | .replicate node table => some (none, { s with tables := Function.update s.tables node table })
    | .get id key =>
      match s.reads id with
      | .idle =>
        let r := getReplicaPool s.pools
        some (Cluster.enter { s with pools := r.2 } id key r.1)
      | _ => none
    | .resume id reachable =>
      if reachable = false ∧ (s.reads id).node? = some .primary then none
      else Cluster.resume replicaPorts s id reachable

variable {ρ : Type} [DecidableEq ρ] {replicaPorts : List Nat} {s t : Cluster ρ} {a : ReadMove ρ}
  {o : Option (ReadEvent ρ)} {id : ρ} {key : String}

/-! ## When a replica error surfaces -/

/-- At its own awaits a GET finds its replica reachable. -/
def Staying (s : Cluster ρ) : ReadMove ρ → Prop
  | .resume id reachable => (s.reads id).own = true → reachable = true
  | _ => True

instance (s : Cluster ρ) : DecidablePred (Staying s)
  | .resume id reachable => inferInstanceAs (Decidable ((s.reads id).own = true → reachable = true))
  | .tick _ | .replicate _ _ | .get _ _ => inferInstanceAs (Decidable True)

def NoFailure (o : Option (ReadEvent ρ)) : Prop := ∀ id node, o ≠ some (.failed id node)

omit [DecidableEq ρ] in
theorem noFailure_none : NoFailure (none : Option (ReadEvent ρ)) := fun _ _ h => by cases h

theorem noFailure_enter {n : Next Node} (h : s.enter id key n = (o, t)) : NoFailure o := by
  intro id' node ho
  subst ho
  cases n <;> cases h

theorem noFailure_iff_staying (h : (replicaReads ρ replicaPorts).step s a = some (o, t)) :
    NoFailure o ↔ Staying s a := by
  cases a with
  | tick _ | replicate _ _ =>
    cases h
    exact ⟨fun _ => trivial, fun _ => noFailure_none⟩
  | get id key =>
    simp only [replicaReads] at h
    split at h
    · exact ⟨fun _ => trivial, fun _ => noFailure_enter (Option.some.inj h)⟩
    · cases h
  | resume id reachable =>
    simp only [replicaReads] at h
    split at h
    · cases h
    · unfold Cluster.resume at h
      show NoFailure o ↔ ((s.reads id).own = true → reachable = true)
      cases hr : s.reads id with
      | idle =>
        rw [hr] at h
        cases h
      | probing key p =>
        rw [hr] at h
        exact ⟨fun _ hown => absurd hown Bool.false_ne_true, fun _ => noFailure_enter (Option.some.inj h)⟩
      | acquire key pool | fetchrow key pool now | release key pool row =>
        rw [hr] at h
        cases reachable with
        | true =>
          cases h
          exact ⟨fun _ _ => rfl, fun _ _ _ ho => by cases ho⟩
        | false =>
          cases h
          exact ⟨fun hn => absurd rfl (hn id pool), fun hs => absurd (hs rfl) Bool.false_ne_true⟩
      | unwinding pool =>
        rw [hr] at h
        cases h
        exact ⟨fun _ hown => absurd hown Bool.false_ne_true, fun _ => noFailure_none⟩

/-! ## Every read completes -/

/-- A request that waits for nodes of the cluster, with a row of its own key if it has fetched one. -/
def Read.Ok (rs : List Node) : Read → Prop
  | .idle | .unwinding _ => True
  | .probing _ p => p.InRound rs
  | .acquire _ pool | .fetchrow _ pool _ => pool = .primary ∨ pool ∈ rs
  | .release key pool row => (pool = .primary ∨ pool ∈ rs) ∧ ∀ kv ∈ row, kv.1 = key

def replicas (n : Nat) : List Node := (List.range n).map .replica

structure Ready (n : Nat) (s : Cluster ρ) : Prop where
  pools : s.pools.Open .primary (replicas n)
  reads : ∀ id, (s.reads id).Ok (replicas n)

theorem length_replicas (n : Nat) : (replicas n).length = n := by
  unfold replicas
  rw [List.length_map, List.length_range]

/-- How many awaits a request has before it at most, until it has its answer or an exception leaves it. -/
def Read.rank (n : Nat) : Read → Nat
  | .idle | .unwinding _ => 0
  | .probing _ p => p.rank n
  | .acquire _ _ => 3
  | .fetchrow _ _ _ => 2
  | .release _ _ _ => 1

/-- The request ends with this event. -/
def ReadEvent.ends (id : ρ) : ReadEvent ρ → Prop
  | .answered id' _ _ _ => id' = id
  | .failed id' _ => id' = id
  | .raised _ _ => False

/-- The answer of a read is a row or a 404, from a node of the cluster. -/
def ReadEvent.Ok (n : Nat) : ReadEvent ρ → Prop
  | .answered _ key node answer =>
    (node = .primary ∨ node ∈ replicas n) ∧ (answer = keyNotFound ∨ ∃ value, answer = .kv key value)
  | .failed _ _ => True
  | .raised _ _ => False

def Answers (n : Nat) (o : Option (ReadEvent ρ)) : Prop := ∀ x ∈ o, x.Ok n

omit [DecidableEq ρ] in
theorem answers_none (n : Nat) : Answers n (none : Option (ReadEvent ρ)) := fun _ h => by cases h

theorem getAnswer_cases {row : Option (String × String)} (h : ∀ kv ∈ row, kv.1 = key) :
    getAnswer row = keyNotFound ∨ ∃ value, getAnswer row = .kv key value := by
  cases row with
  | none => exact Or.inl rfl
  | some kv =>
    obtain rfl := h kv rfl
    exact Or.inr ⟨kv.2, rfl⟩

section Steps
variable {n : Nat}

theorem reads_goto (s : Cluster ρ) (id : ρ) (r : Read) : (s.goto id r).reads id = r := Function.update_self _ _ _

theorem reads_goto_of_ne {id' : ρ} (h : id' ≠ id) (s : Cluster ρ) (r : Read) : (s.goto id r).reads id' = s.reads id' :=
  Function.update_of_ne h _ _

theorem Ready.goto {r : Read} (h : Ready n s) (hr : r.Ok (replicas n)) : Ready n (s.goto id r) := by
  refine ⟨h.pools, fun id' => ?_⟩
  by_cases hid : id' = id
  · subst hid
    rw [reads_goto]
    exact hr
  · rw [reads_goto_of_ne hid]
    exact h.reads id'

/-- A GET that is to go on with a suspended `get_replica_pool` or with a pool. -/
theorem Ready.enter (h : Ready n s) {next : Next Node}
    (hn : (∃ q : Probe Node, next = .suspend q ∧ q.InRound (replicas n)) ∨
      ∃ pool, next = .done pool ∧ (pool = .primary ∨ pool ∈ replicas n))
    (he : s.enter id key next = (o, t)) : Ready n t ∧ o = none := by
  rcases hn with ⟨q, rfl, hq⟩ | ⟨pool, rfl, hpool⟩
  · cases he
    exact ⟨h.goto hq, rfl⟩
  · cases he
    exact ⟨h.goto hpool, rfl⟩

theorem ready_get (h : Ready n s) (hs : (replicaReads ρ replicaPorts).step s (.get id key) = some (o, t)) :
    Ready n t ∧ o = none ∧ 0 < (t.reads id).rank n ∧ (t.reads id).rank n ≤ 3 * n + 3 := by
  simp only [replicaReads] at hs
  split at hs
  · have he := Option.some.inj hs
    rcases getReplicaPool_open h.pools with ⟨rr, rr', p, hrr, hlen, -, hp, hround, hi, -, hcheck⟩ | ⟨-, hdone⟩
    · have hopen : ({ s.pools with rr := some rr' } : Pools Node).Open .primary (replicas n) :=
        ⟨h.pools.primary, h.pools.replicas, rr', rfl, hlen⟩
      rw [hp] at he
      have hr : Ready n { s with pools := { s.pools with rr := some rr' } } := ⟨hopen, h.reads⟩
      obtain ⟨ht, rfl⟩ := hr.enter (Or.inl ⟨p, rfl, hround⟩) he
      cases he
      rw [reads_goto]
      have hgt := hround.rank_gt
      rw [length_replicas] at hgt
      refine ⟨ht, rfl, by show 0 < p.rank n; omega, ?_⟩
      simp only [Read.rank, Probe.rank, hi, hcheck]
      omega
    · rw [hdone] at he
      have hr : Ready n { s with pools := s.pools } := ⟨h.pools, h.reads⟩
      obtain ⟨ht, rfl⟩ := hr.enter (Or.inr ⟨_, rfl, Or.inl rfl⟩) he
      cases he
      rw [reads_goto]
      exact ⟨ht, rfl, Nat.succ_pos 2, by show 3 ≤ 3 * n + 3; omega⟩
  · cases hs

/-- What a resumed GET has done: it has come nearer to its end, or ended, and left the others where they are. -/
structure Resumed (n : Nat) (s : Cluster ρ) (id : ρ) (o : Option (ReadEvent ρ)) (t : Cluster ρ) : Prop where
  ready : Ready n t
  answers : Answers n o
  frame : ∀ id', id' ≠ id → t.reads id' = s.reads id'
  rank : 0 < (s.reads id).rank n → (0 < (t.reads id).rank n ∧ (t.reads id).rank n < (s.reads id).rank n) ∨
    ∃ x, o = some x ∧ x.ends id

theorem Resumed.goes_on {r : Read} (h : Ready n s) (hr : r.Ok (replicas n))
    (hrank : 0 < (s.reads id).rank n → 0 < r.rank n ∧ r.rank n < (s.reads id).rank n) :
    Resumed n s id none (s.goto id r) where
  ready := h.goto hr
  answers := answers_none n
  frame id' hid := reads_goto_of_ne hid s r
  rank hpos := by
    rw [reads_goto]
    exact Or.inl (hrank hpos)

theorem Resumed.ends {r : Read} {x : ReadEvent ρ} (h : Ready n s) (hr : r.Ok (replicas n)) (hx : x.Ok n)
    (hends : x.ends id) : Resumed n s id (some x) (s.goto id r) where
  ready := h.goto hr
  answers y hy := by
    obtain rfl := Option.some.inj hy
    exact hx
  frame id' hid := reads_goto_of_ne hid s r
  rank _ := Or.inr ⟨x, rfl, hends⟩

/-- A resumed `get_replica_pool` waits for another node, or hands its pool to the read. -/
theorem resumed_probing {key : String} {p : Probe Node} {reachable : Bool} (hports : replicaPorts.length = n)
    (h : Ready n s) (hr : s.reads id = .probing key p)
    (he : s.enter id key (p.resume s.pools replicaPorts reachable) = (o, t)) : Resumed n s id o t := by
  have hround : p.InRound (replicas n) := by
    have hok := h.reads id
    rw [hr] at hok
    exact hok
  have hgt := hround.rank_gt
  rw [length_replicas] at hgt
  have hlen : replicaPorts.length = (replicas n).length := by rw [hports, length_replicas]
  rcases resume_open reachable h.pools hlen hround with ⟨q, hq, hqround, hlt⟩ | ⟨pool, hdone, hpool⟩
  · have hqgt := hqround.rank_gt
    rw [length_replicas] at hlt hqgt
    rw [hq] at he
    cases he
    apply Resumed.goes_on (r := .probing key q) h hqround
    rw [hr]
    intro _
    show 0 < q.rank n ∧ q.rank n < p.rank n
    omega
  · rw [hdone] at he
    cases he
    apply Resumed.goes_on (r := .acquire key pool) h hpool
    rw [hr]
    intro _
    show 0 < 3 ∧ 3 < p.rank n
    omega

theorem resumed {reachable : Bool} (hports : replicaPorts.length = n) (h : Ready n s)
    (hs : Cluster.resume replicaPorts s id reachable = some (o, t)) : Resumed n s id o t := by
  have hok := h.reads id
  unfold Cluster.resume at hs
  cases hr : s.reads id with
  | idle =>
    rw [hr] at hs
    cases hs
  | probing key p =>
    rw [hr] at hs
    exact resumed_probing hports h hr (Option.some.inj hs)
  | acquire key pool =>
    rw [hr] at hs hok
    cases reachable with
    | true =>
      cases hs
      apply Resumed.goes_on (r := .fetchrow key pool s.clock) h hok
      intro _
      rw [hr]
      exact ⟨Nat.succ_pos 1, Nat.lt_succ_self 2⟩
    | false =>
      cases hs
      exact .ends h trivial trivial rfl
  | fetchrow key pool now =>
    rw [hr] at hs hok
    cases reachable with
    | true =>
      cases hs
      have hrow : ∀ kv ∈ (s.tables pool).selectLive key now, kv.1 = key := fun kv hkv =>
        (Store.selectLive_eq_some_iff.mp hkv).1
      apply Resumed.goes_on (r := .release key pool _) h ⟨hok, hrow⟩
      intro _
      rw [hr]
      exact ⟨Nat.succ_pos 0, Nat.lt_succ_self 1⟩
    | false =>
      cases hs
      exact .ends h trivial trivial rfl
  | release key pool row =>
    rw [hr] at hs hok
    cases reachable with
    | true =>
      cases hs
      exact .ends h trivial ⟨hok.1, getAnswer_cases hok.2⟩ rfl
    | false =>
      cases hs
      exact .ends h trivial trivial rfl
  | unwinding pool =>
    rw [hr] at hs
    cases hs
    apply Resumed.goes_on (r := .idle) h trivial
    intro hpos
    rw [hr] at hpos
    exact absurd hpos (Nat.lt_irrefl 0)

theorem ready_step (hports : replicaPorts.length = n) (h : Ready n s)
    (hs : (replicaReads ρ replicaPorts).step s a = some (o, t)) : Ready n t ∧ Answers n o := by
  cases a with
  | tick _ | replicate _ _ =>
    cases hs
    exact ⟨⟨h.pools, h.reads⟩, answers_none n⟩
  | get id key =>
    obtain ⟨ht, rfl, -⟩ := ready_get h hs
    exact ⟨ht, answers_none n⟩
  | resume id reachable =>
    simp only [replicaReads] at hs
    split at hs
    · cases hs
    · have hres := resumed hports h hs
      exact ⟨hres.ready, hres.answers⟩

omit [DecidableEq ρ] in
theorem ready_init (replicaPorts : List Nat) : Ready replicaPorts.length (Cluster.init ρ replicaPorts) :=
  ⟨Pools.open_opened _ _, fun _ => trivial⟩

theorem ready_run {moves : List (ReadMove ρ)} {os : List (Option (ReadEvent ρ))}
    (h : (replicaReads ρ replicaPorts).run (Cluster.init ρ replicaPorts) moves = some (os, s)) :
    (∀ o ∈ os, Answers replicaPorts.length o) ∧ Ready replicaPorts.length s :=
  Machine.run_outputs (M := replicaReads ρ replicaPorts) (P := Ready replicaPorts.length)
    (fun hP hs => (ready_step rfl hP hs).symm) (ready_init replicaPorts) h

/-- The move resumes the request. -/
def ReadMove.resumes (id : ρ) : ReadMove ρ → Bool
  | .resume id' _ => id' = id
  | _ => false

/-- A step of something else leaves a request where it is; its own brings it nearer to its end, or ends it. -/
theorem rank_step (hports : replicaPorts.length = n) (h : Ready n s) (hpos : 0 < (s.reads id).rank n)
    (hs : (replicaReads ρ replicaPorts).step s a = some (o, t)) :
    (0 < (t.reads id).rank n ∧ (t.reads id).rank n + (if a.resumes id then 1 else 0) ≤ (s.reads id).rank n) ∨
      ∃ x, o = some x ∧ x.ends id := by
  cases a with
  | tick _ | replicate _ _ =>
    cases hs
    exact Or.inl ⟨hpos, le_refl _⟩
  | get id' key =>
    simp only [replicaReads] at hs
    split at hs
    · next hidle =>
      have hne : id ≠ id' := by
        rintro rfl
        rw [hidle] at hpos
        exact absurd hpos (Nat.lt_irrefl 0)
      have ht : t.reads id = s.reads id := by
        have he := Option.some.inj hs
        cases hn : (getReplicaPool s.pools).1 with
        | suspend p | done pool | raise e =>
          rw [hn] at he
          cases he
          exact reads_goto_of_ne hne _ _
      rw [ht]
      exact Or.inl ⟨hpos, le_refl _⟩
    · cases hs
  | resume id' reachable =>
    simp only [replicaReads] at hs
    split at hs
    · cases hs
    · have hres := resumed hports h hs
      by_cases hid : id' = id
      · subst hid
        rcases hres.rank hpos with ⟨hpos', hlt⟩ | hends
        · refine Or.inl ⟨hpos', ?_⟩
          simp only [ReadMove.resumes, decide_true, if_true]
          omega
        · exact Or.inr hends
      · rw [hres.frame id (Ne.symm hid)]
        simp only [ReadMove.resumes, hid, decide_false]
        exact Or.inl ⟨hpos, le_refl _⟩

/-- A suspended request can always be resumed. -/
theorem exists_resume (hid : s.reads id ≠ .idle) :
    ∃ r, (replicaReads ρ replicaPorts).step s (.resume id true) = some r := by
  simp only [replicaReads]
  rw [if_neg (fun hr => absurd hr.1 (by decide))]
  unfold Cluster.resume
  cases hr : s.reads id with
  | idle => exact absurd hr hid
  | probing _ _ | acquire _ _ | fetchrow _ _ _ | release _ _ _ | unwinding _ => exact ⟨_, rfl⟩

/-- A request that is resumed often enough ends. -/
theorem ends_run (hports : replicaPorts.length = n) {moves : List (ReadMove ρ)} :
    ∀ {s : Cluster ρ} {os : List (Option (ReadEvent ρ))}, Ready n s → 0 < (s.reads id).rank n →
      (s.reads id).rank n ≤ moves.countP (·.resumes id) →
      (replicaReads ρ replicaPorts).run s moves = some (os, t) → ∃ x, some x ∈ os ∧ x.ends id := by
  induction moves with
  | nil =>
    intro s os _ hpos hle _
    rw [List.countP_nil] at hle
    omega
  | cons a moves ih =>
    intro s os h hpos hle hrun
    obtain ⟨o, os', m, hs, hr, rfl⟩ := (Machine.run_cons_iff _).mp hrun
    rcases rank_step hports h hpos hs with ⟨hpos', hle'⟩ | ⟨x, rfl, hx⟩
    · rw [List.countP_cons] at hle
      obtain ⟨x, hmem, hx⟩ := ih (ready_step hports h hs).1 hpos' (by omega) hr
      exact ⟨x, List.mem_cons_of_mem _ hmem, hx⟩
    · exact ⟨x, List.mem_cons_self, hx⟩

end Steps

/-- **When replica errors do not surface.** No connection error leaves a default read exactly in the runs in which a GET
finds the replica it was given reachable at each of its own awaits. In every run the answers are rows of the key or 404s
from nodes of the cluster, nothing else is raised, a suspended GET can go on when its await is over, and a GET ends
after at most `3 * n + 3` awaits. -/
theorem replica_read_iff (replicaPorts : List Nat) (moves : List (ReadMove ρ)) (os : List (Option (ReadEvent ρ)))
    (s : Cluster ρ) (h : (replicaReads ρ replicaPorts).run (Cluster.init ρ replicaPorts) moves = some (os, s)) :
    ((∀ o ∈ os, NoFailure o) ↔ (replicaReads ρ replicaPorts).Along Staying (Cluster.init ρ replicaPorts) moves) ∧
    (∀ o ∈ os, Answers replicaPorts.length o) ∧
    (∀ id, s.reads id ≠ .idle → ∃ r, (replicaReads ρ replicaPorts).step s (.resume id true) = some r) ∧
    ∀ id key o s₁ moves' os' s₂, (replicaReads ρ replicaPorts).step s (.get id key) = some (o, s₁) →
      (replicaReads ρ replicaPorts).run s₁ moves' = some (os', s₂) →
      3 * replicaPorts.length + 3 ≤ moves'.countP (·.resumes id) → ∃ x, some x ∈ os' ∧ x.ends id := by
  obtain ⟨hans, hready⟩ := ready_run h
  refine ⟨Machine.run_along_iff (G := NoFailure) noFailure_iff_staying h, hans, fun _ hid => exists_resume hid, ?_⟩
  intro id key o s₁ moves' os' s₂ hget hrun hcount
  obtain ⟨hready₁, -, hpos, hle⟩ := ready_get hready hget
  exact ends_run rfl hready₁ hpos (hle.trans hcount) hrun

/-- A GET passes over a replica that is down, and reads from the next one. -/
theorem replica_read_iff_example :
    ∃ s, (replicaReads Nat [5433, 5434]).run (Cluster.init Nat [5433, 5434]) [.get 0 "k", .resume 0 false,
        .resume 0 true, .resume 0 true, .resume 0 true, .resume 0 true, .resume 0 true, .resume 0 true] =
      some ([none, none, none, none, none, none, none, some (.answered 0 "k" (.replica 1) keyNotFound)], s) ∧
      ∀ o ∈ ([none, none, none, none, none, none, none, some (.answered 0 "k" (.replica 1) keyNotFound)] :
        List (Option (ReadEvent Nat))), NoFailure o := by
  obtain ⟨s, h⟩ := Machine.exists_run (replicaReads Nat [5433, 5434]) (s := Cluster.init Nat [5433, 5434])
    (show ((replicaReads Nat [5433, 5434]).run (Cluster.init Nat [5433, 5434]) [.get 0 "k", .resume 0 false,
      .resume 0 true, .resume 0 true, .resume 0 true, .resume 0 true, .resume 0 true, .resume 0 true]).map Prod.fst =
      some [none, none, none, none, none, none, none, some (.answered 0 "k" (.replica 1) keyNotFound)] by
      decide +kernel)
  exact ⟨s, h, (replica_read_iff _ _ _ s h).1.mpr (by decide +kernel)⟩

/-- The one replica passes its health check and goes down before the GET has a connection of its own. -/
theorem replica_error_surfaces : ¬∀ (replicaPorts : List Nat) (moves : List (ReadMove Nat))
    (os : List (Option (ReadEvent Nat))) (s : Cluster Nat),
    (replicaReads Nat replicaPorts).run (Cluster.init Nat replicaPorts) moves = some (os, s) →
      ∀ o ∈ os, NoFailure o := by
  intro hall
  obtain ⟨s, h⟩ := Machine.exists_run (replicaReads Nat [5433]) (s := Cluster.init Nat [5433])
    (show ((replicaReads Nat [5433]).run (Cluster.init Nat [5433]) [.get 0 "k", .resume 0 true, .resume 0 true,
      .resume 0 true, .resume 0 false]).map Prod.fst = some [none, none, none, none, some (.failed 0 (.replica 0))] by
      decide +kernel)
  exact hall _ _ _ s h (some (.failed 0 (.replica 0))) (by decide) 0 (.replica 0) rfl

end TheGrind.KvStore
