import TheGrind.Transition.Machine
import TheGrind.KvStore.Pools

/-!
# Startups and shutdowns

`init_pools` and `close_pools` change the module state between awaits, each of which may raise, and what they did until
then stays done. Runs of `lifespan` follow each other in one process; which of its awaits raise is up to the run.

* `initPools`, `closePools`, `lifespan` : the functions, on the pools that exist and the module state;
* `Startup` : a call of `init_pools`, and `Startup.Good` what it should have left behind;
* `good_iff_clean`, `good_iff_dirty` : the good startups from a process without and with replica pools of earlier runs;
* `startups_good_iff` : in which sequences of runs every startup is good.
-/

namespace TheGrind.KvStore
open TheGrind.Transition

/-- A pool that `create_pool` has returned, the `id`-th in the process. -/
structure PgPool where
  id : Nat
  port : Nat
  deriving DecidableEq, Repr

/-- How a `pool.close` ends; where it raises, the pool may have been terminated or not. -/
inductive Closing where
  | closed
  | raised (terminated : Bool)
  deriving DecidableEq, Repr

/-- One run of `lifespan`: which calls of `create_pool` return (that for the primary first), how many requests ask for a
replica while the app runs, and how each `pool.close` ends. -/
structure Lifespan where
  creates : Nat → Bool
  requests : Nat
  closes : Nat → Closing

/-- The module state, the pools that are open, and how many there have been. -/
structure Process where
  pools : Pools PgPool
  opened : List PgPool
  created : Nat

namespace Process

/-- The module is loaded. -/
def init : Process := ⟨⟨none, [], none⟩, [], 0⟩

def createPool (p : Process) (port : Nat) (returns : Bool) : Option (PgPool × Process) :=
  if returns then
    let pool := ⟨p.created, port⟩
    some (pool, { p with opened := p.opened ++ [pool], created := p.created + 1 })
  else none

def closePool (p : Process) (pool : PgPool) : Closing → Bool × Process
  | .closed => (true, { p with opened := p.opened.erase pool })
  | .raised true => (false, { p with opened := p.opened.erase pool })
  | .raised false => (false, p)

end Process

def primaryPort : Nat := 5432

/-- The loop of `init_pools`, from the `i`-th call of `create_pool` on. -/
def initReplicas (creates : Nat → Bool) (i : Nat) : List Nat → Process → Bool × Process
  | [], p => (true, p)
  | port :: ports, p =>
    match p.createPool port (creates i) with
    | none => (false, p)
    | some (pool, q) =>
      initReplicas creates (i + 1) ports { q with pools := { q.pools with replicas := q.pools.replicas ++ [pool] } }

/-- `init_pools`, with whether it returns. -/
def initPools (replicaPorts : List Nat) (creates : Nat → Bool) (p : Process) : Bool × Process :=
  match p.createPool primaryPort (creates 0) with
  | none => (false, p)
  | some (pool, q) =>
    match initReplicas creates 1 replicaPorts { q with pools := { q.pools with primary := some pool } } with
    | (false, r) => (false, r)
    | (true, r) => (true, { r with pools := { r.pools with rr := some (.range r.pools.replicas.length) } })

/-- The loop of `close_pools`, from the `i`-th call of `pool.close` on. -/
def closeReplicas (closes : Nat → Closing) (i : Nat) : List PgPool → Process → Bool × Process
  | [], p => (true, p)
  | pool :: pools, p =>
    match p.closePool pool (closes i) with
    | (false, q) => (false, q)
    | (true, q) => closeReplicas closes (i + 1) pools q

/-- The end of `close_pools`, after the primary. -/
def closeRest (closes : Nat → Closing) (p : Process) : Bool × Process :=
  match closeReplicas closes 1 p.pools.replicas p with
  | (false, q) => (false, q)
  | (true, q) => (true, { q with pools := { q.pools with replicas := [], rr := none } })

/-- `close_pools`, with whether it returns. -/
def closePools (closes : Nat → Closing) (p : Process) : Bool × Process :=
  match p.pools.primary with
  | none => closeRest closes p
  | some pool =>
    match p.closePool pool (closes 0) with
    | (false, q) => (false, q)
    | (true, q) => closeRest closes { q with pools := { q.pools with primary := none } }

/-- The requests for a replica while the app runs. -/
def serve (p : Process) : Nat → Process
  | 0 => p
  | n + 1 => serve { p with pools := (getReplicaPool p.pools).2 } n

/-- A call of `init_pools`. -/
structure Startup where
  before : Process
  returned : Bool
  after : Process

/-- `lifespan`: `close_pools` is called if `init_pools` has returned. -/
def lifespan (replicaPorts : List Nat) (e : Lifespan) (p : Process) : Startup × Process :=
  let r := initPools replicaPorts e.creates p
  (⟨p, r.1, r.2⟩, if r.1 then (closePools e.closes (serve r.2 e.requests)).2 else r.2)

/-- The runs of `lifespan` in one process. -/
def lifespans (replicaPorts : List Nat) : Machine Process Lifespan Startup where
  step p e := some (lifespan replicaPorts e p)

/-- When `init_pools` has returned, there is one pool for each port, in this order, the round-robin is over all of them,
and none of them is older than the call; when it has raised, no pool is open that it opened, and the module state is
what it was. -/
def Startup.Good (replicaPorts : List Nat) (x : Startup) : Prop :=
  if x.returned then
    x.after.pools.replicas.map PgPool.port = replicaPorts ∧
      x.after.pools.rr = some (.range x.after.pools.replicas.length) ∧
      ∀ pool ∈ x.after.pools.replicas, x.before.created ≤ pool.id
  else (∀ pool ∈ x.after.opened, pool.id < x.before.created) ∧ x.after.pools = x.before.pools

/-- Every call of `create_pool` for `n` replicas returns. -/
def Lifespan.Starts (n : Nat) (e : Lifespan) : Prop := ∀ i ≤ n, e.creates i = true

/-- Every `pool.close` of `n` replicas returns. -/
def Lifespan.Stops (n : Nat) (e : Lifespan) : Prop := ∀ i ≤ n, e.closes i = .closed

/-- No `create_pool` raises for a replica, and no run starts after one that did not stop. -/
def Spared (n : Nat) (es : List Lifespan) : Prop :=
  (∀ e ∈ es, e.creates 0 = true → e.Starts n) ∧ es.Pairwise fun e e' => e.Starts n → e'.Starts n → e.Stops n

/-! ## init_pools -/

variable {replicaPorts : List Nat} {creates : Nat → Bool} {closes : Nat → Closing} {e : Lifespan} {p : Process}

/-- Every open pool has been created. -/
def Process.Fresh (p : Process) : Prop := ∀ pool ∈ p.opened, pool.id < p.created

theorem initReplicas_starts : ∀ {ports : List Nat} {i : Nat} {p : Process},
    (∀ j < ports.length, creates (i + j) = true) →
    ∃ new : List PgPool, new.map PgPool.port = ports ∧
      (∀ pool ∈ new, p.created ≤ pool.id ∧ pool.id < p.created + ports.length) ∧
      initReplicas creates i ports p =
        (true, ⟨⟨p.pools.primary, p.pools.replicas ++ new, p.pools.rr⟩, p.opened ++ new,
          p.created + ports.length⟩) := by
  intro ports
  induction ports with
  | nil =>
    intro i p _
    exact ⟨[], rfl, by simp, by simp [initReplicas]⟩
  | cons port ports ih =>
    intro i p h
    have hi : creates i = true := h 0 (Nat.succ_pos _)
    have hrest : ∀ j < ports.length, creates (i + 1 + j) = true := fun j hj => by
      rw [Nat.add_assoc, Nat.add_comm 1]
      exact h (j + 1) (Nat.succ_lt_succ hj)
    obtain ⟨new, hports, hnew, heq⟩ := ih (p := ⟨⟨p.pools.primary, p.pools.replicas ++ [⟨p.created, port⟩], p.pools.rr⟩,
      p.opened ++ [⟨p.created, port⟩], p.created + 1⟩) hrest
    refine ⟨⟨p.created, port⟩ :: new, by rw [List.map_cons, hports], ?_, ?_⟩
    · intro pool hpool
      rw [List.length_cons]
      rcases List.mem_cons.mp hpool with rfl | hpool
      · show p.created ≤ p.created ∧ p.created < _
        omega
      · have hid : p.created + 1 ≤ pool.id ∧ pool.id < p.created + 1 + ports.length := hnew pool hpool
        omega
    · unfold initReplicas Process.createPool
      rw [if_pos hi]
      refine heq.trans ?_
      simp only [List.append_assoc, List.singleton_append, List.length_cons]
      congr 2
      omega

theorem initReplicas_fails : ∀ {ports : List Nat} {i : Nat} {p : Process},
    (∃ j < ports.length, creates (i + j) = false) →
    (initReplicas creates i ports p).1 = false ∧ p.opened ⊆ (initReplicas creates i ports p).2.opened := by
  intro ports
  induction ports with
  | nil =>
    rintro i p ⟨j, hj, -⟩
    exact absurd hj (Nat.not_lt_zero j)
  | cons port ports ih =>
    rintro i p ⟨j, hj, hfalse⟩
    unfold initReplicas Process.createPool
    cases hi : creates i with
    | false => exact ⟨rfl, List.Subset.refl _⟩
    | true =>
      simp only [if_true]
      have hrest : ∃ j < ports.length, creates (i + 1 + j) = false := by
        cases j with
        | zero => exact absurd (hi.symm.trans hfalse) (by decide)
        | succ j => exact ⟨j, Nat.lt_of_succ_lt_succ hj, by rwa [Nat.add_assoc, Nat.add_comm 1]⟩
      obtain ⟨hret, hsub⟩ := ih hrest
      exact ⟨hret, List.Subset.trans (List.subset_append_left _ _) hsub⟩

/-- A startup that every `create_pool` lets through. -/
theorem initPools_starts (h : e.Starts replicaPorts.length) (p : Process) :
    ∃ new : List PgPool, new.map PgPool.port = replicaPorts ∧
      (∀ pool ∈ new, p.created ≤ pool.id ∧ pool.id < p.created + 1 + replicaPorts.length) ∧
      initPools replicaPorts e.creates p =
        (true, ⟨⟨some ⟨p.created, primaryPort⟩, p.pools.replicas ++ new,
            some (.range (p.pools.replicas ++ new).length)⟩,
          p.opened ++ [⟨p.created, primaryPort⟩] ++ new, p.created + 1 + replicaPorts.length⟩) := by
  have hrest : ∀ j < replicaPorts.length, e.creates (1 + j) = true := fun j hj => h _ (by omega)
  obtain ⟨new, hports, hnew, heq⟩ := initReplicas_starts (p := ⟨⟨some ⟨p.created, primaryPort⟩, p.pools.replicas,
    p.pools.rr⟩, p.opened ++ [⟨p.created, primaryPort⟩], p.created + 1⟩) hrest
  refine ⟨new, hports, fun pool hpool => ?_, ?_⟩
  · have hid : p.created + 1 ≤ pool.id ∧ pool.id < p.created + 1 + replicaPorts.length := hnew pool hpool
    omega
  · unfold initPools Process.createPool
    rw [if_pos (h 0 (Nat.zero_le _))]
    simp only [heq]

/-- A startup that fails at the primary has done nothing. -/
theorem initPools_primary_fails (h : creates 0 = false) (p : Process) :
    initPools replicaPorts creates p = (false, p) := by
  unfold initPools Process.createPool
  rw [if_neg (by rw [h]; decide)]

/-- A startup that fails at a replica leaves the primary pool open. -/
theorem initPools_replica_fails (h : e.creates 0 = true) (hfails : ¬e.Starts replicaPorts.length) (p : Process) :
    (initPools replicaPorts e.creates p).1 = false ∧
      (⟨p.created, primaryPort⟩ : PgPool) ∈ (initPools replicaPorts e.creates p).2.opened := by
  have hrest : ∃ j < replicaPorts.length, e.creates (1 + j) = false := by
    unfold Lifespan.Starts at hfails
    push Not at hfails
    obtain ⟨i, hi, hfalse⟩ := hfails
    cases i with
    | zero => exact absurd h hfalse
    | succ i => exact ⟨i, hi, by rw [Nat.add_comm]; simpa using hfalse⟩
  obtain ⟨hret, hsub⟩ := initReplicas_fails (p := ⟨⟨some ⟨p.created, primaryPort⟩, p.pools.replicas, p.pools.rr⟩,
    p.opened ++ [⟨p.created, primaryPort⟩], p.created + 1⟩) hrest
  unfold initPools Process.createPool
  rw [if_pos h]
  simp only
  split
  · next heq =>
    rw [heq] at hsub
    exact ⟨rfl, hsub (by simp)⟩
  · next heq =>
    rw [heq] at hret
    cases hret

/-! ## close_pools -/

theorem closePool_closed (p : Process) (pool : PgPool) :
    p.closePool pool .closed = (true, { p with opened := p.opened.erase pool }) := rfl

theorem closePool_raised {c : Closing} (h : c ≠ .closed) (p : Process) (pool : PgPool) :
    ∃ opened, p.closePool pool c = (false, { p with opened := opened }) ∧ opened ⊆ p.opened := by
  cases c with
  | closed => exact absurd rfl h
  | raised terminated =>
    cases terminated with
    | true => exact ⟨p.opened.erase pool, rfl, List.erase_subset⟩
    | false => exact ⟨p.opened, rfl, List.Subset.refl _⟩

/-- Whether the loop returns, it changes nothing but the pools that are open. -/
theorem closeReplicas_eq (closes : Nat → Closing) : ∀ (pools : List PgPool) (i : Nat) (p : Process),
    ∃ opened, closeReplicas closes i pools p =
      (decide (∀ j < pools.length, closes (i + j) = .closed), { p with opened := opened }) ∧ opened ⊆ p.opened := by
  intro pools
  induction pools with
  | nil =>
    intro i p
    exact ⟨p.opened, by simp [closeReplicas], List.Subset.refl _⟩
  | cons pool pools ih =>
    intro i p
    unfold closeReplicas
    by_cases hi : closes i = .closed
    · obtain ⟨opened, heq, hsub⟩ := ih (i + 1) { p with opened := p.opened.erase pool }
      refine ⟨opened, ?_, List.Subset.trans hsub List.erase_subset⟩
      rw [hi, closePool_closed]
      simp only [heq, Prod.mk.injEq, and_true, decide_eq_decide, List.length_cons]
      constructor
      · intro h j hj
        cases j with
        | zero => exact hi
        | succ j =>
          have hj' := h j (Nat.lt_of_succ_lt_succ hj)
          rwa [Nat.add_assoc, Nat.add_comm 1] at hj'
      · intro h j hj
        rw [Nat.add_assoc, Nat.add_comm 1]
        exact h (j + 1) (Nat.succ_lt_succ hj)
    · obtain ⟨opened, heq, hsub⟩ := closePool_raised hi p pool
      refine ⟨opened, ?_, hsub⟩
      rw [heq]
      have hnot : ¬∀ j < (pool :: pools).length, closes (i + j) = .closed := fun h => hi (h 0 (Nat.succ_pos _))
      simp only [hnot, decide_false]

/-- A shutdown in which every `pool.close` returns clears the module state. -/
theorem closePools_stops {pool : PgPool} (hprimary : p.pools.primary = some pool)
    (h : e.Stops p.pools.replicas.length) :
    ∃ opened ⊆ p.opened, closePools e.closes p = (true, ⟨⟨none, [], none⟩, opened, p.created⟩) := by
  have hall : ∀ j < p.pools.replicas.length, e.closes (1 + j) = .closed := fun j hj => h _ (by omega)
  obtain ⟨opened, heq, hsub⟩ := closeReplicas_eq e.closes p.pools.replicas 1
    ⟨⟨none, p.pools.replicas, p.pools.rr⟩, p.opened.erase pool, p.created⟩
  rw [decide_eq_true hall] at heq
  refine ⟨opened, List.Subset.trans hsub List.erase_subset, ?_⟩
  unfold closePools
  simp only [hprimary, h 0 (Nat.zero_le _), closePool_closed, closeRest, heq]

/-- A shutdown in which a `pool.close` raises leaves the replica pools where they are. -/
theorem closePools_fails {pool : PgPool} (hprimary : p.pools.primary = some pool)
    (h : ¬e.Stops p.pools.replicas.length) :
    ∃ (primary : Option PgPool) (opened : List PgPool), opened ⊆ p.opened ∧
      closePools e.closes p = (false, ⟨⟨primary, p.pools.replicas, p.pools.rr⟩, opened, p.created⟩) := by
  by_cases h₀ : e.closes 0 = .closed
  · have hnot : ¬∀ j < p.pools.replicas.length, e.closes (1 + j) = .closed := by
      refine fun hall => h fun i hi => ?_
      cases i with
      | zero => exact h₀
      | succ i =>
        rw [Nat.add_comm]
        exact hall i hi
    obtain ⟨opened, heq, hsub⟩ := closeReplicas_eq e.closes p.pools.replicas 1
      ⟨⟨none, p.pools.replicas, p.pools.rr⟩, p.opened.erase pool, p.created⟩
    rw [decide_eq_false hnot] at heq
    refine ⟨none, opened, List.Subset.trans hsub List.erase_subset, ?_⟩
    unfold closePools
    simp only [hprimary, h₀, closePool_closed, closeRest, heq]
  · obtain ⟨opened, heq, hsub⟩ := closePool_raised h₀ p pool
    refine ⟨some pool, opened, hsub, ?_⟩
    unfold closePools
    simp only [hprimary, heq]
    rw [← hprimary]

/-- Requests only move the round-robin. -/
theorem serve_eq (n : Nat) : ∀ p : Process, ∃ rr, serve p n = { p with pools := { p.pools with rr := rr } } := by
  induction n with
  | zero => exact fun p => ⟨p.pools.rr, rfl⟩
  | succ n ih =>
    intro p
    have hget : ∃ rr, (getReplicaPool p.pools).2 = { p.pools with rr := rr } := by
      unfold getReplicaPool
      split
      · exact ⟨p.pools.rr, rfl⟩
      · split
        · exact ⟨p.pools.rr, rfl⟩
        · split
          · exact ⟨p.pools.rr, rfl⟩
          · exact ⟨_, rfl⟩
    obtain ⟨rr, hrr⟩ := hget
    obtain ⟨rr', hrr'⟩ := ih { p with pools := { p.pools with rr := rr } }
    refine ⟨rr', ?_⟩
    unfold serve
    rw [hrr, hrr']

/-! ## Runs of lifespan -/

/-- A run whose `create_pool` for the primary raises has a good startup and leaves nothing behind. -/
theorem lifespan_primary_fails (replicaPorts : List Nat) (h : e.creates 0 = false) (hfresh : p.Fresh) :
    (lifespan replicaPorts e p).1.Good replicaPorts ∧ (lifespan replicaPorts e p).2 = p := by
  unfold lifespan Startup.Good
  rw [initPools_primary_fails h]
  exact ⟨⟨hfresh, rfl⟩, rfl⟩

/-- A run whose `create_pool` for a replica raises does not undo the startup. -/
theorem lifespan_replica_fails (h : e.creates 0 = true) (hfails : ¬e.Starts replicaPorts.length) :
    ¬(lifespan replicaPorts e p).1.Good replicaPorts := by
  obtain ⟨hret, hmem⟩ := initPools_replica_fails h hfails p
  unfold lifespan Startup.Good
  simp only [hret, Bool.false_eq_true, if_false]
  exact fun hgood => Nat.lt_irrefl _ (hgood.1 _ hmem)

/-- A run that starts has a good startup if there were no replica pools before. -/
theorem lifespan_starts_iff (h : e.Starts replicaPorts.length) :
    (lifespan replicaPorts e p).1.Good replicaPorts ↔ p.pools.replicas = [] := by
  obtain ⟨new, hports, hnew, heq⟩ := initPools_starts h p
  unfold lifespan Startup.Good
  simp only [heq, if_true]
  constructor
  · rintro ⟨hmap, -, -⟩
    rw [List.map_append, hports] at hmap
    exact List.map_eq_nil_iff.mp (List.append_left_eq_self.mp hmap)
  · intro hnil
    rw [hnil, List.nil_append]
    exact ⟨hports, trivial, fun pool hpool => (hnew pool hpool).1⟩

/-- What a run leaves behind that starts without replica pools of earlier runs. -/
theorem lifespan_starts_after (h : e.Starts replicaPorts.length) (hnil : p.pools.replicas = []) (hfresh : p.Fresh) :
    (lifespan replicaPorts e p).2.Fresh ∧
      (e.Stops replicaPorts.length → (lifespan replicaPorts e p).2.pools.replicas = []) ∧
      (¬e.Stops replicaPorts.length →
        (lifespan replicaPorts e p).2.pools.replicas.length = replicaPorts.length) := by
  obtain ⟨new, hports, hnew, heq⟩ := initPools_starts h p
  rw [hnil, List.nil_append] at heq
  have hlen : new.length = replicaPorts.length := by rw [← hports, List.length_map]
  let opened := p.opened ++ [⟨p.created, primaryPort⟩] ++ new
  have hopened : ∀ pool ∈ opened, pool.id < p.created + 1 + replicaPorts.length := by
    intro pool hmem
    rcases List.mem_append.mp hmem with hmem | hmem
    · rcases List.mem_append.mp hmem with hold | hprimary
      · have hlt := hfresh pool hold
        omega
      · rw [List.mem_singleton.mp hprimary]
        show p.created < _
        omega
    · exact (hnew pool hmem).2
  obtain ⟨rr, hserve⟩ := serve_eq e.requests ⟨⟨some ⟨p.created, primaryPort⟩, new, some (.range new.length)⟩,
    opened, p.created + 1 + replicaPorts.length⟩
  have hafter : (lifespan replicaPorts e p).2 = (closePools e.closes
      ⟨⟨some ⟨p.created, primaryPort⟩, new, rr⟩, opened, p.created + 1 + replicaPorts.length⟩).2 := by
    unfold lifespan
    rw [heq]
    simp only [if_true]
    rw [hserve]
  rw [hafter]
  by_cases hstops : e.Stops replicaPorts.length
  · obtain ⟨opened', hsub, hclose⟩ := closePools_stops (e := e)
      (p := ⟨⟨some ⟨p.created, primaryPort⟩, new, rr⟩, opened, p.created + 1 + replicaPorts.length⟩) rfl
      (hlen ▸ hstops)
    rw [hclose]
    exact ⟨fun pool hpool => hopened pool (hsub hpool), fun _ => rfl, fun hnot => absurd hstops hnot⟩
  · obtain ⟨primary, opened', hsub, hclose⟩ := closePools_fails (e := e)
      (p := ⟨⟨some ⟨p.created, primaryPort⟩, new, rr⟩, opened, p.created + 1 + replicaPorts.length⟩) rfl
      (hlen ▸ hstops)
    rw [hclose]
    exact ⟨fun pool hpool => hopened pool (hsub hpool), fun h => absurd h hstops, fun _ => hlen⟩

section Runs
variable {es : List Lifespan} {xs : List Startup} {q : Process}

theorem lifespans_cons (h : (lifespans replicaPorts).run p (e :: es) = some (xs, q)) :
    ∃ xs', (lifespans replicaPorts).run (lifespan replicaPorts e p).2 es = some (xs', q) ∧
      xs = (lifespan replicaPorts e p).1 :: xs' := by
  obtain ⟨x, xs', m, hs, hr, rfl⟩ := (Machine.run_cons_iff _).mp h
  obtain ⟨rfl, rfl⟩ := Prod.mk.inj (Option.some.inj hs)
  exact ⟨xs', hr, rfl⟩

theorem spared_cons {n : Nat} : Spared n (e :: es) ↔
    (e.creates 0 = true → e.Starts n) ∧ (∀ e' ∈ es, e.Starts n → e'.Starts n → e.Stops n) ∧ Spared n es := by
  unfold Spared
  rw [List.forall_mem_cons, List.pairwise_cons]
  tauto

/-- With replica pools of an earlier run, startups are good as long as none gets past the primary. -/
theorem good_iff_dirty (hdirty : p.pools.replicas ≠ []) (hfresh : p.Fresh) : ∀ {xs : List Startup},
    (lifespans replicaPorts).run p es = some (xs, q) →
    ((∀ x ∈ xs, x.Good replicaPorts) ↔ ∀ e ∈ es, e.creates 0 = false) := by
  induction es with
  | nil =>
    intro xs h
    cases h
    simp
  | cons e es ih =>
    intro xs h
    obtain ⟨xs', hr, rfl⟩ := lifespans_cons h
    rw [List.forall_mem_cons, List.forall_mem_cons]
    cases h₀ : e.creates 0 with
    | false =>
      obtain ⟨hgood, hp⟩ := lifespan_primary_fails replicaPorts h₀ hfresh
      rw [hp] at hr
      rw [ih hr]
      simp [hgood]
    | true =>
      have hbad : ¬(lifespan replicaPorts e p).1.Good replicaPorts := by
        by_cases hstarts : e.Starts replicaPorts.length
        · rw [lifespan_starts_iff hstarts]
          exact hdirty
        · exact lifespan_replica_fails h₀ hstarts
      simp [hbad]

/-- Runs none of which gets past the primary are spared. -/
theorem spared_after_unstopped {n : Nat} (hstarts : e.Starts n) (hstops : ¬e.Stops n) :
    Spared n (e :: es) ↔ ∀ e' ∈ es, e'.creates 0 = false := by
  rw [spared_cons]
  constructor
  · rintro ⟨-, hafter, hes⟩ e' he'
    by_contra htrue
    have hstarts' : e'.Starts n := hes.1 e' he' (by simpa using htrue)
    exact hstops (hafter e' he' hstarts hstarts')
  · intro hall
    have hnot : ∀ e' ∈ es, ¬e'.Starts n := fun e' he' h =>
      Bool.false_ne_true ((hall e' he').symm.trans (h 0 (Nat.zero_le _)))
    refine ⟨fun _ => hstarts, fun e' he' _ h => absurd h (hnot e' he'), fun e' he' h => ?_, ?_⟩
    · exact absurd ((hall e' he').symm.trans h) Bool.false_ne_true
    · exact List.pairwise_of_forall_mem_list fun e' he' _ _ h => absurd h (hnot e' he')

theorem good_iff_clean (hn : replicaPorts ≠ []) : ∀ {p : Process} {xs : List Startup}, p.pools.replicas = [] →
    p.Fresh → (lifespans replicaPorts).run p es = some (xs, q) →
    ((∀ x ∈ xs, x.Good replicaPorts) ↔ Spared replicaPorts.length es) := by
  induction es with
  | nil =>
    intro p xs _ _ h
    cases h
    simp [Spared]
  | cons e es ih =>
    intro p xs hnil hfresh h
    obtain ⟨xs', hr, rfl⟩ := lifespans_cons h
    rw [List.forall_mem_cons]
    cases h₀ : e.creates 0 with
    | false =>
      obtain ⟨hgood, hp⟩ := lifespan_primary_fails replicaPorts h₀ hfresh
      have hnot : ¬e.Starts replicaPorts.length := fun hs =>
        Bool.false_ne_true (h₀.symm.trans (hs 0 (Nat.zero_le _)))
      rw [hp] at hr
      rw [ih hnil hfresh hr, spared_cons]
      simp [hgood, hnot, h₀]
    | true =>
      by_cases hstarts : e.Starts replicaPorts.length
      · have hgood : (lifespan replicaPorts e p).1.Good replicaPorts := (lifespan_starts_iff hstarts).mpr hnil
        obtain ⟨hfresh', hclean, hdirty⟩ := lifespan_starts_after hstarts hnil hfresh
        by_cases hstops : e.Stops replicaPorts.length
        · rw [ih (hclean hstops) hfresh' hr, spared_cons]
          simp [hgood, hstarts, hstops]
        · have hne : (lifespan replicaPorts e p).2.pools.replicas ≠ [] := by
            rw [← List.length_pos_iff, hdirty hstops, List.length_pos_iff]
            exact hn
          rw [good_iff_dirty hne hfresh' hr, spared_after_unstopped hstarts hstops]
          simp [hgood]
      · have hbad : ¬(lifespan replicaPorts e p).1.Good replicaPorts := lifespan_replica_fails h₀ hstarts
        rw [spared_cons]
        simp [hbad, h₀, hstarts]

/-- Without replicas every startup is good. -/
theorem good_of_no_replicas : ∀ {p : Process} {xs : List Startup}, p.pools.replicas = [] → p.Fresh →
    (lifespans []).run p es = some (xs, q) → ∀ x ∈ xs, x.Good [] := by
  induction es with
  | nil =>
    intro p xs _ _ h
    cases h
    simp
  | cons e es ih =>
    intro p xs hnil hfresh h
    obtain ⟨xs', hr, rfl⟩ := lifespans_cons h
    rw [List.forall_mem_cons]
    cases h₀ : e.creates 0 with
    | false =>
      obtain ⟨hgood, hp⟩ := lifespan_primary_fails [] h₀ hfresh
      rw [hp] at hr
      exact ⟨hgood, ih hnil hfresh hr⟩
    | true =>
      have hstarts : e.Starts ([] : List Nat).length := fun i hi => by rwa [Nat.le_zero.mp hi]
      obtain ⟨hfresh', hclean, hdirty⟩ := lifespan_starts_after hstarts hnil hfresh
      refine ⟨(lifespan_starts_iff hstarts).mpr hnil, ih ?_ hfresh' hr⟩
      by_cases hstops : e.Stops ([] : List Nat).length
      · exact hclean hstops
      · exact List.length_eq_zero_iff.mp (hdirty hstops)

end Runs

/-- **When startups are good.** In a process, every `init_pools` leaves what it should exactly when there are no
replicas, or no `create_pool` raises for a replica and no run starts after one in which a `pool.close` has raised. -/
theorem startups_good_iff (replicaPorts : List Nat) (es : List Lifespan) (xs : List Startup) (p : Process)
    (h : (lifespans replicaPorts).run .init es = some (xs, p)) :
    (∀ x ∈ xs, x.Good replicaPorts) ↔ replicaPorts = [] ∨ Spared replicaPorts.length es := by
  have hfresh : Process.init.Fresh := fun _ hpool => absurd hpool List.not_mem_nil
  by_cases hn : replicaPorts = []
  · subst hn
    exact ⟨fun _ => Or.inl rfl, fun _ => good_of_no_replicas rfl hfresh h⟩
  · rw [good_iff_clean hn rfl hfresh h]
    simp [hn]

/-- A run in which the primary cannot be reached, and one that goes well. -/
theorem startups_good_iff_example :
    ∃ xs p, (lifespans [5433, 5434]).run .init
        [⟨fun _ => false, 0, fun _ => .closed⟩, ⟨fun _ => true, 7, fun _ => .closed⟩] = some (xs, p) ∧
      ∀ x ∈ xs, x.Good [5433, 5434] := by
  obtain ⟨xs, p, h⟩ : ∃ xs p, (lifespans [5433, 5434]).run .init
      [⟨fun _ => false, 0, fun _ => .closed⟩, ⟨fun _ => true, 7, fun _ => .closed⟩] = some (xs, p) := ⟨_, _, rfl⟩
  refine ⟨xs, p, h, (startups_good_iff [5433, 5434] _ xs p h).mpr (Or.inr ⟨fun e he h₀ => ?_, ?_⟩)⟩
  · rcases List.mem_cons.mp he with rfl | he
    · cases h₀
    · rw [List.mem_singleton.mp he]
      exact fun _ _ => rfl
  · rw [List.pairwise_pair]
    exact fun _ _ _ _ => rfl

/-- The second replica cannot be reached in the first run, and the second run has two pools for the first. -/
theorem replica_pools_left_over : ¬∀ (replicaPorts : List Nat) (es : List Lifespan) (xs : List Startup) (p : Process),
    (lifespans replicaPorts).run .init es = some (xs, p) → ∀ x ∈ xs, x.Good replicaPorts := by
  intro hall
  have hbad := hall [5433, 5434] [⟨(· < 2), 0, fun _ => .closed⟩, ⟨fun _ => true, 0, fun _ => .closed⟩] _ _ rfl _
    (List.mem_cons_of_mem _ List.mem_cons_self)
  have hports : [5433, 5433, 5434] = [5433, 5434] := hbad.1
  exact absurd hports (by decide)

end TheGrind.KvStore
