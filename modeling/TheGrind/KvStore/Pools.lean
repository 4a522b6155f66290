import Mathlib.Data.List.Basic

/-!
# The connection pools

The module state of the connection pools and its getters. `get_replica_pool` is a coroutine: `getReplicaPool` runs it to
its first `await`, and `Probe.resume` from one `await` to the next, with what became of it. Between two awaits other
coroutines may change the module state, so each part reads it afresh.

* `Cycle` : `itertools.cycle(range(n))`;
* `Probe` : a call that is suspended in its health check of one replica;
* `Next` : what a call does up to its next suspension;
* `Filled`, `Whole`, `Open` : the module state that calls find, with what they do then.
-/

namespace TheGrind.KvStore

/-- `itertools.cycle(range(length))`, with the element that is next. -/
structure Cycle where
  length : Nat
  position : Nat
  position_lt : 0 < length → position < length

def Cycle.range (n : Nat) : Cycle := ⟨n, 0, fun h => h⟩

/-- `next(cycle)`; a cycle over nothing has no next element. -/
def Cycle.next? (c : Cycle) : Option (Nat × Cycle) :=
  if 0 < c.length then
    some (c.position, ⟨c.length, (c.position + 1) % c.length, fun h => Nat.mod_lt _ h⟩)
  else none

/-- `_primary_pool`, `_replica_pools` and `_replica_rr`, over pools `β`. -/
structure Pools (β : Type) where
  primary : Option β
  replicas : List β
  rr : Option Cycle

/-- The module state that `init_pools` leaves. -/
def Pools.opened {β : Type} (primary : β) (replicas : List β) : Pools β :=
  ⟨some primary, replicas, some (.range replicas.length)⟩

inductive PoolError where
  | assertionError (message : String)
  | typeError
  | stopIteration
  | zeroDivisionError
  | indexError
  deriving DecidableEq, Repr

/-- The awaits of a health check; the release of the connection remembers whether `SELECT 1` succeeded. -/
inductive Check where
  | acquire
  | execute
  | release (healthy : Bool)
  deriving DecidableEq, Repr

/-- A `get_replica_pool` that is suspended in round `i` of its loop. -/
structure Probe (β : Type) where
  startIdx : Nat
  bound : Nat
  i : Nat
  idx : Nat
  pool : β
  check : Check

/-- What a `get_replica_pool` does next. -/
inductive Next (β : Type) where
  | suspend (probe : Probe β)
  | done (pool : β)
  | raise (error : PoolError)

section Getters
variable {β : Type}

def getPrimaryPool (pools : Pools β) : Next β :=
  match pools.primary with
  | some pool => .done pool
  | none => .raise (.assertionError "Call init_pools() before using pools")

/-- The loop from round `i` on, up to the first await of a round. -/
def probeLoop (pools : Pools β) (startIdx bound i : Nat) : Next β :=
  if i < bound then
    if pools.replicas.length = 0 then .raise .zeroDivisionError
    else
      let idx := (startIdx + i) % pools.replicas.length
      match pools.replicas[idx]? with
      | some pool => .suspend ⟨startIdx, bound, i, idx, pool, .acquire⟩
      | none => .raise .indexError
  else getPrimaryPool pools

/-- The first part of `get_replica_pool`. -/
def getReplicaPool (pools : Pools β) : Next β × Pools β :=
  if pools.replicas.isEmpty then (getPrimaryPool pools, pools)
  else
    match pools.rr with
    | none => (.raise .typeError, pools)
    | some rr =>
      match rr.next? with
      | none => (.raise .stopIteration, pools)
      | some (startIdx, rr') =>
        let pools' := { pools with rr := some rr' }
        (probeLoop pools' startIdx pools'.replicas.length 0, pools')

/-- The `except` branch: the warning looks the port up, and the loop goes on. -/
def Probe.unavailable (pools : Pools β) (replicaPorts : List Nat) (p : Probe β) : Next β :=
  if p.idx < replicaPorts.length then probeLoop pools p.startIdx p.bound (p.i + 1) else .raise .indexError

/-- A health check goes on when its await is over, `ok` saying whether it raised nothing. -/
def Probe.resume (pools : Pools β) (replicaPorts : List Nat) (p : Probe β) (ok : Bool) : Next β :=
  match p.check, ok with
  | .acquire, true => .suspend { p with check := .execute }
  | .acquire, false => p.unavailable pools replicaPorts
  | .execute, ok => .suspend { p with check := .release ok }
  | .release true, true => .done p.pool
  | .release _, _ => p.unavailable pools replicaPorts

/-- What the end of an await says about the replica, once it ends the health check. -/
def Probe.verdict (p : Probe β) (ok : Bool) : Option Bool :=
  match p.check with
  | .acquire => if ok then none else some false
  | .execute => none
  | .release healthy => some (healthy && ok)

/-- How many awaits a call has before it at most, with the three that its caller goes on to. -/
def Probe.rank (n : Nat) (p : Probe β) : Nat :=
  3 * (n - p.i) + match p.check with
    | .acquire => 3
    | .execute => 2
    | .release _ => 1

/-- A health check goes on to its next await, or ends with the pool or in the `except` branch. -/
theorem Probe.resume_cases (pools : Pools β) (replicaPorts : List Nat) (p : Probe β) (ok : Bool) :
    (∃ check, p.verdict ok = none ∧ p.resume pools replicaPorts ok = .suspend { p with check := check } ∧
        ∀ n, ({ p with check := check } : Probe β).rank n < p.rank n) ∨
      (p.verdict ok = some true ∧ p.resume pools replicaPorts ok = .done p.pool) ∨
      (p.verdict ok = some false ∧ p.resume pools replicaPorts ok = p.unavailable pools replicaPorts) := by
  unfold Probe.resume Probe.verdict Probe.rank
  cases hc : p.check with
  | acquire => cases ok <;> simp
  | execute => cases ok <;> simp
  | release healthy => cases healthy <;> cases ok <;> simp

end Getters

/-! ## Calls that find the replica pools -/

section Filled
variable {β : Type} {rs : List β}

/-- The replica pools are there, wherever the round-robin is. -/
structure Pools.Filled (rs : List β) (pools : Pools β) : Prop where
  replicas : pools.replicas = rs
  rr : ∃ rr, pools.rr = some rr ∧ rr.length = rs.length

/-- A suspended call is in a round of its loop, at the replica of that round. -/
structure Probe.InRound (rs : List β) (p : Probe β) : Prop where
  bound : p.bound = rs.length
  i_lt : p.i < rs.length
  idx : p.idx = (p.startIdx + p.i) % rs.length
  pool : rs[p.idx]? = some p.pool

/-- From round `i` on, a call gets to an await in that round, or past the last round to the primary. -/
theorem probeLoop_filled {pools : Pools β} (h : pools.Filled rs) (startIdx : Nat) {i : Nat} (hi : i ≤ rs.length) :
    (∃ p : Probe β, probeLoop pools startIdx rs.length i = .suspend p ∧ p.InRound rs ∧ p.i = i ∧
      p.startIdx = startIdx ∧ p.check = .acquire) ∨
      (i = rs.length ∧ probeLoop pools startIdx rs.length i = getPrimaryPool pools) := by
  unfold probeLoop
  by_cases hlt : i < rs.length
  · have hpos : 0 < rs.length := by omega
    have hidx : (startIdx + i) % rs.length < rs.length := Nat.mod_lt _ hpos
    have hget : rs[(startIdx + i) % rs.length]? = some rs[(startIdx + i) % rs.length] :=
      List.getElem?_eq_getElem hidx
    left
    rw [if_pos hlt, h.replicas, if_neg (by omega)]
    simp only [hget]
    exact ⟨_, rfl, ⟨rfl, hlt, rfl, hget⟩, rfl, rfl, rfl⟩
  · right
    rw [if_neg hlt]
    exact ⟨by omega, rfl⟩

/-- The first part of a call leads to its first round, at the index that the round-robin has next, or to the primary. -/
theorem getReplicaPool_filled {pools : Pools β} (h : pools.Filled rs) :
    (∃ (rr rr' : Cycle) (p : Probe β), pools.rr = some rr ∧ rr'.length = rs.length ∧
        rr'.position = (rr.position + 1) % rs.length ∧
        getReplicaPool pools = (.suspend p, { pools with rr := some rr' }) ∧ p.InRound rs ∧ p.i = 0 ∧
        p.startIdx = rr.position ∧ p.check = .acquire) ∨
      (rs = [] ∧ getReplicaPool pools = (getPrimaryPool pools, pools)) := by
  unfold getReplicaPool
  by_cases hnil : rs = []
  · have hempty : pools.replicas.isEmpty = true := by rw [h.replicas, hnil]; rfl
    rw [if_pos hempty]
    exact Or.inr ⟨hnil, rfl⟩
  · obtain ⟨rr, hrr, hlen⟩ := h.rr
    have hpos : 0 < rs.length := List.length_pos_iff.mpr hnil
    have hne : ¬pools.replicas.isEmpty = true := by simpa [h.replicas] using hnil
    rw [if_neg hne, hrr]
    simp only [Cycle.next?, hlen, if_pos hpos, h.replicas]
    let rr' : Cycle := ⟨rs.length, (rr.position + 1) % rs.length, fun h => Nat.mod_lt _ h⟩
    have h' : Pools.Filled rs { pools with rr := some rr' } := ⟨h.replicas, _, rfl, rfl⟩
    left
    rcases probeLoop_filled h' rr.position (Nat.zero_le _) with ⟨p, hp, hround, hi, hstart, hcheck⟩ | ⟨hzero, -⟩
    · rw [← h.replicas] at hp
      refine ⟨rr, rr', p, rfl, rfl, rfl, ?_, hround, hi, hstart, hcheck⟩
      rw [← hp]
      simp only [h.replicas]
      rfl
    · omega

/-- The warning of a call looks up a port that there is. -/
theorem Probe.InRound.unavailable_eq {p : Probe β} {replicaPorts : List Nat} (hp : p.InRound rs)
    (hports : replicaPorts.length = rs.length) (pools : Pools β) :
    p.unavailable pools replicaPorts = probeLoop pools p.startIdx rs.length (p.i + 1) := by
  have hidx : p.idx < replicaPorts.length := by
    rw [hports, hp.idx]
    exact Nat.mod_lt _ (by have := hp.i_lt; omega)
  unfold Probe.unavailable
  rw [if_pos hidx, hp.bound]

/-- The `except` branch leads to the next round, or past the last round to the primary. -/
theorem unavailable_filled {pools : Pools β} {replicaPorts : List Nat} {p : Probe β} (h : pools.Filled rs)
    (hports : replicaPorts.length = rs.length) (hp : p.InRound rs) :
    (∃ q : Probe β, p.unavailable pools replicaPorts = .suspend q ∧ q.InRound rs ∧ q.i = p.i + 1 ∧
      q.startIdx = p.startIdx ∧ q.check = .acquire) ∨
      (p.i + 1 = rs.length ∧ p.unavailable pools replicaPorts = getPrimaryPool pools) := by
  rw [hp.unavailable_eq hports]
  exact probeLoop_filled h p.startIdx (Nat.succ_le_of_lt hp.i_lt)

theorem Probe.InRound.rank_gt {p : Probe β} (h : p.InRound rs) : 3 < p.rank rs.length := by
  have hi := h.i_lt
  unfold Probe.rank
  split <;> omega

theorem rank_unavailable {p q : Probe β} (hp : p.InRound rs) (hi : q.i = p.i + 1) (hcheck : q.check = .acquire) :
    q.rank rs.length < p.rank rs.length := by
  have hlt := hp.i_lt
  unfold Probe.rank
  rw [hi, hcheck]
  show 3 * (rs.length - (p.i + 1)) + 3 < _
  split <;> omega

end Filled

/-! ## Calls that may find no replica pools -/

section Whole
variable {β : Type} {rs : List β}

/-- The replica pools are there, or the list is empty. -/
def Pools.Whole (rs : List β) (pools : Pools β) : Prop := pools.Filled rs ∨ pools.replicas = []

/-- What a getter raises without a primary pool. -/
def notInitialized : PoolError := .assertionError "Call init_pools() before using pools"

theorem getPrimaryPool_cases (pools : Pools β) :
    (∃ pool, getPrimaryPool pools = .done pool) ∨ getPrimaryPool pools = .raise notInitialized := by
  unfold getPrimaryPool
  cases pools.primary with
  | none => exact Or.inr rfl
  | some pool => exact Or.inl ⟨pool, rfl⟩

/-- The first part of a call keeps the pools, and gets to its first await or to the primary. -/
theorem getReplicaPool_whole {pools : Pools β} (h : pools.Whole rs) :
    (getReplicaPool pools).2.Whole rs ∧
      ((∃ p : Probe β, (getReplicaPool pools).1 = .suspend p ∧ p.InRound rs ∧ p.i = 0 ∧ p.check = .acquire) ∨
        (getReplicaPool pools).1 = getPrimaryPool pools) := by
  rcases h with h | h
  · rcases getReplicaPool_filled h with ⟨rr, rr', p, -, hlen, -, hp, hround, hi, -, hcheck⟩ | ⟨-, hp⟩
    · rw [hp]
      exact ⟨Or.inl ⟨h.replicas, rr', rfl, hlen⟩, Or.inl ⟨p, rfl, hround, hi, hcheck⟩⟩
    · rw [hp]
      exact ⟨Or.inl h, Or.inr rfl⟩
  · unfold getReplicaPool
    rw [if_pos (by rw [h]; rfl)]
    exact ⟨Or.inr h, Or.inr rfl⟩

/-- The `except` branch gets to an await, to the primary, or, if the list is empty, to a division by zero. -/
theorem unavailable_whole {pools : Pools β} {replicaPorts : List Nat} {p : Probe β} (h : pools.Whole rs)
    (hports : replicaPorts.length = rs.length) (hp : p.InRound rs) :
    (pools.replicas ≠ [] ∧ ∃ q : Probe β, p.unavailable pools replicaPorts = .suspend q ∧ q.InRound rs ∧
        q.rank rs.length < p.rank rs.length) ∨
      (p.i + 1 = p.bound ∧ p.unavailable pools replicaPorts = getPrimaryPool pools) ∨
      (p.i + 1 < p.bound ∧ pools.replicas = [] ∧ p.unavailable pools replicaPorts = .raise .zeroDivisionError) := by
  have hi := hp.i_lt
  rw [hp.bound]
  rcases h with h | h
  · rcases unavailable_filled h hports hp with ⟨q, hq, hround, hqi, -, hcheck⟩ | ⟨hlast, hdone⟩
    · refine Or.inl ⟨fun hnil => ?_, q, hq, hround, rank_unavailable hp hqi hcheck⟩
      rw [← h.replicas, hnil] at hi
      exact absurd hi (Nat.not_lt_zero _)
    · exact Or.inr (Or.inl ⟨hlast, hdone⟩)
  · rw [hp.unavailable_eq hports]
    unfold probeLoop
    by_cases hlt : p.i + 1 < rs.length
    · rw [if_pos hlt, if_pos (by rw [h]; rfl)]
      exact Or.inr (Or.inr ⟨hlt, h, rfl⟩)
    · rw [if_neg hlt]
      exact Or.inr (Or.inl ⟨by omega, rfl⟩)

/-- The end of the await fails the health check, and there are replicas left to try. -/
def Probe.TriesNext (p : Probe β) (ok : Bool) : Prop := p.verdict ok = some false ∧ p.i + 1 < p.bound

instance (p : Probe β) (ok : Bool) : Decidable (p.TriesNext ok) := inferInstanceAs (Decidable (_ ∧ _))

/-- What a resumed call does: it gets to an await nearer to its end, ends with a pool or the assertion, or, on its way
to another replica of an empty list, divides by zero. -/
theorem resume_whole {pools : Pools β} {replicaPorts : List Nat} {p : Probe β} (h : pools.Whole rs)
    (hports : replicaPorts.length = rs.length) (hp : p.InRound rs) (ok : Bool) :
    (¬(p.TriesNext ok ∧ pools.replicas = []) ∧
      ((∃ q : Probe β, p.resume pools replicaPorts ok = .suspend q ∧ q.InRound rs ∧
          q.rank rs.length < p.rank rs.length) ∨
        (∃ pool, p.resume pools replicaPorts ok = .done pool) ∨
        p.resume pools replicaPorts ok = .raise notInitialized)) ∨
      ((p.TriesNext ok ∧ pools.replicas = []) ∧ p.resume pools replicaPorts ok = .raise .zeroDivisionError) := by
  unfold Probe.TriesNext
  rcases p.resume_cases pools replicaPorts ok with ⟨check, hv, hq, hrank⟩ | ⟨hv, hdone⟩ | ⟨hv, hfail⟩
  · exact Or.inl ⟨by simp [hv], Or.inl ⟨_, hq, ⟨hp.bound, hp.i_lt, hp.idx, hp.pool⟩, hrank _⟩⟩
  · exact Or.inl ⟨by simp [hv], Or.inr (Or.inl ⟨_, hdone⟩)⟩
  · rw [hfail]
    rcases unavailable_whole h hports hp with ⟨hne, q, hq⟩ | ⟨hlast, hmain⟩ | ⟨hlt, hnil, hzero⟩
    · exact Or.inl ⟨fun he => hne he.2, Or.inl ⟨q, hq⟩⟩
    · refine Or.inl ⟨fun he => absurd he.1.2 (by omega), Or.inr ?_⟩
      rw [hmain]
      exact getPrimaryPool_cases pools
    · exact Or.inr ⟨⟨⟨hv, hlt⟩, hnil⟩, hzero⟩

end Whole

/-! ## Pools that stay open -/

section Opened
variable {β : Type} {main : β} {rs : List β}

/-- The pools are open, wherever the round-robin is. -/
structure Pools.Open (main : β) (rs : List β) (pools : Pools β) : Prop where
  primary : pools.primary = some main
  replicas : pools.replicas = rs
  rr : ∃ rr, pools.rr = some rr ∧ rr.length = rs.length

theorem Pools.open_opened (main : β) (rs : List β) : Pools.Open main rs (.opened main rs) :=
  ⟨rfl, rfl, .range rs.length, rfl, rfl⟩

theorem Pools.Open.filled {pools : Pools β} (h : pools.Open main rs) : pools.Filled rs := ⟨h.replicas, h.rr⟩

theorem getPrimaryPool_open {pools : Pools β} (h : pools.Open main rs) : getPrimaryPool pools = .done main := by
  unfold getPrimaryPool
  rw [h.primary]

theorem getReplicaPool_open {pools : Pools β} (h : pools.Open main rs) :
    (∃ (rr rr' : Cycle) (p : Probe β), pools.rr = some rr ∧ rr'.length = rs.length ∧
        rr'.position = (rr.position + 1) % rs.length ∧
        getReplicaPool pools = (.suspend p, { pools with rr := some rr' }) ∧ p.InRound rs ∧ p.i = 0 ∧
        p.startIdx = rr.position ∧ p.check = .acquire) ∨
      (rs = [] ∧ getReplicaPool pools = (.done main, pools)) := by
  rw [← getPrimaryPool_open h]
  exact getReplicaPool_filled h.filled

theorem unavailable_open {pools : Pools β} {replicaPorts : List Nat} {p : Probe β} (h : pools.Open main rs)
    (hports : replicaPorts.length = rs.length) (hp : p.InRound rs) :
    (∃ q : Probe β, p.unavailable pools replicaPorts = .suspend q ∧ q.InRound rs ∧ q.i = p.i + 1 ∧
      q.startIdx = p.startIdx ∧ q.check = .acquire) ∨
      (p.i + 1 = rs.length ∧ p.unavailable pools replicaPorts = .done main) := by
  rw [← getPrimaryPool_open h]
  exact unavailable_filled h.filled hports hp

/-- With open pools a health check goes on to an await that brings the call nearer to its end, or ends with a pool. -/
theorem resume_open {pools : Pools β} {replicaPorts : List Nat} {p : Probe β} (ok : Bool)
    (h : pools.Open main rs) (hports : replicaPorts.length = rs.length) (hp : p.InRound rs) :
    (∃ q : Probe β, p.resume pools replicaPorts ok = .suspend q ∧ q.InRound rs ∧ q.rank rs.length < p.rank rs.length) ∨
      ∃ pool, p.resume pools replicaPorts ok = .done pool ∧ (pool = main ∨ pool ∈ rs) := by
  rcases p.resume_cases pools replicaPorts ok with ⟨check, -, hq, hrank⟩ | ⟨-, hdone⟩ | ⟨-, hfail⟩
  · exact Or.inl ⟨_, hq, ⟨hp.bound, hp.i_lt, hp.idx, hp.pool⟩, hrank _⟩
  · exact Or.inr ⟨p.pool, hdone, Or.inr (List.mem_of_getElem? hp.pool)⟩
  · rw [hfail]
    rcases unavailable_open h hports hp with ⟨q, hq, hround, hi, -, hcheck⟩ | ⟨-, hdone⟩
    · exact Or.inl ⟨q, hq, hround, rank_unavailable hp hi hcheck⟩
    · exact Or.inr ⟨main, hdone, Or.inl rfl⟩

end Opened

end TheGrind.KvStore
