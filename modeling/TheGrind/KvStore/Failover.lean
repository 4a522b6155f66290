import TheGrind.Data.Ring
import TheGrind.KvStore.Replica

/-!
# Failover of get_replica_pool

Calls of `get_replica_pool` under any interleaving at their awaits, with any outcome of each await of a health check. A
call advances the shared round-robin once, when it begins; its walk around the ring is its own from then on.

* `lookups` : the machine, with the advances of the counter and the ends of health checks as its outputs;
* `Walk` : where the call that advanced the counter as the `c`-th can be, with the health checks it has made;
* `Walks` : every call is on its walk, and the counter is where the number of advances says;
* `failover` : which replicas a call tries, in which order, and what it returns.
-/

namespace TheGrind.KvStore
open TheGrind.Data TheGrind.Transition

/-- A call of `get_replica_pool`. -/
inductive Lookup where
  | uncalled
  | probing (probe : Probe Node)
  | returned (pool : Node)
  | raised (error : PoolError)

/-- What becomes of a call when its coroutine runs. -/
def Lookup.next : Next Node → Lookup
  | .suspend p => .probing p
  | .done pool => .returned pool
  | .raise e => .raised e

/-- A call has advanced the round-robin, or one of its health checks has ended. -/
inductive LookupEvent (ρ : Type) where
  | advanced (id : ρ)
  | probed (id : ρ) (idx : Nat) (healthy : Bool)
  deriving DecidableEq

inductive LookupMove (ρ : Type) where
  | call (id : ρ)
  | resume (id : ρ) (ok : Bool)

structure Lookups (ρ : Type) where
  pools : Pools Node
  calls : ρ → Lookup

/-- After `init_pools`, with one replica for each port. -/
def Lookups.init (ρ : Type) (replicaPorts : List Nat) : Lookups ρ where
  pools := .opened .primary (replicas replicaPorts.length)
  calls _ := .uncalled

def Lookups.goto {ρ : Type} [DecidableEq ρ] (s : Lookups ρ) (id : ρ) (l : Lookup) : Lookups ρ :=
  { s with calls := Function.update s.calls id l }

/-- Calls `ρ` of `get_replica_pool`. -/
def lookups (ρ : Type) [DecidableEq ρ] (replicaPorts : List Nat) :
    Machine (Lookups ρ) (LookupMove ρ) (Option (LookupEvent ρ)) where
  step s
    | .call id =>
      match s.calls id with
      | .uncalled =>
        let r := getReplicaPool s.pools
        some (if s.pools.replicas.isEmpty then none else some (.advanced id),
          Lookups.goto { s with pools := r.2 } id (.next r.1))
      | _ => none
    | .resume id ok =>
      match s.calls id with
      | .probing p =>
        some ((p.verdict ok).map (.probed id p.idx),
          s.goto id (.next (p.resume s.pools replicaPorts ok)))
      | _ => none

variable {ρ : Type} [DecidableEq ρ] {replicaPorts : List Nat} {s t : Lookups ρ} {a : LookupMove ρ}
  {o : Option (LookupEvent ρ)} {os : List (Option (LookupEvent ρ))} {id : ρ} {n c : Nat}

def LookupEvent.advanced? : LookupEvent ρ → Option ρ
  | .advanced id => some id
  | .probed _ _ _ => none

def LookupEvent.probed? (id : ρ) : LookupEvent ρ → Option (Nat × Bool)
  | .advanced _ => none
  | .probed id' idx healthy => if id' = id then some (idx, healthy) else none

/-- The calls that have advanced the round-robin, in this order. -/
def advances (os : List (Option (LookupEvent ρ))) : List ρ := os.filterMap (·.bind LookupEvent.advanced?)

/-- The replicas that a call has finished probing, in this order, with what it found. -/
def probes (id : ρ) (os : List (Option (LookupEvent ρ))) : List (Nat × Bool) :=
  os.filterMap (·.bind (LookupEvent.probed? id))

/-- The replica that a call is probing. -/
def Lookup.current : Lookup → List Nat
  | .probing p => [p.idx]
  | _ => []

/-- The replicas that a call has tried, the one it is probing last. -/
def tried (id : ρ) (os : List (Option (LookupEvent ρ))) (s : Lookups ρ) : List Nat :=
  (probes id os).map Prod.fst ++ (s.calls id).current

omit [DecidableEq ρ] in
theorem advances_snoc : advances (os ++ [o]) = advances os ++ (o.bind LookupEvent.advanced?).toList := by
  unfold advances
  rw [List.filterMap_append]
  cases h : o.bind LookupEvent.advanced? <;> simp [h]

theorem probes_snoc : probes id (os ++ [o]) = probes id os ++ (o.bind (LookupEvent.probed? id)).toList := by
  unfold probes
  rw [List.filterMap_append]
  cases h : o.bind (LookupEvent.probed? id) <;> simp [h]

omit [DecidableEq ρ] in
theorem advances_advanced : advances (os ++ [some (.advanced id)]) = advances os ++ [id] := advances_snoc

omit [DecidableEq ρ] in
theorem advances_none : advances (os ++ [none]) = advances os := by
  rw [advances_snoc]
  exact List.append_nil _

theorem probes_advanced {id' : ρ} : probes id' (os ++ [some (.advanced id)]) = probes id' os := by
  rw [probes_snoc]
  exact List.append_nil _

theorem probes_none : probes id (os ++ [none]) = probes id os := by
  rw [probes_snoc]
  exact List.append_nil _

theorem calls_goto (s : Lookups ρ) (id : ρ) (l : Lookup) : (s.goto id l).calls id = l := Function.update_self _ _ _

theorem calls_goto_of_ne {id' : ρ} (h : id' ≠ id) (s : Lookups ρ) (l : Lookup) :
    (s.goto id l).calls id' = s.calls id' :=
  Function.update_of_ne h _ _

/-! ## One walk around the ring -/

/-- The first `m` health checks of a walk from `c` on, all of them failed. -/
def failures (n c m : Nat) : List (Nat × Bool) := (List.range m).map fun j => ((c + j) % n, false)

theorem failures_succ (n c m : Nat) : failures n c (m + 1) = failures n c m ++ [((c + m) % n, false)] := by
  unfold failures
  rw [List.range_succ, List.map_append]
  rfl

theorem mem_failures {m i : Nat} {b : Bool} : (i, b) ∈ failures n c m ↔ b = false ∧ ∃ j < m, (c + j) % n = i := by
  unfold failures
  simp only [List.mem_map, List.mem_range, Prod.mk.injEq]
  constructor
  · rintro ⟨j, hj, he, hb⟩
    exact ⟨hb.symm, j, hj, he⟩
  · rintro ⟨rfl, j, hj, he⟩
    exact ⟨j, hj, he, rfl⟩

/-- The walk of the call that advanced the counter as the `c`-th: it probes a replica after failures on those before it
in the ring, or has returned a healthy one, or the primary after failures on all. -/
inductive Walk (n c : Nat) (ps : List (Nat × Bool)) : Lookup → Prop
  | probing {p : Probe Node} :
      p.InRound (replicas n) → p.startIdx = c % n → ps = failures n c p.i → Walk n c ps (.probing p)
  | healthy {m : Nat} : m < n → ps = failures n c m ++ [((c + m) % n, true)] →
      Walk n c ps (.returned (.replica ((c + m) % n)))
  | fallback : ps = failures n c n → Walk n c ps (.returned .primary)

theorem idx_of_inRound {p : Probe Node} (h : p.InRound (replicas n)) (hs : p.startIdx = c % n) :
    p.i < n ∧ p.idx = (c + p.i) % n ∧ p.pool = .replica ((c + p.i) % n) := by
  have hi := h.i_lt
  rw [length_replicas] at hi
  have hidx : p.idx = (c + p.i) % n := by rw [h.idx, hs, length_replicas, Nat.mod_add_mod]
  refine ⟨hi, hidx, ?_⟩
  have hlt : p.idx < n := by
    rw [hidx]
    exact Nat.mod_lt _ (by omega)
  have hpool := h.pool
  unfold replicas at hpool
  rw [List.getElem?_map, List.getElem?_range hlt, hidx] at hpool
  exact (Option.some.inj hpool).symm

/-- What a resumed call has done on its walk. -/
theorem Walk.resume {pools : Pools Node} {p : Probe Node} {ps : List (Nat × Bool)} (h : Walk n c ps (.probing p))
    (hopen : pools.Open .primary (replicas n)) (hports : replicaPorts.length = n) (ok : Bool) :
    Walk n c (ps ++ ((p.verdict ok).map fun healthy => (p.idx, healthy)).toList)
      (.next (p.resume pools replicaPorts ok)) := by
  cases h with
  | probing hround hstart hps =>
    obtain ⟨hi, hidx, hpool⟩ := idx_of_inRound hround hstart
    have hports' : replicaPorts.length = (replicas n).length := by rw [hports, length_replicas]
    rcases p.resume_cases pools replicaPorts ok with ⟨check, hv, hq, -⟩ | ⟨hv, hq⟩ | ⟨hv, hq⟩
    · rw [hv, hq, Option.map_none, Option.toList_none, List.append_nil]
      exact .probing (p := { p with check := check }) ⟨hround.bound, hround.i_lt, hround.idx, hround.pool⟩ hstart hps
    · rw [hv, hq, Option.map_some, Option.toList_some, hidx, hps]
      show Walk n c _ (.returned p.pool)
      rw [hpool]
      exact .healthy hi rfl
    · rw [hv, hq, Option.map_some, Option.toList_some, hidx, hps, ← failures_succ]
      rcases unavailable_open hopen hports' hround with ⟨q, hnext, hqround, hqi, hqstart, -⟩ | ⟨hlast, hnext⟩
      · rw [hnext, ← hqi]
        exact .probing hqround (hqstart.trans hstart) rfl
      · rw [length_replicas] at hlast
        rw [hnext, hlast]
        exact .fallback rfl

/-- Fewer than `n` failures leave a replica out. -/
theorem le_of_all_failed {m : Nat} (h : ∀ i < n, (i, false) ∈ failures n c m) : n ≤ m := by
  have hsub : List.range n ⊆ (List.range m).map fun j => (c + j) % n := by
    intro i hi
    obtain ⟨-, j, hj, he⟩ := mem_failures.mp (h i (List.mem_range.mp hi))
    exact List.mem_map.mpr ⟨j, List.mem_range.mpr hj, he⟩
  have hle := (List.nodup_range.subperm hsub).length_le
  rwa [List.length_range, List.length_map, List.length_range] at hle

theorem find_failures (n c m : Nat) (ps : List (Nat × Bool)) :
    (failures n c m ++ ps).find? Prod.snd = ps.find? Prod.snd := by
  rw [List.find?_append]
  have hnone : (failures n c m).find? Prod.snd = none := by
    rw [List.find?_eq_none]
    rintro ⟨i, b⟩ hmem
    rw [(mem_failures.mp hmem).1]
    exact Bool.false_ne_true
  rw [hnone]
  rfl

/-- A call has tried an initial part of the ring from `c` on, in this order, each replica at most once. -/
theorem Walk.tried {ps : List (Nat × Bool)} {l : Lookup} (h : Walk n c ps l) :
    ∃ m ≤ n, ps.map Prod.fst ++ l.current = (List.range m).map fun j => (c + j) % n := by
  have hmap : ∀ m, (failures n c m).map Prod.fst = (List.range m).map fun j => (c + j) % n := by
    intro m
    unfold failures
    rw [List.map_map]
    rfl
  cases h with
  | probing hround hstart hps =>
    obtain ⟨hi, hidx, -⟩ := idx_of_inRound hround hstart
    refine ⟨_, hi, ?_⟩
    rw [hps, hmap, List.range_succ, List.map_append]
    show _ ++ [_] = _ ++ [_]
    rw [hidx]
  | @healthy m hm hps =>
    refine ⟨m + 1, hm, ?_⟩
    rw [hps, List.map_append, hmap, List.range_succ, List.map_append]
    exact List.append_nil _
  | fallback hps =>
    refine ⟨n, le_rfl, ?_⟩
    rw [hps, hmap]
    exact List.append_nil _

/-- A call has returned a replica once it has a successful probe, and then the replica of the first one. -/
theorem Walk.returned_replica_iff {ps : List (Nat × Bool)} {l : Lookup} (h : Walk n c ps l) (i : Nat) :
    l = .returned (.replica i) ↔ ps.find? Prod.snd = some (i, true) := by
  cases h with
  | @probing p _ _ hps =>
    have hnone := find_failures n c p.i []
    rw [List.append_nil, ← hps] at hnone
    simp [hnone]
  | healthy _ hps =>
    rw [hps, find_failures]
    simp
  | fallback hps =>
    have hnone := find_failures n c n []
    rw [List.append_nil, ← hps] at hnone
    simp [hnone]

/-- A call has returned the primary once each of the replicas has failed a probe of this call. -/
theorem Walk.returned_primary_iff {ps : List (Nat × Bool)} {l : Lookup} (h : Walk n c ps l) :
    l = .returned .primary ↔ ∀ i < n, (i, false) ∈ ps := by
  cases h with
  | probing hround hstart hps =>
    obtain ⟨hi, -, -⟩ := idx_of_inRound hround hstart
    refine ⟨fun he => (by cases he), fun hall => ?_⟩
    rw [hps] at hall
    exact absurd (le_of_all_failed hall) (by omega)
  | healthy hm hps =>
    refine ⟨fun he => (by cases he), fun hall => ?_⟩
    rw [hps] at hall
    have hfail : ∀ i < n, (i, false) ∈ failures n c _ := fun i hi => by simpa using hall i hi
    exact absurd (le_of_all_failed hfail) (by omega)
  | fallback hps =>
    refine ⟨fun _ i hi => ?_, fun _ => rfl⟩
    rw [hps]
    exact mem_failures.mpr ⟨rfl, exists_walk hi c⟩

/-! ## All calls -/

theorem call_eq (hs : (lookups ρ replicaPorts).step s (.call id) = some (o, t)) :
    s.calls id = .uncalled ∧ o = (if s.pools.replicas.isEmpty then none else some (.advanced id)) ∧
      t = Lookups.goto { s with pools := (getReplicaPool s.pools).2 } id (.next (getReplicaPool s.pools).1) := by
  simp only [lookups] at hs
  split at hs
  · next hcall =>
    cases hs
    exact ⟨hcall, rfl, rfl⟩
  · cases hs

theorem resume_eq {ok : Bool} (hs : (lookups ρ replicaPorts).step s (.resume id ok) = some (o, t)) :
    ∃ p, s.calls id = .probing p ∧ o = (p.verdict ok).map (.probed id p.idx) ∧
      t = s.goto id (.next (p.resume s.pools replicaPorts ok)) := by
  simp only [lookups] at hs
  split at hs
  · next p hcall =>
    cases hs
    exact ⟨p, hcall, rfl, rfl⟩
  · cases hs

/-- What a new call does: it advances the round-robin and goes to its first await, or has no replica to try. -/
theorem call_cases (hopen : s.pools.Open .primary (replicas n))
    (hs : (lookups ρ replicaPorts).step s (.call id) = some (o, t)) : s.calls id = .uncalled ∧
      ((∃ (rr rr' : Cycle) (p : Probe Node), s.pools.rr = some rr ∧ rr'.length = n ∧
          rr'.position = (rr.position + 1) % n ∧ p.InRound (replicas n) ∧ p.i = 0 ∧ p.startIdx = rr.position ∧
          p.check = .acquire ∧ o = some (.advanced id) ∧
          t = Lookups.goto { s with pools := { s.pools with rr := some rr' } } id (.probing p)) ∨
        (n = 0 ∧ o = none ∧ t = s.goto id (.returned .primary))) := by
  obtain ⟨hcall, rfl, rfl⟩ := call_eq hs
  refine ⟨hcall, ?_⟩
  rcases getReplicaPool_open hopen with
    ⟨rr, rr', p, hrr, hlen, hpos, hp, hround, hi, hstart, hcheck⟩ | ⟨hnil, hdone⟩
  · rw [length_replicas] at hlen hpos
    have hlt := hround.i_lt
    have hne : s.pools.replicas.isEmpty = false := by
      rw [hopen.replicas, List.isEmpty_eq_false_iff, ← List.length_pos_iff]
      omega
    rw [if_neg (by simp [hne]), hp]
    exact Or.inl ⟨rr, rr', p, hrr, hlen, hpos, hround, hi, hstart, hcheck, rfl, rfl⟩
  · have hzero : n = 0 := by rw [← length_replicas n, hnil, List.length_nil]
    have hempty : s.pools.replicas.isEmpty = true := by rw [hopen.replicas, hnil, List.isEmpty_nil]
    rw [if_pos hempty, hdone]
    exact Or.inr ⟨hzero, rfl, rfl⟩

/-- Every call is on its walk, and the counter is where the number of advances says. -/
structure Walks (n : Nat) (os : List (Option (LookupEvent ρ))) (s : Lookups ρ) : Prop where
  pools : s.pools.Open .primary (replicas n)
  counter : ∀ rr ∈ s.pools.rr, rr.position = (advances os).length % n
  early : ∀ id, id ∉ advances os → probes id os = [] ∧
    (s.calls id = .uncalled ∨ n = 0 ∧ s.calls id = .returned .primary)
  walk : ∀ c id, (advances os)[c]? = some id → Walk n c (probes id os) (s.calls id)

theorem walks_init (hports : replicaPorts.length = n) : Walks n [] (Lookups.init ρ replicaPorts) where
  pools := by
    rw [← hports]
    exact Pools.open_opened _ _
  counter rr h := by
    have hrr : Cycle.range (replicas replicaPorts.length).length = rr := Option.some.inj h
    rw [← hrr]
    simp [Cycle.range, advances]
  early _ _ := ⟨rfl, Or.inl rfl⟩
  walk c id h := by
    simp [advances] at h

theorem Walks.not_advanced (h : Walks n os s) (hcall : s.calls id = .uncalled) : id ∉ advances os := by
  intro hmem
  obtain ⟨c, hc⟩ := List.mem_iff_getElem?.mp hmem
  have hw := h.walk c id hc
  rw [hcall] at hw
  cases hw

/-- A call that has begun and is not over has advanced the round-robin. -/
theorem Walks.advanced (h : Walks n os s) (id : ρ) (hu : s.calls id ≠ .uncalled)
    (hp : s.calls id ≠ .returned .primary) : ∃ c : Nat, (advances os)[c]? = some id := by
  rw [← List.mem_iff_getElem?]
  by_contra hnot
  rcases (h.early id hnot).2 with he | ⟨-, he⟩
  · exact hu he
  · exact hp he

/-- A call that begins its walk advances the round-robin. -/
theorem Walks.begin (h : Walks n os s) (hnew : id ∉ advances os) {rr rr' : Cycle} {p : Probe Node}
    (hrr : s.pools.rr = some rr) (hlen : rr'.length = n) (hpos : rr'.position = (rr.position + 1) % n)
    (hround : p.InRound (replicas n)) (hi : p.i = 0) (hstart : p.startIdx = rr.position) :
    Walks n (os ++ [some (.advanced id)])
      (Lookups.goto { s with pools := { s.pools with rr := some rr' } } id (.probing p)) := by
  have hcount := h.counter rr hrr
  refine ⟨⟨h.pools.primary, h.pools.replicas, rr', rfl, by rw [length_replicas, hlen]⟩, ?_, ?_, ?_⟩
  · intro rr'' hrr''
    obtain rfl := Option.some.inj hrr''
    rw [hpos, hcount, advances_advanced, List.length_append, List.length_singleton, Nat.mod_add_mod]
  · intro id' hid'
    rw [advances_advanced, List.mem_append, not_or] at hid'
    have hne : id' ≠ id := fun he => hid'.2 (List.mem_singleton.mpr he)
    rw [probes_advanced, calls_goto_of_ne hne]
    exact h.early id' hid'.1
  · intro c id' hc
    rw [advances_advanced] at hc
    rw [probes_advanced]
    by_cases hlt : c < (advances os).length
    · rw [List.getElem?_append_left hlt] at hc
      have hne : id' ≠ id := fun he => hnew (he ▸ List.mem_of_getElem? hc)
      rw [calls_goto_of_ne hne]
      exact h.walk c id' hc
    · have hc' : c = (advances os).length := by
        have hle := (List.getElem?_eq_some_iff.mp hc).1
        rw [List.length_append, List.length_singleton] at hle
        omega
      rw [hc', List.getElem?_concat_length] at hc
      obtain rfl := Option.some.inj hc
      rw [calls_goto]
      refine .probing hround ?_ ?_
      · rw [hstart, hcount, hc']
      · rw [hi, (h.early _ hnew).1]
        rfl

/-- A call that has no replica to try. -/
theorem Walks.direct (h : Walks n os s) (hnew : id ∉ advances os) (hzero : n = 0) :
    Walks n (os ++ [none]) (s.goto id (.returned .primary)) := by
  refine ⟨h.pools, by rw [advances_none]; exact h.counter, ?_, ?_⟩
  · intro id' hid'
    rw [advances_none] at hid'
    rw [probes_none]
    by_cases hne : id' = id
    · subst hne
      rw [calls_goto]
      exact ⟨(h.early _ hid').1, Or.inr ⟨hzero, rfl⟩⟩
    · rw [calls_goto_of_ne hne]
      exact h.early id' hid'
  · intro c id' hc
    rw [advances_none] at hc
    have hne : id' ≠ id := fun he => hnew (he ▸ List.mem_of_getElem? hc)
    rw [probes_none, calls_goto_of_ne hne]
    exact h.walk c id' hc

theorem walks_call (h : Walks n os s)
    (hs : (lookups ρ replicaPorts).step s (.call id) = some (o, t)) : Walks n (os ++ [o]) t := by
  obtain ⟨hcall, ⟨rr, rr', p, hrr, hlen, hpos, hround, hi, hstart, -, rfl, rfl⟩ | ⟨hzero, rfl, rfl⟩⟩ :=
    call_cases h.pools hs
  · exact h.begin (h.not_advanced hcall) hrr hlen hpos hround hi hstart
  · exact h.direct (h.not_advanced hcall) hzero

theorem walks_resume {ok : Bool} (hports : replicaPorts.length = n) (h : Walks n os s)
    (hs : (lookups ρ replicaPorts).step s (.resume id ok) = some (o, t)) : Walks n (os ++ [o]) t := by
  obtain ⟨p, hcall, rfl, rfl⟩ := resume_eq hs
  have hadv : advances (os ++ [(p.verdict ok).map (.probed id p.idx)]) = advances os := by
    rw [advances_snoc]
    cases p.verdict ok <;> exact List.append_nil _
  have hprobes : probes id (os ++ [(p.verdict ok).map (.probed id p.idx)]) =
      probes id os ++ ((p.verdict ok).map fun healthy => (p.idx, healthy)).toList := by
    rw [probes_snoc]
    cases p.verdict ok <;> simp [LookupEvent.probed?]
  have hprobes' : ∀ id', id' ≠ id → probes id' (os ++ [(p.verdict ok).map (.probed id p.idx)]) = probes id' os := by
    intro id' hne
    rw [probes_snoc]
    cases p.verdict ok <;> simp [LookupEvent.probed?, Ne.symm hne]
  refine ⟨h.pools, by rw [hadv]; exact h.counter, ?_, ?_⟩
  · intro id' hid'
    rw [hadv] at hid'
    have hne : id' ≠ id := by
      rintro rfl
      obtain ⟨c, hc⟩ := h.advanced id' (by simp [hcall]) (by simp [hcall])
      exact hid' (List.mem_of_getElem? hc)
    rw [hprobes' id' hne, calls_goto_of_ne hne]
    exact h.early id' hid'
  · intro c id' hc
    rw [hadv] at hc
    have hw := h.walk c id' hc
    by_cases hne : id' = id
    · subst hne
      rw [hcall] at hw
      rw [hprobes, calls_goto]
      exact hw.resume h.pools hports ok
    · rw [hprobes' id' hne, calls_goto_of_ne hne]
      exact hw

theorem walks_step (hports : replicaPorts.length = n) (h : Walks n os s)
    (hs : (lookups ρ replicaPorts).step s a = some (o, t)) : Walks n (os ++ [o]) t := by
  cases a with
  | call id => exact walks_call h hs
  | resume id ok => exact walks_resume hports h hs

theorem walks_run {moves : List (LookupMove ρ)}
    (h : (lookups ρ replicaPorts).run (.init ρ replicaPorts) moves = some (os, s)) :
    Walks replicaPorts.length os s :=
  Machine.run_history (M := lookups ρ replicaPorts) (P := Walks replicaPorts.length) (fun hP hs => walks_step rfl hP hs)
    (l := []) (walks_init rfl) h

/-! ## Calls come to an end -/

/-- How many awaits a call has before it at most. -/
def Lookup.rank (n : Nat) : Lookup → Nat
  | .uncalled => 3 * n
  | .probing p => p.rank n - 3
  | .returned _ | .raised _ => 0

def LookupMove.resumes (id : ρ) : LookupMove ρ → Bool
  | .resume id' _ => id' = id
  | .call _ => false

/-- A suspended call is in a round of its loop, and a call that has raised has raised one of two errors. -/
def Lookup.Ok (n : Nat) : Lookup → Prop
  | .probing p => p.InRound (replicas n)
  | .raised e => e = notInitialized ∨ e = .zeroDivisionError
  | .uncalled | .returned _ => True

/-- What the calls rely on, whatever has become of the pools. -/
structure Guarded (n : Nat) (s : Lookups ρ) : Prop where
  pools : s.pools.Whole (replicas n)
  calls : ∀ id, (s.calls id).Ok n

omit [DecidableEq ρ] in
theorem guarded_init (replicaPorts : List Nat) : Guarded replicaPorts.length (Lookups.init ρ replicaPorts) :=
  ⟨Or.inl (Pools.open_opened _ _).filled, fun _ => trivial⟩

theorem Guarded.goto {pools : Pools Node} {l : Lookup} (h : Guarded n s) (hpools : pools.Whole (replicas n))
    (hl : l.Ok n) (id : ρ) : Guarded n (Lookups.goto { s with pools := pools } id l) := by
  refine ⟨hpools, fun id' => ?_⟩
  by_cases hid : id' = id
  · subst hid
    rw [calls_goto]
    exact hl
  · rw [calls_goto_of_ne hid]
    exact h.calls id'

theorem getPrimaryPool_ok (pools : Pools Node) (n : Nat) :
    (Lookup.next (getPrimaryPool pools)).Ok n ∧ (Lookup.next (getPrimaryPool pools)).rank n = 0 := by
  rcases getPrimaryPool_cases pools with ⟨pool, hp⟩ | hp
  · rw [hp]
    exact ⟨trivial, rfl⟩
  · rw [hp]
    exact ⟨Or.inl rfl, rfl⟩

/-- The first part of a call leaves it `3 * n` awaits at most. -/
theorem getReplicaPool_ok {pools : Pools Node} (h : pools.Whole (replicas n)) :
    (Lookup.next (getReplicaPool pools).1).Ok n ∧ (Lookup.next (getReplicaPool pools).1).rank n ≤ 3 * n := by
  rcases (getReplicaPool_whole h).2 with ⟨p, hp, hround, hi, hcheck⟩ | hp
  · rw [hp]
    refine ⟨hround, ?_⟩
    simp only [Lookup.next, Lookup.rank, Probe.rank, hi, hcheck]
    omega
  · rw [hp]
    obtain ⟨hok, hrank⟩ := getPrimaryPool_ok pools n
    exact ⟨hok, by omega⟩

/-- A resumed call has fewer awaits before it. -/
theorem resume_ok {pools : Pools Node} {p : Probe Node} (h : pools.Whole (replicas n))
    (hports : replicaPorts.length = n) (hp : p.InRound (replicas n)) (ok : Bool) :
    (Lookup.next (p.resume pools replicaPorts ok)).Ok n ∧
      (Lookup.next (p.resume pools replicaPorts ok)).rank n < (Lookup.probing p).rank n := by
  have hgt := hp.rank_gt
  have hports' : replicaPorts.length = (replicas n).length := by rw [hports, length_replicas]
  have hrw := resume_whole h hports' hp ok
  rw [length_replicas] at hgt hrw
  have hpos : 0 < (Lookup.probing p).rank n := by
    show 0 < p.rank n - 3
    omega
  rcases hrw with ⟨-, ⟨q, hq, hround, hlt⟩ | ⟨pool, hq⟩ | hq⟩ | ⟨-, hq⟩
  · have hqgt := hround.rank_gt
    rw [length_replicas] at hqgt
    rw [hq]
    refine ⟨hround, ?_⟩
    show q.rank n - 3 < p.rank n - 3
    omega
  · rw [hq]
    exact ⟨trivial, hpos⟩
  · rw [hq]
    exact ⟨Or.inl rfl, hpos⟩
  · rw [hq]
    exact ⟨Or.inr rfl, hpos⟩

theorem guarded_step (hports : replicaPorts.length = n) (h : Guarded n s)
    (hs : (lookups ρ replicaPorts).step s a = some (o, t)) : Guarded n t := by
  cases a with
  | call id =>
    obtain ⟨-, -, rfl⟩ := call_eq hs
    exact h.goto (getReplicaPool_whole h.pools).1 (getReplicaPool_ok h.pools).1 id
  | resume id ok =>
    obtain ⟨p, hcall, -, rfl⟩ := resume_eq hs
    have hround := h.calls id
    rw [hcall] at hround
    exact h.goto h.pools (resume_ok h.pools hports hround ok).1 id

/-- What a step does to a call: nothing, its first part, or its next one. -/
theorem calls_step (hs : (lookups ρ replicaPorts).step s a = some (o, t)) (id : ρ) :
    (t.calls id = s.calls id ∧ a.resumes id = false) ∨
      (s.calls id = .uncalled ∧ a.resumes id = false ∧ t.calls id = .next (getReplicaPool s.pools).1) ∨
      ∃ p ok, a = .resume id ok ∧ s.calls id = .probing p ∧ t.calls id = .next (p.resume s.pools replicaPorts ok) := by
  cases a with
  | call id' =>
    obtain ⟨hcall, -, rfl⟩ := call_eq hs
    by_cases hid : id = id'
    · subst hid
      exact Or.inr (Or.inl ⟨hcall, rfl, calls_goto _ _ _⟩)
    · exact Or.inl ⟨calls_goto_of_ne hid _ _, rfl⟩
  | resume id' ok =>
    obtain ⟨p, hcall, -, rfl⟩ := resume_eq hs
    by_cases hid : id = id'
    · subst hid
      exact Or.inr (Or.inr ⟨p, ok, rfl, hcall, calls_goto _ _ _⟩)
    · exact Or.inl ⟨calls_goto_of_ne hid _ _, decide_eq_false (Ne.symm hid)⟩

/-- A step leaves every call where it is, or takes it nearer to its end. -/
theorem rank_lookups (hports : replicaPorts.length = n) (h : Guarded n s)
    (hs : (lookups ρ replicaPorts).step s a = some (o, t)) (id : ρ) :
    (t.calls id).rank n + (if a.resumes id then 1 else 0) ≤ (s.calls id).rank n := by
  rcases calls_step hs id with ⟨hsame, hno⟩ | ⟨hcall, hno, hcalls⟩ | ⟨p, ok, rfl, hcall, hcalls⟩
  · rw [hsame, hno]
    exact le_rfl
  · rw [hcalls, hcall, hno]
    exact (getReplicaPool_ok h.pools).2
  · have hround := h.calls id
    rw [hcall] at hround
    have hlt := (resume_ok h.pools hports hround ok).2
    rw [hcalls, hcall]
    simp only [LookupMove.resumes, decide_true, if_true]
    omega

/-- **Failover.** In every run of concurrent calls over `n` replicas, whatever their health checks find: the call that
advanced the round-robin as the `c`-th tries the replicas `c % n`, `(c + 1) % n`, … in this order, each at most once and
each with a pool and a port. It has returned a replica exactly when a probe of it has succeeded, the replica of its
first success, and the primary exactly when all `n` replicas have failed its probes. Without replicas a call returns the
primary. No call raises, every call is suspended at most `3 * n` times, and a suspended call can go on. -/
theorem failover (replicaPorts : List Nat) (moves : List (LookupMove ρ)) (os : List (Option (LookupEvent ρ)))
    (s : Lookups ρ) (h : (lookups ρ replicaPorts).run (.init ρ replicaPorts) moves = some (os, s)) :
    (∀ c id, (advances os)[c]? = some id →
      (∃ m ≤ replicaPorts.length, tried id os s = (List.range m).map fun j => (c + j) % replicaPorts.length) ∧
      (tried id os s).Nodup ∧ (∀ i ∈ tried id os s, i < s.pools.replicas.length ∧ i < replicaPorts.length) ∧
      (∀ i, s.calls id = .returned (.replica i) ↔ (probes id os).find? Prod.snd = some (i, true)) ∧
      (s.calls id = .returned .primary ↔ ∀ i < replicaPorts.length, (i, false) ∈ probes id os)) ∧
    (∀ id, id ∉ advances os → s.calls id = .uncalled ∨ replicaPorts = [] ∧ s.calls id = .returned .primary) ∧
    (∀ id e, s.calls id ≠ .raised e) ∧
    (∀ id, moves.countP (·.resumes id) ≤ 3 * replicaPorts.length) ∧
    ∀ id p, s.calls id = .probing p →
      ∀ ok, ∃ r, (lookups ρ replicaPorts).step s (.resume id ok) = some r := by
  have hw := walks_run h
  refine ⟨fun c id hc => ?_, fun id hid => ?_, fun id e he => ?_, fun id => ?_, fun id p hp ok => ?_⟩
  · have hwalk := hw.walk c id hc
    obtain ⟨m, hm, htried⟩ : ∃ m ≤ replicaPorts.length, tried id os s = _ := hwalk.tried
    refine ⟨⟨m, hm, htried⟩, ?_, ?_, hwalk.returned_replica_iff, hwalk.returned_primary_iff⟩
    · rw [htried]
      exact nodup_walk hm
    · intro i hi
      rw [htried] at hi
      obtain ⟨j, hj, rfl⟩ := List.mem_map.mp hi
      rw [List.mem_range] at hj
      have hlt : (c + j) % replicaPorts.length < replicaPorts.length := Nat.mod_lt _ (by omega)
      exact ⟨by rw [hw.pools.replicas, length_replicas]; exact hlt, hlt⟩
  · rcases (hw.early id hid).2 with he | ⟨hzero, he⟩
    · exact Or.inl he
    · exact Or.inr ⟨List.length_eq_zero_iff.mp hzero, he⟩
  · obtain ⟨c, hc⟩ := hw.advanced id (by simp [he]) (by simp [he])
    have hwalk := hw.walk c id hc
    rw [he] at hwalk
    cases hwalk
  · have hle := Machine.run_rank (M := lookups ρ replicaPorts) (P := Guarded replicaPorts.length)
      (r := fun s => (s.calls id).rank replicaPorts.length) (p := (·.resumes id)) (guarded_step rfl)
      (fun hP hs => rank_lookups rfl hP hs id) (guarded_init replicaPorts) h
    have hrank : ((Lookups.init ρ replicaPorts).calls id).rank replicaPorts.length = 3 * replicaPorts.length := rfl
    omega
  · simp only [lookups, hp]
    exact ⟨_, rfl⟩

/-- Two calls over two replicas, the first of which fails for call 0 and works for call 1. -/
theorem failover_example :
    ∃ s, (lookups Nat [5433, 5434]).run (.init Nat [5433, 5434])
        [.call 0, .call 1, .resume 0 false, .resume 1 false, .resume 1 true, .resume 1 true, .resume 1 true,
          .resume 0 false] =
      some ([some (.advanced 0), some (.advanced 1), some (.probed 0 0 false), some (.probed 1 1 false), none, none,
        some (.probed 1 0 true), some (.probed 0 1 false)], s) ∧
      s.calls 0 = .returned .primary ∧ s.calls 1 = .returned (.replica 0) := by
  obtain ⟨s, h⟩ := Machine.exists_run (lookups Nat [5433, 5434]) (s := .init Nat [5433, 5434])
    (show ((lookups Nat [5433, 5434]).run (.init Nat [5433, 5434])
      [.call 0, .call 1, .resume 0 false, .resume 1 false, .resume 1 true, .resume 1 true, .resume 1 true,
        .resume 0 false]).map Prod.fst =
      some [some (.advanced 0), some (.advanced 1), some (.probed 0 0 false), some (.probed 1 1 false), none, none,
        some (.probed 1 0 true), some (.probed 0 1 false)] by decide +kernel)
  have hall := (failover _ _ _ s h).1
  exact ⟨s, h, (hall 0 0 (by decide)).2.2.2.2.mpr (by decide), ((hall 1 1 (by decide)).2.2.2.1 0).mpr (by decide)⟩

end TheGrind.KvStore
