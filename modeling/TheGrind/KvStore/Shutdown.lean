import TheGrind.KvStore.Failover
import TheGrind.KvStore.Lifespan

/-!
# close_pools beside get_replica_pool

`close_pools` awaits the close of one pool after another and then replaces the list of the replica pools. A call of
`get_replica_pool` that is suspended in a health check meanwhile reads the list afresh in its next round: if it is empty
by then, the modulo divides by zero (`probe_outlives_pools`).

* `Close` : a `close_pools` between its awaits; alone it does what `closePools` does (`closePools_runs`);
* `shutdown` : calls of `get_replica_pool` with one `close_pools`;
* `Guarded` : what the calls rely on, whatever becomes of the pools;
* `lookups_safe_iff` : in which runs the calls return a pool or raise the assertion.
-/

namespace TheGrind.KvStore
open TheGrind.Transition

/-! ## close_pools -/

/-- A `close_pools`: the pool whose close it awaits, with the rest of its loop. -/
inductive Close (β : Type) where
  | uncalled
  | primary (pool : β)
  | replica (pool : β) (rest : List β)
  | returned
  | raised

section Close
variable {β : Type}

/-- The loop of `close_pools` up to its next await, or to the end of the function. -/
def closeLoop (pools : Pools β) : List β → Close β × Pools β
  | [] => (.returned, { pools with replicas := [], rr := none })
  | pool :: rest => (.replica pool rest, pools)

/-- The first part of `close_pools`. -/
def closeBegin (pools : Pools β) : Close β × Pools β :=
  match pools.primary with
  | some pool => (.primary pool, pools)
  | none => closeLoop pools pools.replicas

/-- `close_pools` goes on when its await is over, `ok` saying whether it raised nothing. -/
def Close.resume (c : Close β) (pools : Pools β) (ok : Bool) : Option (Close β × Pools β) :=
  match c, ok with
  | .primary _, true =>
    let pools' := { pools with primary := none }
    some (closeLoop pools' pools'.replicas)
  | .replica _ rest, true => some (closeLoop pools rest)
  | .primary _, false | .replica _ _, false => some (.raised, pools)
  | .uncalled, _ | .returned, _ | .raised, _ => none

/-- The pool whose close is awaited. -/
def Close.awaits : Close β → Option β
  | .primary pool | .replica pool _ => some pool
  | .uncalled | .returned | .raised => none

/-- A `close_pools` alone. -/
def closing (β : Type) : Machine (Close β × Pools β) Bool Unit where
  step s ok := (s.1.resume s.2 ok).map fun r => ((), r)

theorem closeLoop_runs (closes : Nat → Closing) : ∀ (pools : List PgPool) (i : Nat) (p : Process),
    ∃ oks os, (closing PgPool).run (closeLoop p.pools pools) oks = some (os,
      if (closeReplicas closes i pools p).1 then (.returned, { p.pools with replicas := [], rr := none })
      else (.raised, p.pools)) := by
  intro pools
  induction pools with
  | nil => exact fun _ _ => ⟨[], [], rfl⟩
  | cons pool pools ih =>
    intro i p
    unfold closeReplicas
    by_cases hi : closes i = .closed
    · obtain ⟨oks, os, hrun⟩ := ih (i + 1) { p with opened := p.opened.erase pool }
      refine ⟨true :: oks, () :: os, (Machine.run_cons_iff _).mpr ⟨_, os, _, rfl, ?_, rfl⟩⟩
      rw [hi, closePool_closed]
      exact hrun
    · obtain ⟨opened, heq, -⟩ := closePool_raised hi p pool
      refine ⟨[false], [()], ?_⟩
      rw [heq]
      rfl

/-- **The coroutine and the function agree**: a `close_pools` alone ends as `closePools` does. -/
theorem closePools_runs (closes : Nat → Closing) (p : Process) :
    ∃ oks os, (closing PgPool).run (closeBegin p.pools) oks =
      some (os, if (closePools closes p).1 then .returned else .raised, (closePools closes p).2.pools) := by
  -- the part after the primary
  have hrest : ∀ q : Process, ∃ oks os, (closing PgPool).run (closeLoop q.pools q.pools.replicas) oks =
      some (os, if (closeRest closes q).1 then .returned else .raised, (closeRest closes q).2.pools) := by
    intro q
    obtain ⟨oks, os, hrun⟩ := closeLoop_runs closes q.pools.replicas 1 q
    obtain ⟨opened, heq, -⟩ := closeReplicas_eq closes q.pools.replicas 1 q
    refine ⟨oks, os, ?_⟩
    rw [hrun]
    unfold closeRest
    rw [heq]
    by_cases hall : ∀ j < q.pools.replicas.length, closes (1 + j) = .closed
    · rw [decide_eq_true hall]
      rfl
    · rw [decide_eq_false hall]
      rfl
  unfold closeBegin closePools
  cases hp : p.pools.primary with
  | none => exact hrest p
  | some pool =>
    by_cases hi : closes 0 = .closed
    · obtain ⟨oks, os, hrun⟩ := hrest ⟨⟨none, p.pools.replicas, p.pools.rr⟩, p.opened.erase pool, p.created⟩
      refine ⟨true :: oks, () :: os, (Machine.run_cons_iff _).mpr ⟨_, os, _, rfl, ?_, rfl⟩⟩
      simp only [hi, closePool_closed]
      exact hrun
    · obtain ⟨opened, heq, -⟩ := closePool_raised hi p pool
      refine ⟨[false], [()], ?_⟩
      simp only [heq]
      rfl

end Close

/-! ## Calls beside a close_pools -/

inductive ShutdownMove (ρ : Type) where
  | lookup (a : LookupMove ρ)
  | close
  | closed (ok : Bool)

/-- The calls, the `close_pools`, and the pools whose close has been called. -/
structure Shutdown (ρ : Type) where
  lookups : Lookups ρ
  close : Close Node
  closings : List Node

namespace Shutdown
variable {ρ : Type}

def init (ρ : Type) (replicaPorts : List Nat) : Shutdown ρ := ⟨.init ρ replicaPorts, .uncalled, []⟩

def closeTo (s : Shutdown ρ) (r : Close Node × Pools Node) : Shutdown ρ :=
  ⟨{ s.lookups with pools := r.2 }, r.1, s.closings ++ r.1.awaits.toList⟩

end Shutdown

/-- Calls `ρ` of `get_replica_pool` with one `close_pools`. -/
def shutdown (ρ : Type) [DecidableEq ρ] (replicaPorts : List Nat) :
    Machine (Shutdown ρ) (ShutdownMove ρ) (Option (LookupEvent ρ)) where
  step s
    | .lookup a => ((lookups ρ replicaPorts).step s.lookups a).map fun r => (r.1, { s with lookups := r.2 })
    | .close =>
      match s.close with
      | .uncalled => some (none, s.closeTo (closeBegin s.lookups.pools))
      | _ => none
    | .closed ok => (s.close.resume s.lookups.pools ok).map fun r => (none, s.closeTo r)

variable {ρ : Type} [DecidableEq ρ] {replicaPorts : List Nat} {s t : Shutdown ρ} {a : ShutdownMove ρ}
  {o : Option (LookupEvent ρ)} {os : List (Option (LookupEvent ρ))} {id : ρ} {n : Nat} {pools : Pools Node}

/-- The end of the await fails a health check, and the call has replicas left to try. -/
def Lookup.triesNext (ok : Bool) : Lookup → Bool
  | .probing p => p.TriesNext ok
  | _ => false

/-- A call that goes on to another replica finds the replica pools. -/
def FindsPools (s : Shutdown ρ) : ShutdownMove ρ → Prop
  | .lookup (.resume id ok) => (s.lookups.calls id).triesNext ok → s.lookups.pools.replicas ≠ []
  | _ => True

instance (s : Shutdown ρ) : DecidablePred (FindsPools s)
  | .lookup (.resume id ok) =>
    inferInstanceAs (Decidable ((s.lookups.calls id).triesNext ok → s.lookups.pools.replicas ≠ []))
  | .lookup (.call _) | .close | .closed _ => inferInstanceAs (Decidable True)

/-- The end of the await completes a successful health check of one of the pools. -/
def Lookup.succeedsOn (pools : List Node) (ok : Bool) : Lookup → Bool
  | .probing p => p.pool ∈ pools ∧ p.verdict ok = some true
  | _ => false

/-- A health check of a pool whose close has been called does not succeed. -/
def FailsOnceClosing (s : Shutdown ρ) : ShutdownMove ρ → Prop
  | .lookup (.resume id ok) => (s.lookups.calls id).succeedsOn s.closings ok = false
  | _ => True

instance (s : Shutdown ρ) : DecidablePred (FailsOnceClosing s)
  | .lookup (.resume id ok) => inferInstanceAs (Decidable ((s.lookups.calls id).succeedsOn s.closings ok = false))
  | .lookup (.call _) | .close | .closed _ => inferInstanceAs (Decidable True)

/-! ## What a step does -/

/-- The close of the pools leaves the list as it is, or empties it. -/
theorem closeLoop_whole {rs : List Node} (h : pools.Whole rs) (rest : List Node) :
    (closeLoop pools rest).2.Whole rs := by
  cases rest with
  | nil => exact Or.inr rfl
  | cons pool rest => exact h

theorem closeBegin_whole {rs : List Node} (h : pools.Whole rs) : (closeBegin pools).2.Whole rs := by
  unfold closeBegin
  cases pools.primary with
  | none => exact closeLoop_whole h _
  | some pool => exact h

theorem close_resume_whole {rs : List Node} {c : Close Node} {ok : Bool} {r : Close Node × Pools Node}
    (h : pools.Whole rs) (hr : c.resume pools ok = some r) : r.2.Whole rs := by
  have hprimary : Pools.Whole rs { pools with primary := none } := h.imp_left fun hf => ⟨hf.replicas, hf.rr⟩
  cases c with
  | uncalled | returned | raised => cases hr
  | primary pool =>
    cases ok with
    | true =>
      cases hr
      exact closeLoop_whole hprimary _
    | false =>
      cases hr
      exact h
  | replica pool rest =>
    cases ok with
    | true =>
      cases hr
      exact closeLoop_whole h rest
    | false =>
      cases hr
      exact h

/-- A step is one of a call, or leaves the calls alone and the pools whole. -/
theorem shutdown_cases (h : Guarded n s.lookups) (hs : (shutdown ρ replicaPorts).step s a = some (o, t)) :
    (∃ b, a = .lookup b ∧ (lookups ρ replicaPorts).step s.lookups b = some (o, t.lookups)) ∨
      ((∀ b, a ≠ .lookup b) ∧ t.lookups.calls = s.lookups.calls ∧ t.lookups.pools.Whole (replicas n)) := by
  cases a with
  | lookup b =>
    obtain ⟨⟨o', l⟩, hb, he⟩ := Option.map_eq_some_iff.mp hs
    cases he
    exact Or.inl ⟨b, rfl, hb⟩
  | close =>
    refine Or.inr ⟨fun b hb => (by cases hb), ?_⟩
    simp only [shutdown] at hs
    split at hs
    · cases hs
      exact ⟨rfl, closeBegin_whole h.pools⟩
    · cases hs
  | closed ok =>
    refine Or.inr ⟨fun b hb => (by cases hb), ?_⟩
    obtain ⟨r, hr, he⟩ := Option.map_eq_some_iff.mp hs
    cases he
    exact ⟨rfl, close_resume_whole h.pools hr⟩

theorem guarded_shutdown (hports : replicaPorts.length = n) (h : Guarded n s.lookups)
    (hs : (shutdown ρ replicaPorts).step s a = some (o, t)) : Guarded n t.lookups := by
  rcases shutdown_cases h hs with ⟨b, -, hb⟩ | ⟨-, hcalls, hpools⟩
  · exact guarded_step hports h hb
  · exact ⟨hpools, fun id => hcalls ▸ h.calls id⟩

def ShutdownMove.resumes (id : ρ) : ShutdownMove ρ → Bool
  | .lookup b => b.resumes id
  | .close | .closed _ => false

theorem rank_shutdown (hports : replicaPorts.length = n) (h : Guarded n s.lookups)
    (hs : (shutdown ρ replicaPorts).step s a = some (o, t)) (id : ρ) :
    (t.lookups.calls id).rank n + (if a.resumes id then 1 else 0) ≤ (s.lookups.calls id).rank n := by
  rcases shutdown_cases h hs with ⟨b, rfl, hb⟩ | ⟨ha, hcalls, -⟩
  · exact rank_lookups hports h hb id
  · have hno : a.resumes id = false := by
      cases a with
      | lookup b => exact absurd rfl (ha b)
      | close | closed _ => rfl
    rw [hcalls, hno]
    exact le_rfl

/-! ## Divisions by zero -/

/-- The call has divided by zero. -/
def Lookup.Divided (l : Lookup) : Prop := l = .raised .zeroDivisionError

/-- The first part of a call divides by nothing. -/
theorem getReplicaPool_not_divided (h : pools.Whole (replicas n)) :
    ¬(Lookup.next (getReplicaPool pools).1).Divided := by
  rcases (getReplicaPool_whole h).2 with ⟨p, hp, -⟩ | hp
  · rw [hp]
    exact fun he => by cases he
  · rw [hp]
    rcases getPrimaryPool_cases pools with ⟨pool, hp⟩ | hp
    · rw [hp]
      exact fun he => by cases he
    · rw [hp]
      exact fun he => by cases he

/-- A resumed call divides by zero exactly if it goes on to another replica and finds no pools. -/
theorem resume_divided_iff {p : Probe Node} (h : pools.Whole (replicas n)) (hports : replicaPorts.length = n)
    (hp : p.InRound (replicas n)) (ok : Bool) :
    (Lookup.next (p.resume pools replicaPorts ok)).Divided ↔ p.TriesNext ok ∧ pools.replicas = [] := by
  have hports' : replicaPorts.length = (replicas n).length := by rw [hports, length_replicas]
  rcases resume_whole h hports' hp ok with ⟨hnot, ⟨q, hq, -⟩ | ⟨pool, hq⟩ | hq⟩ | ⟨hyes, hq⟩
  · rw [hq]
    exact iff_of_false (fun he => by cases he) hnot
  · rw [hq]
    exact iff_of_false (fun he => by cases he) hnot
  · rw [hq]
    exact iff_of_false (fun he => by cases he) hnot
  · rw [hq]
    exact iff_of_true rfl hyes

/-- Some call has divided by zero. -/
def Divides (s : Shutdown ρ) : Prop := ∃ id, (s.lookups.calls id).Divided

theorem divides_begins (hports : replicaPorts.length = n) (h : Guarded n s.lookups) (hfinds : ¬FindsPools s a)
    (hs : (shutdown ρ replicaPorts).step s a = some (o, t)) : Divides t := by
  cases a with
  | close | closed _ => exact absurd trivial hfinds
  | lookup b =>
    cases b with
    | call _ => exact absurd trivial hfinds
    | resume id ok =>
      obtain ⟨htries, hnil⟩ := Classical.not_imp.mp hfinds
      obtain ⟨⟨o', l⟩, hb, he⟩ := Option.map_eq_some_iff.mp hs
      cases he
      obtain ⟨p, hcall, -, rfl⟩ := resume_eq hb
      have hround := h.calls id
      rw [hcall] at hround htries
      refine ⟨id, ?_⟩
      show ((s.lookups.goto id _).calls id).Divided
      rw [calls_goto, resume_divided_iff h.pools hports hround]
      exact ⟨of_decide_eq_true htries, not_not.mp hnil⟩

/-- A call that has divided by zero is over. -/
theorem divides_stays (h : Guarded n s.lookups) (hdiv : Divides s)
    (hs : (shutdown ρ replicaPorts).step s a = some (o, t)) : Divides t := by
  obtain ⟨id, hid⟩ := hdiv
  refine ⟨id, ?_⟩
  rcases shutdown_cases h hs with ⟨b, rfl, hb⟩ | ⟨-, hcalls, -⟩
  · rcases calls_step hb id with ⟨hsame, -⟩ | ⟨hcall, -, -⟩ | ⟨p, ok, -, hcall, -⟩
    · rw [hsame]
      exact hid
    · rw [hcall] at hid
      cases hid
    · rw [hcall] at hid
      cases hid
  · rw [hcalls]
    exact hid

theorem not_divides_step (hports : replicaPorts.length = n) (h : Guarded n s.lookups) (hno : ¬Divides s)
    (hfinds : FindsPools s a) (hs : (shutdown ρ replicaPorts).step s a = some (o, t)) : ¬Divides t := by
  rintro ⟨id, hid⟩
  have hold : ¬(s.lookups.calls id).Divided := fun hd => hno ⟨id, hd⟩
  rcases shutdown_cases h hs with ⟨b, rfl, hb⟩ | ⟨-, hcalls, -⟩
  · rcases calls_step hb id with ⟨hsame, -⟩ | ⟨-, -, hcalls⟩ | ⟨p, ok, rfl, hcall, hcalls⟩
    · rw [hsame] at hid
      exact hold hid
    · rw [hcalls] at hid
      exact getReplicaPool_not_divided h.pools hid
    · have hround := h.calls id
      rw [hcall] at hround
      rw [hcalls, resume_divided_iff h.pools hports hround] at hid
      refine hfinds ?_ hid.2
      rw [hcall]
      exact decide_eq_true hid.1
  · rw [hcalls] at hid
    exact hold hid

/-! ## Runs -/

/-- The calls return a pool, or raise the assertion. -/
def Shutdown.Safe (s : Shutdown ρ) : Prop := ∀ id e, s.lookups.calls id = .raised e → e = notInitialized

omit [DecidableEq ρ] in
theorem safe_iff_not_divides (h : Guarded n s.lookups) : s.Safe ↔ ¬Divides s := by
  constructor
  · rintro hsafe ⟨id, hid⟩
    have he := hsafe id _ hid
    cases he
  · intro hno id e he
    have hok := h.calls id
    rw [he] at hok
    rcases hok with hok | rfl
    · exact hok
    · exact absurd ⟨id, he⟩ hno

theorem guarded_run {moves : List (ShutdownMove ρ)}
    (h : (shutdown ρ replicaPorts).run (.init ρ replicaPorts) moves = some (os, s)) :
    Guarded replicaPorts.length s.lookups :=
  Machine.run_invariant (M := shutdown ρ replicaPorts) (P := fun s => Guarded replicaPorts.length s.lookups)
    (guarded_shutdown rfl) (guarded_init replicaPorts) h

theorem along_findsPools {moves : List (ShutdownMove ρ)}
    (h : (shutdown ρ replicaPorts).run (.init ρ replicaPorts) moves = some (os, s)) (hsafe : s.Safe) :
    (shutdown ρ replicaPorts).Along FindsPools (.init ρ replicaPorts) moves :=
  Machine.along_of_not_doomed (M := shutdown ρ replicaPorts) (B := Divides) (R := fun _ _ => True)
    (P := fun s => Guarded replicaPorts.length s.lookups) (fun hP _ hs => guarded_shutdown rfl hP hs)
    (fun hP hQ hs => divides_begins rfl hP hQ hs) (fun hP hB _ hs => divides_stays hP hB hs)
    (guarded_init replicaPorts) h ((safe_iff_not_divides (guarded_run h)).mp hsafe)
    (Machine.along_of_forall fun _ _ _ => trivial)

omit [DecidableEq ρ] in
/-- With one replica no call goes on to another. -/
theorem findsPools_of_one (hone : n ≤ 1) (h : Guarded n s.lookups) : FindsPools s a := by
  cases a with
  | close | closed _ => exact trivial
  | lookup b =>
    cases b with
    | call _ => exact trivial
    | resume id ok =>
      intro htries
      have hok := h.calls id
      cases hcall : s.lookups.calls id with
      | uncalled | returned _ | raised _ =>
        rw [hcall] at htries
        cases htries
      | probing p =>
        rw [hcall] at htries hok
        obtain ⟨-, hlt⟩ := of_decide_eq_true htries
        rw [hok.bound, length_replicas] at hlt
        omega

/-- **When shutting down is safe for the calls.** In a run of calls of `get_replica_pool` beside a `close_pools`,
whatever the health checks and the closes come to, a call returns a pool or raises the assertion exactly if every call
that goes on to another replica finds the replica pools; with one replica it always does. In every run there is no error
but these two that a call raises, a call is suspended at most `3 * n` times, and a suspended call can go on. -/
theorem lookups_safe_iff (replicaPorts : List Nat) (moves : List (ShutdownMove ρ))
    (os : List (Option (LookupEvent ρ))) (s : Shutdown ρ)
    (h : (shutdown ρ replicaPorts).run (.init ρ replicaPorts) moves = some (os, s)) :
    (s.Safe ↔ (shutdown ρ replicaPorts).Along FindsPools (.init ρ replicaPorts) moves) ∧
    (replicaPorts.length ≤ 1 → s.Safe) ∧
    (∀ id e, s.lookups.calls id = .raised e → e = notInitialized ∨ e = .zeroDivisionError) ∧
    (∀ id, moves.countP (·.resumes id) ≤ 3 * replicaPorts.length) ∧
    ∀ id p, s.lookups.calls id = .probing p →
      ∀ ok, ∃ r, (shutdown ρ replicaPorts).step s (.lookup (.resume id ok)) = some r := by
  have hguarded := guarded_run h
  have hsafe : (shutdown ρ replicaPorts).Along FindsPools (.init ρ replicaPorts) moves → s.Safe := by
    intro hfinds
    refine (safe_iff_not_divides hguarded).mpr (Machine.run_invariant_along (M := shutdown ρ replicaPorts)
      (P := fun s => Guarded replicaPorts.length s.lookups ∧ ¬Divides s) ?_ ⟨guarded_init replicaPorts, ?_⟩ hfinds h).2
    · exact fun hP hQ hs => ⟨guarded_shutdown rfl hP.1 hs, not_divides_step rfl hP.1 hP.2 hQ hs⟩
    · rintro ⟨id, hid⟩
      cases hid
  refine ⟨⟨along_findsPools h, hsafe⟩, fun hone => hsafe ?_, fun id e he => ?_, fun id => ?_, fun id p hp ok => ?_⟩
  · exact Machine.along_of_invariant (M := shutdown ρ replicaPorts) (Q := fun _ _ => True)
      (P := fun s => Guarded replicaPorts.length s.lookups) (fun hP _ hs => guarded_shutdown rfl hP hs)
      (fun hP _ => findsPools_of_one hone hP) (guarded_init replicaPorts) (Machine.along_of_forall fun _ _ _ => trivial)
  · have hok := hguarded.calls id
    rwa [he] at hok
  · have hle := Machine.run_rank (M := shutdown ρ replicaPorts) (P := fun s => Guarded replicaPorts.length s.lookups)
      (r := fun s => (s.lookups.calls id).rank replicaPorts.length) (p := (·.resumes id)) (guarded_shutdown rfl)
      (fun hP hs => rank_shutdown rfl hP hs id) (guarded_init replicaPorts) h
    have hrank : ((Shutdown.init ρ replicaPorts).lookups.calls id).rank replicaPorts.length =
      3 * replicaPorts.length := rfl
    omega
  · simp only [shutdown, lookups, hp, Option.map_some]
    exact ⟨_, rfl⟩

/-- The health check of call 0 fails after the pools are gone, in its last round; call 1 begins after that. -/
theorem lookups_safe_iff_example :
    ∃ os s, (shutdown Nat [5433, 5434]).run (.init Nat [5433, 5434])
        [.lookup (.call 0), .lookup (.resume 0 false), .close, .closed true, .closed true, .closed true,
          .lookup (.resume 0 false), .lookup (.call 1)] = some (os, s) ∧ s.Safe := by
  have hrun : ((shutdown Nat [5433, 5434]).run (.init Nat [5433, 5434]) [.lookup (.call 0), .lookup (.resume 0 false),
      .close, .closed true, .closed true, .closed true, .lookup (.resume 0 false), .lookup (.call 1)]).isSome := by
    decide +kernel
  obtain ⟨⟨os, s⟩, h⟩ := Option.isSome_iff_exists.mp hrun
  exact ⟨os, s, h, (lookups_safe_iff _ _ os s h).1.mpr (by decide +kernel)⟩

/-- The health check of call 0 outlives the pools, and fails when the list is empty: the next round divides by zero. -/
theorem probe_outlives_pools : ¬∀ (replicaPorts : List Nat) (moves : List (ShutdownMove Nat))
    (os : List (Option (LookupEvent Nat))) (s : Shutdown Nat), 1 ≤ replicaPorts.length →
    (shutdown Nat replicaPorts).run (.init Nat replicaPorts) moves = some (os, s) →
    (shutdown Nat replicaPorts).Along FailsOnceClosing (.init Nat replicaPorts) moves → s.Safe := by
  intro hall
  have hrun : ((shutdown Nat [5433, 5434]).run (.init Nat [5433, 5434]) [.lookup (.call 0), .close, .closed true,
      .closed true, .closed true, .lookup (.resume 0 false)]).isSome := by decide +kernel
  obtain ⟨⟨os, s⟩, h⟩ := Option.isSome_iff_exists.mp hrun
  exact absurd (along_findsPools h (hall _ _ os s (by decide) h (by decide +kernel))) (by decide +kernel)

end TheGrind.KvStore
