import TheGrind.KvStore.Failover

/-!
# The load share of each replica

Calls of `get_replica_pool` that find the same replicas healthy, and no other. Their walks around the ring all end where
they first meet that set, so who serves them is a matter of where they start; `n` calls that follow each other on the
round-robin start at `n` successive places.

* `Finds` : a finished call that found the replicas in `H` healthy, and no other;
* `Walk.lands` : it returned the replica where its walk first meets `H`;
* `load_share` : how many of `n` such calls each replica serves.
-/

namespace TheGrind.KvStore
open TheGrind.Data TheGrind.Transition

def Lookup.pool? : Lookup → Option Node
  | .returned pool => some pool
  | _ => none

variable {ρ : Type} [DecidableEq ρ] {replicaPorts : List Nat} {s : Lookups ρ}
  {os : List (Option (LookupEvent ρ))} {n c : Nat} {H : Finset Nat}

/-- The pool that the call has returned that advanced the round-robin as the `c`-th. -/
def served (os : List (Option (LookupEvent ρ))) (s : Lookups ρ) (c : Nat) : Option Node :=
  ((advances os)[c]?).bind fun id => (s.calls id).pool?

/-- The call that advanced the round-robin as the `c`-th is over, and each of its health checks found the replica
healthy if it is in `H` and not otherwise. -/
def Finds (H : Finset Nat) (os : List (Option (LookupEvent ρ))) (s : Lookups ρ) (c : Nat) : Prop :=
  ∃ id, (advances os)[c]? = some id ∧ (∀ p, s.calls id ≠ .probing p) ∧
    ∀ probe ∈ probes id os, probe.2 = true ↔ probe.1 ∈ H

/-- A walk that is over, over replicas of which just those in `H` are healthy, ended where it first meets `H`. -/
theorem Walk.lands {ps : List (Nat × Bool)} {l : Lookup} (h : Walk n c ps l) (hne : H.Nonempty) (hH : ∀ i ∈ H, i < n)
    (hover : ∀ p, l ≠ .probing p) (hps : ∀ probe ∈ ps, probe.2 = true ↔ probe.1 ∈ H) :
    ∃ i, landing n H c = some i ∧ l = .returned (.replica i) := by
  have hout : ∀ {m}, (∀ x ∈ failures n c m, x ∈ ps) → ∀ k < m, (c + k) % n ∉ H := by
    intro m hsub k hk hmem
    have hfail : ((c + k) % n, false) ∈ failures n c m := mem_failures.mpr ⟨rfl, k, hk, rfl⟩
    exact Bool.false_ne_true ((hps _ (hsub _ hfail)).mpr hmem)
  cases h with
  | probing _ _ _ => exact absurd rfl (hover _)
  | @healthy m hm hps' =>
    rw [hps'] at hps hout
    have hin : (c + m) % n ∈ H := (hps (_, true) (by simp)).mp rfl
    exact ⟨_, landing_eq_some_iff.mpr ⟨hin, m, hm, rfl, hout fun x hx => List.mem_append_left _ hx⟩, rfl⟩
  | fallback hps' =>
    rw [hps'] at hout
    obtain ⟨i, hi⟩ := hne
    obtain ⟨k, hk, rfl⟩ := exists_walk (hH i hi) c
    exact absurd hi (hout (fun _ hx => hx) k hk)

theorem Walks.served_eq (h : Walks n os s) (hne : H.Nonempty) (hH : ∀ i ∈ H, i < n) (hc : Finds H os s c) :
    served os s c = (landing n H c).map .replica ∧ ∃ i ∈ H, served os s c = some (.replica i) := by
  obtain ⟨id, hid, hover, hps⟩ := hc
  obtain ⟨i, hland, hcall⟩ := (h.walk c id hid).lands hne hH hover hps
  have hserved : served os s c = some (.replica i) := by
    unfold served
    rw [hid, Option.bind_some, hcall]
    rfl
  rw [hland]
  exact ⟨hserved, i, (landing_eq_some_iff.mp hland).1, hserved⟩

/-- **Load share.** Take any `n` calls that follow each other on the round-robin, at any point of a run, and that all
find the replicas in `H` healthy and no other. Every one of them returns a replica in `H`, and each of these is returned
by one of them and by as many more as there are replicas outside `H` just before it. -/
theorem load_share (replicaPorts : List Nat) (moves : List (LookupMove ρ)) (os : List (Option (LookupEvent ρ)))
    (s : Lookups ρ) (h : (lookups ρ replicaPorts).run (.init ρ replicaPorts) moves = some (os, s)) (H : Finset Nat)
    (hne : H.Nonempty) (hH : ∀ i ∈ H, i < replicaPorts.length) (c₀ : Nat)
    (hfinds : ∀ c ∈ Finset.Ico c₀ (c₀ + replicaPorts.length), Finds H os s c) :
    (∀ i ∈ H, ((Finset.Ico c₀ (c₀ + replicaPorts.length)).filter fun c => served os s c = some (.replica i)).card =
      1 + gap replicaPorts.length H i) ∧
    ∀ c ∈ Finset.Ico c₀ (c₀ + replicaPorts.length), ∃ i ∈ H, served os s c = some (.replica i) := by
  have hw := walks_run h
  refine ⟨fun i hi => ?_, fun c hc => (hw.served_eq hne hH (hfinds c hc)).2⟩
  rw [Nat.add_comm 1, ← card_landing hi (hH i hi) c₀]
  congr 1
  apply Finset.filter_congr
  intro c hc
  rw [(hw.served_eq hne hH (hfinds c hc)).1]
  cases landing replicaPorts.length H c <;> simp

/-- Replica 0 is down, so both of two calls go to replica 1. -/
theorem load_share_example :
    ∃ s, (lookups Nat [5433, 5434]).run (.init Nat [5433, 5434])
        [.call 0, .call 1, .resume 0 false, .resume 0 true, .resume 1 true, .resume 0 true, .resume 0 true,
          .resume 1 true, .resume 1 true] =
      some ([some (.advanced 0), some (.advanced 1), some (.probed 0 0 false), none, none, none,
        some (.probed 0 1 true), none, some (.probed 1 1 true)], s) ∧
      ((Finset.Ico 0 2).filter fun c => served [some (.advanced 0), some (.advanced 1), some (.probed 0 0 false), none,
        none, none, some (.probed 0 1 true), none, some (.probed 1 1 true)] s c = some (.replica 1)).card = 2 := by
  obtain ⟨s, h⟩ := Machine.exists_run (lookups Nat [5433, 5434]) (s := .init Nat [5433, 5434])
    (show ((lookups Nat [5433, 5434]).run (.init Nat [5433, 5434])
      [.call 0, .call 1, .resume 0 false, .resume 0 true, .resume 1 true, .resume 0 true, .resume 0 true,
        .resume 1 true, .resume 1 true]).map Prod.fst =
      some [some (.advanced 0), some (.advanced 1), some (.probed 0 0 false), none, none, none,
        some (.probed 0 1 true), none, some (.probed 1 1 true)] by decide +kernel)
  have hw := walks_run h
  have h₀ : s.calls 0 = .returned (.replica 1) := ((hw.walk 0 0 (by decide)).returned_replica_iff 1).mpr (by decide)
  have h₁ : s.calls 1 = .returned (.replica 1) := ((hw.walk 1 1 (by decide)).returned_replica_iff 1).mpr (by decide)
  have hshare := (load_share [5433, 5434] _ _ s h {1} (by decide) (by decide) 0 fun c hc => ?_).1 1 (by decide)
  · exact ⟨s, h, hshare.trans (by decide)⟩
  obtain rfl | rfl : c = 0 ∨ c = 1 := by
    have hlt : c < 2 := by simpa using hc
    omega
  · exact ⟨0, by decide, fun p he => (by rw [h₀] at he; cases he), by decide⟩
  · exact ⟨1, by decide, fun p he => (by rw [h₁] at he; cases he), by decide⟩

end TheGrind.KvStore
