import TheGrind.KvStore.Replication

/-!
# Reads that do not go back

A replica only moves on along the primary's history, and the primary is ahead of all of them. So default GETs, one after
the other, go back to an older table only where the round-robin changes the replica (`reads_monotonic`).
-/

namespace TheGrind.KvStore
open TheGrind.Transition

variable {ρ : Type} [DecidableEq ρ] {batch n : Nat} {s : Replicated ρ} {os : List Effect} {k₁ k₂ : Nat} {key : String}
  {e e' : Effect}

/-- No node is ahead of the primary. -/
theorem position_le_primary (h : Recorded batch n os s) (node : Node) : s.position node ≤ s.position .primary := by
  cases node with
  | primary => exact le_refl _
  | replica i => exact Nat.le_sub_one_of_lt (List.getElem?_eq_some_iff.mp (h.replicas i)).1

/-- The last write of a key in a longer part of a run is not before the one in a shorter part. -/
theorem last_write_mono {l₁ l₁' l₂ l₂' : List Effect} (hk : k₁ ≤ k₂) (h₁ : os.take k₁ = l₁ ++ e :: l₁')
    (h₂ : os.take k₂ = l₂ ++ e' :: l₂') (he : e.writes key) (hlast : ∀ o ∈ l₂', ¬o.writes key) :
    l₁.length ≤ l₂.length := by
  by_contra hlt
  have hlong : (l₂ ++ e' :: l₂')[l₁.length]? = some e := by
    have hshort : (os.take k₁)[l₁.length]? = some e := by rw [h₁, List.getElem?_append_right le_rfl, Nat.sub_self]; rfl
    rw [← Nat.min_eq_left hk, ← List.take_take, h₂, List.getElem?_take] at hshort
    exact (Option.ite_none_right_eq_some.mp hshort).2
  obtain ⟨d, hd⟩ := Nat.exists_eq_add_of_lt (Nat.lt_of_not_le hlt)
  rw [hd, List.getElem?_append_right (by omega), show l₂.length + d + 1 - l₂.length = d + 1 by omega,
    List.getElem?_cons_succ] at hlong
  exact hlast e (List.mem_of_getElem? hlong) he

/-- **Reads of a node do not go back.** One GET with `consistent=false` has been answered when another one begins, which
is answered by the same node, or by the primary. Then the second answers as a consistent GET would have answered at a
point of the primary's run that is not before the first one's, at a reading that is not before its reading; and if both
show a value of one key, the second's was not stored before the first's. -/
theorem reads_monotonic (batch : Nat) (replicaPorts : List Nat) (moves₀ moves₁ moves₂ : List (ReplicatedMove ρ))
    (es₀ es₁ es₂ : List (ReplicatedEvent ρ)) (s₀ s₁ s₂ : Replicated ρ) (id₁ id₂ : ρ) (key₁ key₂ : String)
    (node₁ node₂ : Node) (answer₁ answer₂ : Response)
    (h₀ : (replicated ρ batch replicaPorts).run (.init ρ replicaPorts) moves₀ = some (es₀, s₀))
    (hidle₁ : s₀.cluster.reads id₁ = .idle)
    (h₁ : (replicated ρ batch replicaPorts).run s₀ moves₁ = some (es₁, s₁))
    (ha₁ : .read (some (.answered id₁ key₁ node₁ answer₁)) ∈ es₁)
    (hidle₂ : s₁.cluster.reads id₂ = .idle)
    (h₂ : (replicated ρ batch replicaPorts).run s₁ moves₂ = some (es₂, s₂))
    (ha₂ : .read (some (.answered id₂ key₂ node₂ answer₂)) ∈ es₂)
    (hnode : node₂ = node₁ ∨ node₂ = .primary) :
    ∃ (k₁ k₂ : Nat) (now₁ now₂ : Int) (table₁ table₂ : Store), k₁ ≤ k₂ ∧ now₁ ≤ now₂ ∧
      Past (ρ := ρ) batch ((effects (es₀ ++ es₁ ++ es₂)).take k₁) table₁ ∧
      Past (ρ := ρ) batch ((effects (es₀ ++ es₁ ++ es₂)).take k₂) table₂ ∧
      answer₁ = getKey table₁ now₁ key₁ ∧ answer₂ = getKey table₂ now₂ key₂ ∧
      ∀ key value₁ value₂, answer₁ = .kv key value₁ → answer₂ = .kv key value₂ →
        key₁ = key ∧ key₂ = key ∧ ∃ l₁ o₁ l₁' l₂ o₂ l₂' e₁ e₂,
          (effects (es₀ ++ es₁ ++ es₂)).take k₁ = l₁ ++ o₁ :: l₁' ∧ o₁.Puts key value₁ e₁ ∧
          (effects (es₀ ++ es₁ ++ es₂)).take k₂ = l₂ ++ o₂ :: l₂' ∧ o₂.Puts key value₂ e₂ ∧
          (∀ o ∈ l₁', ¬o.writes key) ∧ (∀ o ∈ l₂', ¬o.writes key) ∧ l₁.length ≤ l₂.length := by
  obtain ⟨hrec₁, -, hseen₁⟩ := watched_run (fun _ => 0) (recorded_run h₀) hidle₁ (fun _ _ => Nat.zero_le _) h₁
  obtain ⟨hrec₂, -, hseen₂⟩ := watched_run s₁.position hrec₁ hidle₂ (fun _ _ => le_rfl) h₂
  obtain ⟨-, ⟨k₁, now₁, table₁, -, hk₁, htable₁, hc₁, hnow₁, rfl⟩, rfl⟩ := hseen₁ key₁ node₁ answer₁ ha₁
  obtain ⟨-, ⟨k₂, now₂, table₂, hk₂, -, htable₂, hc₂, hnow₂, rfl⟩, rfl⟩ := hseen₂ key₂ node₂ answer₂ ha₂
  have hk : k₁ ≤ k₂ := by
    refine hk₁.trans (le_trans ?_ hk₂)
    rcases hnode with rfl | rfl
    · exact le_rfl
    · exact position_le_primary hrec₁ node₁
  have hpast₁ : Past (ρ := ρ) batch ((effects (es₀ ++ es₁ ++ es₂)).take k₁) table₁ := by
    have hlen := (List.getElem?_eq_some_iff.mp htable₁).1
    rw [hrec₁.length] at hlen
    rw [effects_append, List.take_append_of_le_length (by omega)]
    exact hrec₁.past k₁ table₁ htable₁
  have hpast₂ := hrec₂.past k₂ table₂ htable₂
  have hclock : 0 ≤ s₀.primary.clock := by
    obtain ⟨moves, hrun⟩ := (recorded_run h₀).run
    exact (inv_attributed_run hrun).1.clock_nonneg
  refine ⟨k₁, k₂, now₁, now₂, table₁, table₂, hk, hnow₁.trans hc₂, hpast₁, hpast₂, rfl, rfl, ?_⟩
  intro key value₁ value₂ hvalue₁ hvalue₂
  obtain ⟨rfl, l₁, o₁, e₁, l₁', htake₁, hput₁, hlast₁, -⟩ := last_write_of_past hpast₁ (hclock.trans hc₁) hvalue₁
  obtain ⟨rfl, l₂, o₂, e₂, l₂', htake₂, hput₂, hlast₂, -⟩ :=
    last_write_of_past hpast₂ (hclock.trans (hc₁.trans (hnow₁.trans hc₂))) hvalue₂
  refine ⟨rfl, rfl, l₁, o₁, l₁', l₂, o₂, l₂', e₁, e₂, htake₁, hput₁, htake₂, hput₂, hlast₁, hlast₂, ?_⟩
  exact last_write_mono hk htake₁ htake₂ hput₁.writes hlast₂

/-- A key is read from a replica, put again, and read from the primary, the replica having become unreachable. -/
theorem reads_monotonic_example :
    let moves₀ : List (ReplicatedMove Bool) :=
      [.primary (.readPut true "k" ⟨"v", none⟩), .primary (.execute true), .replay 0 2]
    let moves₁ : List (ReplicatedMove Bool) :=
      [.get false "k", .resume false true, .resume false true, .resume false true, .resume false true,
        .resume false true, .resume false true]
    let moves₂ : List (ReplicatedMove Bool) :=
      [.primary (.readPut true "k" ⟨"w", none⟩), .primary (.execute true), .get true "k", .resume true false,
        .resume true true, .resume true true, .resume true true]
    let es₀ : List (ReplicatedEvent Bool) := [.primary .silent, .primary (.put "k" "v" 0 (.kv "k" "v")), .replayed]
    let es₁ : List (ReplicatedEvent Bool) :=
      [.read none, .read none, .read none, .read none, .read none, .read none,
        .read (some (.answered false "k" (.replica 0) (.kv "k" "v")))]
    let es₂ : List (ReplicatedEvent Bool) :=
      [.primary .silent, .primary (.put "k" "w" 0 (.kv "k" "w")), .read none, .read none, .read none, .read none,
        .read (some (.answered true "k" .primary (.kv "k" "w")))]
    ∃ s₀ s₁ s₂, (replicated Bool cleanupBatchSize [5433]).run (.init Bool [5433]) moves₀ = some (es₀, s₀) ∧
      (replicated Bool cleanupBatchSize [5433]).run s₀ moves₁ = some (es₁, s₁) ∧
      (replicated Bool cleanupBatchSize [5433]).run s₁ moves₂ = some (es₂, s₂) ∧
      ∃ (k₁ k₂ : Nat) (now₁ now₂ : Int) (table₁ table₂ : Store), k₁ ≤ k₂ ∧ now₁ ≤ now₂ ∧
        Response.kv "k" "v" = getKey table₁ now₁ "k" ∧ Response.kv "k" "w" = getKey table₂ now₂ "k" := by
  intro moves₀ moves₁ moves₂ es₀ es₁ es₂
  refine ⟨_, _, _, rfl, rfl, rfl, ?_⟩
  obtain ⟨k₁, k₂, now₁, now₂, table₁, table₂, hk, hnow, -, -, h₁, h₂, -⟩ :=
    reads_monotonic cleanupBatchSize [5433] moves₀ moves₁ moves₂ es₀ es₁ es₂ _ _ _ false true "k" "k" (.replica 0)
      .primary (.kv "k" "v") (.kv "k" "w") rfl rfl rfl (by decide) rfl rfl (by decide) (.inr rfl)
  exact ⟨k₁, k₂, now₁, now₂, table₁, table₂, hk, hnow, h₁, h₂⟩

end TheGrind.KvStore
