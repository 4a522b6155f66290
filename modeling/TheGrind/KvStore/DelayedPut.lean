import TheGrind.KvStore.Interleaved

/-!
# A PUT that waits for its connection

`put_key` reads the clock before it waits for a connection, and its UPSERT stores the deadline of that reading. The
seconds of the wait are gone from the ttl when the write takes effect: a client can rely on what is left of it
(`reliable_iff`), and so on the whole ttl exactly if the clock did not move during the wait (`ttl_relied_on_iff`). It
can rely on nothing if its key was cut (`not_reliable_of_long`).

* `Reliable` : what a client relies on for some seconds after its write;
* `waiting_run` : a PUT that waits keeps the deadline it has computed.
-/

namespace TheGrind.KvStore
open TheGrind.Data TheGrind.Transition

variable {ρ : Type} [DecidableEq ρ] {batch : Nat} {s t : Primary ρ} {a : Move ρ} {o : Effect} {id : ρ}
  {key value : String} {expireAt n : Int}

/-- A PUT or DELETE statement on the row of `key`, whatever came of it. -/
def Effect.on (key : String) : Effect → Prop
  | .put requested _ _ _ => storedKey requested = some key
  | .delete k _ _ => k = key
  | .get _ _ _ | .silent => False

instance (key : String) : DecidablePred (Effect.on key)
  | .put requested _ _ _ => inferInstanceAs (Decidable (storedKey requested = some key))
  | .delete k _ _ => inferInstanceAs (Decidable (k = key))
  | .get _ _ _ | .silent => inferInstanceAs (Decidable False)

theorem Effect.on_of_writes (h : o.writes key) : o.on key := by
  cases o with
  | put k v e answer => exact h.1
  | delete k now answer => exact h.1
  | get _ _ _ | silent => exact h

/-- From `s` on, until another PUT or DELETE statement on `key` runs, every consistent GET of `key` that reads the clock
and runs its statement within `n` seconds returns `value`. -/
def Reliable (batch : Nat) (key value : String) (n : Int) (s : Primary ρ) : Prop :=
  ∀ (moves : List (Move ρ)) (os : List Effect) (id : ρ) (now : Int) (answer : Response) (t t' : Primary ρ),
    (primary ρ batch).run s moves = some (os, t) → (∀ o ∈ os, ¬o.on key) →
    (primary ρ batch).step t (.execute id) = some (.get key now answer, t') →
    s.clock ≤ now → now ≤ s.clock + n - 1 → t.clock ≤ s.clock + n - 1 → answer = .kv key value

/-! ## The wait -/

/-- A PUT that waits for its connection keeps the deadline it has computed. -/
theorem waiting_step (h : s.tasks id = .put key value expireAt) (ha : a ≠ .execute id)
    (hs : (primary ρ batch).step s a = some (o, t)) : t.tasks id = .put key value expireAt := by
  -- a task that moves otherwise is not at this point
  have hother : ∀ {id' : ρ} {task : Task} {store : Store}, s.tasks id' ≠ .put key value expireAt →
      (s.resume id' task store).tasks id = .put key value expireAt := by
    intro id' task store hne
    have hid : id ≠ id' := fun he => hne (he ▸ h)
    show Function.update s.tasks id' task id = _
    rw [Function.update_of_ne hid, h]
  have hread : ∀ {id' : ρ} {task : Task}, s.read id' task = some (o, t) → t.tasks id = .put key value expireAt := by
    intro id' task hr
    unfold Primary.read at hr
    split at hr
    · next hidle =>
      cases hr
      exact hother (by rw [hidle]; exact Task.noConfusion)
    · cases hr
  cases a with
  | tick now =>
    simp only [primary] at hs
    split at hs
    · cases hs
      exact h
    · cases hs
  | readPut _ _ _ => exact hread hs
  | readGet _ _ => exact hread hs
  | readDelete _ _ => exact hread hs
  | readCleanup _ => exact hread hs
  | execute id' =>
    have hid : id ≠ id' := fun he => ha (he ▸ rfl)
    obtain ⟨store, rfl⟩ := execute_resumes hs
    show Function.update s.tasks id' .idle id = _
    rw [Function.update_of_ne hid, h]
  | select _ _ =>
    obtain ⟨-, rfl, now, htask, -⟩ := select_eq_some hs
    exact hother (by rw [htask]; exact Task.noConfusion)
  | deleteNext _ =>
    obtain ⟨-, ⟨htask, rfl⟩ | ⟨c, cs, htask, rfl⟩⟩ := deleteNext_eq_some hs
    · exact hother (by rw [htask]; exact Task.noConfusion)
    · exact hother (by rw [htask]; exact Task.noConfusion)

theorem waiting_run {moves : List (Move ρ)} {os : List Effect} (h : s.tasks id = .put key value expireAt)
    (hwait : .execute id ∉ moves) (hrun : (primary ρ batch).run s moves = some (os, t)) :
    t.tasks id = .put key value expireAt ∧ s.clock ≤ t.clock :=
  Machine.run_invariant_along (M := primary ρ batch) (Q := fun _ a => a ≠ .execute id)
    (P := fun t => t.tasks id = .put key value expireAt ∧ s.clock ≤ t.clock)
    (fun hP ha hs => ⟨waiting_step hP.1 ha hs, le_trans hP.2 (step_change hs).clock_le⟩) ⟨h, le_refl _⟩
    (Machine.along_of_forall fun _ hmem _ he => hwait (he ▸ hmem)) hrun

/-! ## The write -/

/-- The UPSERT of a PUT that was answered with success. -/
theorem execute_waiting (h : s.tasks id = .put key value expireAt)
    (hs : (primary ρ batch).step s (.execute id) = some (.put key value n (.kv key value), t)) :
    n = expireAt ∧ t.clock = s.clock ∧ t.tasks id = .idle ∧ ∃ k : Varchar keyMaxLength,
      Varchar.assign keyMaxLength key = some k ∧ t.store = s.store.write k value expireAt := by
  have hexec : s.execute id = some (.put key value n (.kv key value), t) := hs
  unfold Primary.execute at hexec
  rw [h] at hexec
  rcases putStatement_cases s.store key value expireAt with ⟨k, hk, hc⟩ | hc
  · simp only [hc] at hexec
    cases hexec
    exact ⟨rfl, rfl, Function.update_self _ _ _, k, hk, rfl⟩
  · simp only [hc] at hexec
    cases hexec

/-- A task at rest can read a key at any later reading of the clock. -/
theorem exists_read (batch : Nat) (hidle : s.tasks id = .idle) {now : Int} (hnow : s.clock ≤ now) (key : String) :
    ∃ moves os u u', (primary ρ batch).run s moves = some (os, u) ∧ (∀ o ∈ os, ¬o.on key) ∧ u.clock = now ∧
      (primary ρ batch).step u (.execute id) = some (.get key now (getAnswer (s.store.selectLive key now)), u') := by
  let later : Primary ρ := { s with clock := now }
  have htick : (primary ρ batch).step s (.tick now) = some (.silent, later) := if_pos hnow
  have hread : (primary ρ batch).step later (.readGet id key) =
      some (.silent, later.resume id (.get key now) later.store) := if_pos hidle
  have hrun : (primary ρ batch).run s [.tick now, .readGet id key] =
      some ([.silent, .silent], later.resume id (.get key now) later.store) := by
    simp only [Machine.run, htick, Option.bind_some, hread, Option.map_some]
  refine ⟨_, _, _, (later.resume id (.get key now) later.store).resume id .idle later.store, hrun, ?_, rfl, ?_⟩
  · simp [Effect.on]
  · have htask : (later.resume id (.get key now) later.store).tasks id = .get key now := Function.update_self ..
    show Primary.execute _ id = _
    unfold Primary.execute
    rw [htask]
    rfl

/-- What a client relies on, it reads: the task itself can read the key in any of the seconds. -/
theorem Reliable.reads (hrel : Reliable batch key value n s) (hidle : s.tasks id = .idle) {now : Int}
    (hnow : s.clock ≤ now) (hlast : now ≤ s.clock + n - 1) : s.store.selectLive key now = some (key, value) := by
  obtain ⟨moves, os, u, u', hrun, hos, hclock, hget⟩ := exists_read batch hidle hnow key
  have hans := hrel moves os id _ _ u u' hrun hos hget hnow hlast (hclock.le.trans hlast)
  cases hsel : s.store.selectLive key now with
  | none =>
    rw [hsel] at hans
    cases hans
  | some kv =>
    obtain ⟨k, v⟩ := kv
    rw [hsel] at hans
    cases hans
    rfl

/-- A client cannot rely on a write whose key was cut. -/
theorem not_reliable_of_long (hlong : keyMaxLength < key.length) (hidle : s.tasks id = .idle) (hn : 1 ≤ n) :
    ¬Reliable batch key value n s := by
  intro hrel
  have hsel := hrel.reads hidle (le_refl s.clock) (by omega)
  rw [Store.selectLive_of_long hlong] at hsel
  cases hsel

/-- **What is left of the ttl.** A client can rely on its write for as many seconds as its deadline is away. -/
theorem reliable_iff (hi : Inv s) (h : s.tasks id = .put key value expireAt) (hkey : key.length ≤ keyMaxLength)
    (hpos : 0 < expireAt) (hn : 1 ≤ n)
    (hs : (primary ρ batch).step s (.execute id) = some (.put key value expireAt (.kv key value), t)) :
    Reliable batch key value n t ↔ s.clock + n ≤ expireAt := by
  obtain ⟨-, hclock, hidle, k, hk, hstore⟩ := execute_waiting h hs
  obtain rfl := Option.some.inj ((Varchar.assign_of_le hkey).symm.trans hk)
  constructor
  · intro hrel
    by_contra hlt
    -- the row is dead in the last of the seconds
    have hsel := hrel.reads hidle (show t.clock ≤ s.clock + n - 1 by omega) (by omega)
    rw [hstore, Store.selectLive_write, if_pos rfl, if_neg (by omega)] at hsel
    cases hsel
  · intro hle moves os id' now answer u u' hrun hos hget _ _ hu
    refine live_write_survives hi hs ⟨key, rfl, storedKey_of_le hkey⟩ hrun
      (fun o ho hw => hos o ho (Effect.on_of_writes hw)) hget (Or.inr ?_)
    omega

/-- **When a client can rely on the ttl it asked for.** A PUT with a ttl of `n` seconds reads the clock, waits for its
connection while others run, and executes its UPSERT. Until another statement writes the key, every GET within the `n`
seconds from the UPSERT returns its value exactly if the key is not too long and the clock has not moved between the
reading and the UPSERT. -/
theorem ttl_relied_on_iff (batch : Nat) (moves moves' : List (Move ρ)) (os os' : List Effect) (id : ρ)
    (key value : String) (n e : Int) (o : Effect) (s₀ s₁ s₂ s₃ : Primary ρ) (hn : 1 ≤ n)
    (h₀ : (primary ρ batch).run .init moves = some (os, s₀))
    (hread : (primary ρ batch).step s₀ (.readPut id key ⟨value, some n⟩) = some (o, s₁))
    (hwait : (primary ρ batch).run s₁ moves' = some (os', s₂)) (hid : .execute id ∉ moves')
    (hput : (primary ρ batch).step s₂ (.execute id) = some (.put key value e (.kv key value), s₃)) :
    Reliable batch key value n s₃ ↔ key.length ≤ keyMaxLength ∧ s₂.clock = s₀.clock := by
  have hi₀ := (inv_attributed_run h₀).1
  have hi₂ : Inv s₂ := Machine.run_invariant inv_step (inv_step hi₀ hread) hwait
  obtain ⟨-, hs₁⟩ := read_eq_some hread
  have hdeadline : putExpireAt s₀.clock (some n) = s₀.clock + n := putExpireAt_some (by omega) _
  have htask : s₁.tasks id = .put key value (s₀.clock + n) := by
    rw [hs₁, ← hdeadline]
    exact Function.update_self ..
  have hclock : s₁.clock = s₀.clock := by rw [hs₁]; rfl
  obtain ⟨htask₂, hle⟩ := waiting_run htask hid hwait
  obtain ⟨rfl, -, hidle, -⟩ := execute_waiting htask₂ hput
  have hnonneg := hi₀.clock_nonneg
  by_cases hkey : key.length ≤ keyMaxLength
  · rw [reliable_iff hi₂ htask₂ hkey (by omega) hn hput]
    omega
  · exact iff_of_false (not_reliable_of_long (Nat.lt_of_not_le hkey) hidle hn) fun h => hkey h.1

/-- The connection is there at once: the ttl of ten seconds lasts until the fifteenth. -/
theorem ttl_relied_on_iff_example :
    ∃ os s, (primary Nat cleanupBatchSize).run .init
        [.tick 5, .readPut 0 "k" ⟨"v", some 10⟩, .readGet 1 "k", .execute 1, .execute 0] = some (os, s) ∧
      s.clock = 5 ∧ Reliable cleanupBatchSize "k" "v" 10 s :=
  ⟨_, _, rfl, by rfl, (ttl_relied_on_iff cleanupBatchSize [.tick 5] [.readGet 1 "k", .execute 1] _ _ 0 "k" "v" 10 15
    _ _ _ _ _ (by decide) rfl rfl rfl (by simp) rfl).mpr ⟨by decide, by rfl⟩⟩

/-- The PUT waits from 5 to 8 for its connection, and the GET at 15 finds nothing, seven seconds after the UPSERT. -/
theorem ttl_shortened_by_wait : ¬∀ (batch : Nat) (moves moves' : List (Move Nat)) (os os' : List Effect) (id : Nat)
    (key value : String) (n e : Int) (o : Effect) (s₀ s₁ s₂ s₃ : Primary Nat), 1 ≤ n →
    (primary Nat batch).run .init moves = some (os, s₀) →
    (primary Nat batch).step s₀ (.readPut id key ⟨value, some n⟩) = some (o, s₁) →
    (primary Nat batch).run s₁ moves' = some (os', s₂) → .execute id ∉ moves' →
    (primary Nat batch).step s₂ (.execute id) = some (.put key value e (.kv key value), s₃) →
    Reliable batch key value n s₃ := by
  intro hall
  have hrel := hall cleanupBatchSize [.tick 5] [.tick 8] _ _ 0 "k" "v" 10 15 _ _ _ _ _ (by decide) rfl rfl rfl
    (by simp) rfl
  have hans := hrel [.tick 15, .readGet 1 "k"] _ 1 15 keyNotFound _ _ rfl (by decide) rfl (by decide) (by decide)
    (by decide)
  cases hans

end TheGrind.KvStore
