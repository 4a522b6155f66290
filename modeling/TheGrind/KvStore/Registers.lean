import TheGrind.KvStore.Interleaved
import TheGrind.KvStore.Serial

/-!
# Interleaved requests are atomic

What the primary is for while requests overlap: `registers`, the map with deadlines in which a request is one step,
with the reading it took before, and an entry is forgotten only when no reading of the clock sees it any more. Every
run of the primary answers as a run of the registers in which each request is atomic at its statement.

* `Shows` : every reading sees in the table what the map shows;
* `interleaved_atomic` : the primary refines the registers;
* `deleted_until_put` : once a key is deleted it is gone for everybody until it is put again.
-/

namespace TheGrind.KvStore
open TheGrind.Data TheGrind.Transition

/-! ## The registers -/

/-- A request with its reading, or time that passes, when an entry may be forgotten. -/
inductive Access where
  | pass (now : Int) (forgotten : Option String)
  | put (key value : String) (expireAt : Int)
  | get (key : String) (now : Int)
  | delete (key : String) (now : Int)
  deriving DecidableEq, Repr

/-- What an `expire_at` says: `0` is for ever. -/
def deadlineOf (expireAt : Int) : Option Int := if expireAt = 0 then none else some expireAt

/-- Entries that are forgotten. -/
def forget (m : String → Option Entry) : Option String → String → Option Entry
  | none => m
  | some key => Function.update m key none

/-- The map with deadlines, for requests that took their readings before. -/
def registers : Machine Reference Access Effect where
  step s
    | .pass now forgotten =>
      if s.clock ≤ now ∧ ∀ key ∈ forgotten, Reference.look s.entries key s.clock = none then
        some (.silent, ⟨now, forget s.entries forgotten⟩)
      else none
    | .put key value expireAt =>
      match storedKey key with
      | some stored =>
        if fitsBigint expireAt then
          some (.put key value expireAt (.kv key value),
            { s with entries := Function.update s.entries stored (some ⟨value, deadlineOf expireAt⟩) })
        else some (.put key value expireAt .internalServerError, s)
      | none => some (.put key value expireAt .internalServerError, s)
    | .get key now =>
      if 0 ≤ now ∧ now ≤ s.clock then some (.get key now (getAnswer (Reference.look s.entries key now)), s) else none
    | .delete key now =>
      if 0 ≤ now ∧ now ≤ s.clock then
        match Reference.look s.entries key now with
        | none => some (.delete key now keyNotFound, s)
        | some _ => some (.delete key now statusSuccess, { s with entries := Function.update s.entries key none })
      else none

/-! ## What the table shows -/

section Shows
variable {s : Store} {m : String → Option Entry}

/-- Every reading sees in the table what the map shows. -/
def Shows (s : Store) (m : String → Option Entry) : Prop :=
  ∀ key now, 0 ≤ now → s.selectLive key now = Reference.look m key now

theorem seen_deadlineOf (now expireAt : Int) (value : String) :
    Entry.seen now ⟨value, deadlineOf expireAt⟩ = decide (now < expireAt ∨ expireAt = 0) := by
  unfold deadlineOf
  by_cases h : expireAt = 0
  · simp [h, Entry.seen]
  · simp [h, Entry.seen]

theorem Shows.put (h : Shows s m) (key : Varchar keyMaxLength) (value : String) (expireAt : Int) :
    Shows (s.write key value expireAt) (Function.update m key.text (some ⟨value, deadlineOf expireAt⟩)) := by
  intro k now hnow
  rw [Store.selectLive_write, look_update, Option.filter_some, seen_deadlineOf]
  by_cases hk : k = key.text
  · rw [if_pos hk, if_pos hk]
    by_cases hl : now < expireAt ∨ expireAt = 0 <;> simp [hl]
  · rw [if_neg hk, if_neg hk]
    exact h k now hnow

/-- A deleted version shows at no reading. -/
theorem Shows.delete (h : Shows s m) (key : Varchar keyMaxLength) (value : String) :
    Shows (s.write key value (-1)) (Function.update m key.text none) := by
  intro k now hnow
  rw [Store.selectLive_write, look_update]
  by_cases hk : k = key.text
  · rw [if_pos hk, if_pos hk, if_neg (by omega)]
    rfl
  · rw [if_neg hk, if_neg hk]
    exact h k now hnow

theorem row?_deleteCtids (s : Store) (ctids : List Nat) (key : String) :
    (s.deleteCtids ctids).2.row? key = (s.row? key).filter (·.ctid ∉ ctids) := by
  ext r
  rw [Store.row?_deleteCtids_eq_some_iff, Option.filter_eq_some_iff, decide_eq_true_iff]

theorem row?_deleteCtids_eq_self {ctids : List Nat} {key : String} (h : ∀ r, s.row? key = some r → r.ctid ∉ ctids) :
    (s.deleteCtids ctids).2.row? key = s.row? key := by
  rw [row?_deleteCtids]
  cases hr : s.row? key with
  | none => rfl
  | some r => rw [Option.filter_some, if_pos (decide_eq_true (h r hr))]

/-- An address at which there is no row. -/
theorem Shows.sweep_nothing (h : Shows s m) {c : Nat} (hc : ∀ r ∈ s.rows, r.ctid ≠ c) :
    Shows (s.deleteCtids [c]).2 m := by
  intro k now hnow
  rw [← h k now hnow, Store.selectLive_eq, Store.selectLive_eq, row?_deleteCtids_eq_self fun r hr hmem => ?_]
  exact hc r (Store.row?_eq_some_iff.mp hr).1 (List.mem_singleton.mp hmem)

/-- The row at a deleted address takes its key with it. -/
theorem Shows.sweep_row (h : Shows s m) {r : Row} (hr : r ∈ s.rows) :
    Shows (s.deleteCtids [r.ctid]).2 (Function.update m r.key.text none) := by
  intro k now hnow
  rw [Store.selectLive_eq, look_update]
  by_cases hk : k = r.key.text
  · subst hk
    rw [if_pos rfl, row?_deleteCtids, Store.row?_eq_some_iff.mpr ⟨hr, rfl⟩, Option.filter_some, if_neg (by simp)]
    rfl
  · rw [if_neg hk, ← h k now hnow, Store.selectLive_eq, row?_deleteCtids_eq_self fun r' hr' hmem => hk ?_]
    obtain ⟨hmem', hkey⟩ := Store.row?_eq_some_iff.mp hr'
    rw [← hkey, List.inj_on_of_nodup_map s.ctid_unique hmem' hr (List.mem_singleton.mp hmem)]

end Shows

/-! ## The primary refines the registers -/

section Refinement
variable {ρ : Type} [DecidableEq ρ] {batch : Nat} {s t : Primary ρ} {m : Reference} {a : Move ρ} {o : Effect}

/-- The reading of a DELETE is not ahead of the clock. -/
def Task.Timely (clock : Int) : Task → Prop
  | .delete _ now => 0 ≤ now ∧ now ≤ clock
  | _ => True

theorem Task.Timely.mono {clock clock' : Int} {task : Task} (h : task.Timely clock) (hle : clock ≤ clock') :
    task.Timely clock' := by
  cases task with
  | delete key now => exact ⟨h.1, le_trans h.2 hle⟩
  | idle | put _ _ _ | get _ _ | cleanup _ | sweep _ => trivial

/-- The table shows what the registers do, and the readings in flight are not ahead of the clock. -/
structure Atomic (s : Primary ρ) (m : Reference) : Prop where
  clock : m.clock = s.clock
  inv : Inv s
  timely : ∀ id, (s.tasks id).Timely s.clock
  shows : Shows s.store m.entries

omit [DecidableEq ρ] in
theorem atomic_init : Atomic (Primary.init : Primary ρ) Reference.init :=
  ⟨rfl, inv_init, fun _ => trivial, fun key now _ => Store.selectLive_empty key now⟩

theorem Atomic.resume (h : Atomic s m) {id : ρ} {task : Task} {store : Store} {entries : String → Option Entry}
    (hinv : Inv (s.resume id task store)) (htask : task.Timely s.clock) (hshows : Shows store entries) :
    Atomic (s.resume id task store) ⟨m.clock, entries⟩ where
  clock := h.clock
  inv := hinv
  timely := (Function.forall_update_iff s.tasks fun _ task => task.Timely s.clock).mpr
    ⟨htask, fun id' _ => h.timely id'⟩
  shows := hshows

/-- Nothing may happen. -/
theorem registers_pass (m : Reference) : registers.step m (.pass m.clock none) = some (.silent, m) := by
  simp [registers, forget]

theorem atomic_execute {id : ρ} (h : Atomic s m) (hs : s.execute id = some (o, t)) (hinv : Inv t) :
    ∃ b m', registers.step m b = some (o, m') ∧ Atomic t m' := by
  have htimely := h.timely id
  have hok := h.inv.tasks id
  unfold Primary.execute at hs
  cases htask : s.tasks id with
  | put key value expireAt =>
    rw [htask] at hs
    refine ⟨.put key value expireAt, ?_⟩
    simp only [registers, storedKey]
    cases hk : Varchar.assign keyMaxLength key with
    | none =>
      simp only [putStatement, Store.upsert, hk] at hs
      cases hs
      exact ⟨_, rfl, h.resume hinv trivial h.shows⟩
    | some k =>
      by_cases hfits : fitsBigint expireAt = true
      · simp only [putStatement_of_assign hk hfits] at hs
        cases hs
        simp only [Option.map_some, if_pos hfits]
        exact ⟨_, rfl, h.resume hinv trivial (h.shows.put k value expireAt)⟩
      · simp only [putStatement, Store.upsert, hk, hfits, Bool.not_false, if_true] at hs
        cases hs
        simp only [Option.map_some, if_neg hfits]
        exact ⟨_, rfl, h.resume hinv trivial h.shows⟩
  | get key now =>
    rw [htask] at hs hok
    cases hs
    have hnow : 0 ≤ now ∧ now ≤ m.clock := by rw [h.clock]; exact hok
    refine ⟨.get key now, _, ?_, h.resume hinv trivial h.shows⟩
    simp only [registers, if_pos hnow, h.shows key now hnow.1]
  | delete key now =>
    rw [htask] at hs htimely
    have hnow : 0 ≤ now ∧ now ≤ m.clock := by rw [h.clock]; exact htimely
    have hlook := h.shows key now hnow.1
    refine ⟨.delete key now, ?_⟩
    simp only [registers, if_pos hnow]
    rcases softDelete_cases s.store key now with ⟨hnone, hd⟩ | ⟨r, hr, hl, hd⟩
    · simp only [hd, deleteAnswer_zero] at hs
      cases hs
      rw [← hlook, hnone]
      exact ⟨_, rfl, h.resume hinv trivial h.shows⟩
    · simp only [hd, deleteAnswer_one] at hs
      cases hs
      rw [← hlook, Store.selectLive_eq_some_iff.mpr ⟨rfl, r, hr, rfl, hl⟩]
      have hshows := h.shows.delete r.key r.value
      rw [Store.row?_key hr] at hshows
      exact ⟨_, rfl, h.resume hinv trivial hshows⟩
  | idle | cleanup _ | sweep _ =>
    rw [htask] at hs
    cases hs

/-- The cleanup takes a row that no reading of the clock sees any more, or none. -/
theorem atomic_sweep {id : ρ} {c : Nat} {cs : List Nat} (h : Atomic s m) (htask : s.tasks id = .sweep (c :: cs))
    (hinv : Inv (s.resume id (.sweep cs) (s.store.deleteCtids [c]).2)) :
    ∃ b m', registers.step m b = some (.silent, m') ∧
      Atomic (s.resume id (.sweep cs) (s.store.deleteCtids [c]).2) m' := by
  by_cases hrow : ∃ r ∈ s.store.rows, r.ctid = c
  · obtain ⟨r, hr, rfl⟩ := hrow
    have hok : (Task.sweep (r.ctid :: cs)).Ok s := htask ▸ h.inv.tasks id
    have hdead : dead s.clock r = true := (hok r.ctid List.mem_cons_self).2 r hr rfl
    have hlook : Reference.look m.entries r.key.text m.clock = none := by
      rw [h.clock, ← h.shows r.key.text s.clock h.inv.clock_nonneg, Store.selectLive_eq,
        Store.row?_eq_some_iff.mpr ⟨hr, rfl⟩, Option.filter_some, if_neg]
      · rfl
      · rw [dead_eq_not_live] at hdead
        simpa using hdead
    refine ⟨.pass m.clock (some r.key.text), _, ?_, h.resume hinv trivial (h.shows.sweep_row hr)⟩
    simp [registers, forget, hlook]
  · exact ⟨_, _, registers_pass m, h.resume hinv trivial (h.shows.sweep_nothing fun r hr hc => hrow ⟨r, hr, hc⟩)⟩

theorem atomic_step (h : Atomic s m) (hs : (primary ρ batch).step s a = some (o, t)) :
    ∃ b m', registers.step m b = some (o, m') ∧ Atomic t m' := by
  have hinv := inv_step h.inv hs
  have hread {id : ρ} {task : Task} (hr : s.read id task = some (o, t)) (htask : task.Timely s.clock) :
      ∃ b m', registers.step m b = some (o, m') ∧ Atomic t m' := by
    obtain ⟨rfl, rfl⟩ := read_eq_some hr
    exact ⟨_, _, registers_pass m, h.resume hinv htask h.shows⟩
  cases a with
  | tick now =>
    simp only [primary] at hs
    split at hs
    · next hle =>
      cases hs
      refine ⟨.pass now none, ⟨now, m.entries⟩, ?_, rfl, hinv, fun id => (h.timely id).mono hle, h.shows⟩
      simp [registers, forget, h.clock, hle]
    · cases hs
  | readPut id key body => exact hread hs trivial
  | readGet id key => exact hread hs trivial
  | readDelete id key => exact hread hs ⟨h.inv.clock_nonneg, le_refl _⟩
  | readCleanup id => exact hread hs trivial
  | execute id => exact atomic_execute h hs hinv
  | select id picked =>
    obtain ⟨rfl, rfl, -⟩ := select_eq_some hs
    exact ⟨_, _, registers_pass m, h.resume hinv trivial h.shows⟩
  | deleteNext id =>
    obtain ⟨rfl, ⟨-, rfl⟩ | ⟨c, cs, htask, rfl⟩⟩ := deleteNext_eq_some hs
    · exact ⟨_, _, registers_pass m, h.resume hinv trivial h.shows⟩
    · exact atomic_sweep h htask hinv

theorem primary_run {moves : List (Move ρ)} {os : List Effect}
    (hrun : (primary ρ batch).run Primary.init moves = some (os, s)) :
    ∃ accesses m, registers.run Reference.init accesses = some (os, m) ∧ Atomic s m := by
  obtain ⟨accesses, m, h, hatomic⟩ := Machine.run_simulates (f := fun o => [o]) (R := Atomic)
    (fun h hs => by
      obtain ⟨b, m', hb, h'⟩ := atomic_step h hs
      exact ⟨[b], m', (Machine.run_singleton_iff _).mpr ⟨_, hb, rfl⟩, h'⟩) atomic_init hrun
  rw [List.flatMap_singleton'] at h
  exact ⟨accesses, m, h, hatomic⟩

/-- **Interleaved requests are atomic.** In every interleaving of requests and cleanup iterations the answers are those
of the registers, where each request is one step at its statement, with the reading it took before, and an entry is
forgotten only once no reading of the clock sees it any more. -/
theorem interleaved_atomic (batch : Nat) (moves : List (Move ρ)) (os : List Effect) (s : Primary ρ)
    (hrun : (primary ρ batch).run Primary.init moves = some (os, s)) :
    ∃ accesses m, registers.run Reference.init accesses = some (os, m) ∧ m.clock = s.clock ∧
      Shows s.store m.entries := by
  obtain ⟨accesses, m, h, hatomic⟩ := primary_run hrun
  exact ⟨accesses, m, h, hatomic.clock, hatomic.shows⟩

/-- A GET whose reading was taken while the key was live is overtaken by the cleanup. -/
theorem interleaved_atomic_example :
    ∃ os s, (primary (Fin 3) cleanupBatchSize).run Primary.init
        [.readPut 0 "k" ⟨"v", some 10⟩, .execute 0, .readGet 1 "k", .tick 10, .readCleanup 2, .select 2 [0],
          .deleteNext 2, .execute 1] = some (os, s) ∧
      ∃ accesses m, registers.run Reference.init accesses = some (os, m) ∧ m.clock = s.clock ∧
        Shows s.store m.entries := by
  obtain ⟨⟨os, s⟩, h⟩ : ∃ r, (primary (Fin 3) cleanupBatchSize).run Primary.init
      [.readPut 0 "k" ⟨"v", some 10⟩, .execute 0, .readGet 1 "k", .tick 10, .readCleanup 2, .select 2 [0],
        .deleteNext 2, .execute 1] = some r := ⟨_, rfl⟩
  exact ⟨os, s, h, interleaved_atomic cleanupBatchSize _ os s h⟩

end Refinement

/-! ## Deleted keys -/

/-- The effect is a PUT that stored a version of the key. -/
def Effect.stores (key : String) : Effect → Prop
  | .put requested _ _ answer => storedKey requested = some key ∧ answer ≠ .internalServerError
  | _ => False

instance (key : String) : DecidablePred (Effect.stores key)
  | .put _ _ _ _ => inferInstanceAs (Decidable (_ ∧ _))
  | .get _ _ _ | .delete _ _ _ | .silent => inferInstanceAs (Decidable False)

/-- A GET or a DELETE of the key is answered with a 404. -/
def Effect.Misses (key : String) : Effect → Prop
  | .get k _ answer | .delete k _ answer => k = key → answer = keyNotFound
  | _ => True

section Deleted
variable {m m' : Reference} {b : Access} {o : Effect} {key : String}

theorem look_of_none {entries : String → Option Entry} (h : entries key = none) (now : Int) :
    Reference.look entries key now = none := by
  unfold Reference.look
  rw [h]
  rfl

/-- While a key has no entry, requests for it miss, and only a PUT gives it one. -/
theorem registers_missing (h : m.entries key = none) (hs : registers.step m b = some (o, m')) :
    o.Misses key ∧ (¬o.stores key → m'.entries key = none) := by
  cases b with
  | pass now forgotten =>
    obtain ⟨-, he⟩ := Option.ite_none_right_eq_some.mp hs
    cases he
    refine ⟨trivial, fun _ => ?_⟩
    cases forgotten with
    | none => exact h
    | some k =>
      show Function.update m.entries k none key = none
      by_cases hk : key = k
      · rw [hk, Function.update_self]
      · rw [Function.update_of_ne hk, h]
  | put k value expireAt =>
    simp only [registers] at hs
    split at hs
    · next stored hstored =>
      split at hs
      · cases hs
        refine ⟨trivial, fun hno => ?_⟩
        show Function.update m.entries stored _ key = none
        have hne : key ≠ stored := by
          rintro rfl
          exact hno ⟨hstored, by simp⟩
        rw [Function.update_of_ne hne, h]
      · cases hs
        exact ⟨trivial, fun _ => h⟩
    · cases hs
      exact ⟨trivial, fun _ => h⟩
  | get k now =>
    obtain ⟨-, he⟩ := Option.ite_none_right_eq_some.mp hs
    cases he
    refine ⟨fun hk => ?_, fun _ => h⟩
    rw [hk, look_of_none h]
    rfl
  | delete k now =>
    obtain ⟨-, he⟩ := Option.ite_none_right_eq_some.mp hs
    split at he
    · cases he
      exact ⟨fun _ => rfl, fun _ => h⟩
    · next kv hlook =>
      cases he
      refine ⟨fun hk => ?_, fun _ => ?_⟩
      · rw [hk, look_of_none h] at hlook
        cases hlook
      · show Function.update m.entries k none key = none
        by_cases hk : key = k
        · rw [hk, Function.update_self]
        · rw [Function.update_of_ne hk, h]

theorem registers_run_missing (h : m.entries key = none) {accesses : List Access} {os : List Effect}
    (hrun : registers.run m accesses = some (os, m')) (hput : ∀ o ∈ os, ¬o.stores key) : ∀ o ∈ os, o.Misses key := by
  have hP := Machine.run_history (M := registers)
    (P := fun os m => (∀ o ∈ os, ¬o.stores key) → m.entries key = none ∧ ∀ o ∈ os, o.Misses key)
    (fun {os m b o m'} hP hs hput => by
      obtain ⟨hnone, hmisses⟩ := hP fun o ho => hput o (List.mem_append_left _ ho)
      obtain ⟨hmiss, hkeep⟩ := registers_missing hnone hs
      refine ⟨hkeep (hput o (List.mem_append_right _ List.mem_cons_self)), fun o' ho' => ?_⟩
      rcases List.mem_append.mp ho' with ho' | ho'
      · exact hmisses o' ho'
      · rw [List.mem_singleton.mp ho']
        exact hmiss) (l := []) (fun _ => ⟨h, fun o ho => absurd ho List.not_mem_nil⟩) hrun
  exact (hP hput).2

/-- A DELETE that succeeds takes the entry. -/
theorem registers_deleted {now : Int} (hs : registers.step m b = some (.delete key now statusSuccess, m')) :
    m'.entries key = none := by
  cases b with
  | pass now forgotten =>
    obtain ⟨-, he⟩ := Option.ite_none_right_eq_some.mp hs
    cases he
  | put k value expireAt =>
    simp only [registers] at hs
    split at hs
    · split at hs <;> cases hs
    · cases hs
  | get k now =>
    obtain ⟨-, he⟩ := Option.ite_none_right_eq_some.mp hs
    cases he
  | delete k now =>
    obtain ⟨-, he⟩ := Option.ite_none_right_eq_some.mp hs
    split at he
    · cases he
    · cases he
      exact Function.update_self _ _ _

/-- **Deleted until put again.** In every interleaving, after a DELETE of a key has succeeded, every GET and every
DELETE of the key misses, whenever it took its reading, until a PUT stores the key again. So of any number of DELETEs
that race for a stored version, at most one succeeds. -/
theorem deleted_until_put {ρ : Type} [DecidableEq ρ] (batch : Nat) (moves : List (Move ρ)) (os₁ os₂ : List Effect)
    (s : Primary ρ) (key : String) (now : Int)
    (hrun : (primary ρ batch).run Primary.init moves = some (os₁ ++ .delete key now statusSuccess :: os₂, s))
    (hput : ∀ o ∈ os₂, ¬o.stores key) : ∀ o ∈ os₂, o.Misses key := by
  obtain ⟨accesses, m, h, -⟩ := primary_run hrun
  obtain ⟨accesses₁, accesses₂, m₁, -, h₂⟩ := Machine.run_split _ h
  cases accesses₂ with
  | nil => cases h₂
  | cons b accesses₂ =>
    obtain ⟨o, os', m₂, hs, hr, he⟩ := (Machine.run_cons_iff _).mp h₂
    obtain ⟨rfl, rfl⟩ := List.cons.inj he
    exact registers_run_missing (registers_deleted hs) hr hput

/-- Two DELETEs race for a version, and a GET took its reading before both. -/
theorem deleted_until_put_example :
    ∃ os₁ os₂ s, (primary (Fin 4) cleanupBatchSize).run Primary.init
        [.readPut 0 "k" ⟨"v", none⟩, .execute 0, .readDelete 1 "k", .readDelete 2 "k", .readGet 3 "k", .execute 1,
          .execute 2, .execute 3] = some (os₁ ++ .delete "k" 0 statusSuccess :: os₂, s) ∧
      ∀ o ∈ os₂, o.Misses "k" :=
  ⟨[.silent, .put "k" "v" 0 (.kv "k" "v"), .silent, .silent, .silent],
    [.delete "k" 0 keyNotFound, .get "k" 0 keyNotFound], _, rfl,
    deleted_until_put cleanupBatchSize
      [.readPut (0 : Fin 4) "k" ⟨"v", none⟩, .execute 0, .readDelete 1 "k", .readDelete 2 "k", .readGet 3 "k",
        .execute 1, .execute 2, .execute 3]
      [.silent, .put "k" "v" 0 (.kv "k" "v"), .silent, .silent, .silent] _ _ "k" 0 rfl (by decide)⟩

end Deleted

end TheGrind.KvStore
