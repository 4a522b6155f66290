import TheGrind.Transition.Machine
import TheGrind.KvStore.Handlers

/-!
# Interleaved requests on the primary

Every handler is split where its coroutine is suspended: it reads the clock, waits for a connection, and then its one
statement runs. An iteration of the cleanup reads the clock, selects addresses of dead rows, and deletes them one by
one; the deletion looks only at the address. Tasks `ρ` move in any order (`primary`).

* `Change` : the four things a step does to the table;
* `Condemned` : a selected address holds no live row, now or later, since every version is written at a fresh address;
* `Inv` : readings in flight are not ahead of the clock, and selected addresses are condemned;
* `Written` : a version that no statement on its key overwrote stays in the table while it is live;
* `Attributed` : every row is the last stored PUT of its key, or that PUT deleted;
* `live_write_survives`, `read_is_last_write` : the two halves of `interleaved_reads`.
-/

namespace TheGrind.KvStore
open TheGrind.Data TheGrind.Transition

/-- Where the coroutine of a task is suspended, with the values it has computed. -/
inductive Task where
  | idle
  | put (key value : String) (expireAt : Int)
  | get (key : String) (now : Int)
  | delete (key : String) (now : Int)
  | cleanup (now : Int)
  | sweep (ctids : List Nat)
  deriving DecidableEq, Repr

/-- One move: the clock advances, a task reads it, or a task runs a statement. -/
inductive Move (ρ : Type) where
  | tick (now : Int)
  | readPut (id : ρ) (key : String) (body : PutRequest)
  | readGet (id : ρ) (key : String)
  | readDelete (id : ρ) (key : String)
  | readCleanup (id : ρ)
  | execute (id : ρ)
  | select (id : ρ) (picked : List Nat)
  | deleteNext (id : ρ)

/-- A statement that ran for a client, with its answer. -/
inductive Effect where
  | silent
  | put (key value : String) (expireAt : Int) (answer : Response)
  | get (key : String) (now : Int) (answer : Response)
  | delete (key : String) (now : Int) (answer : Response)
  deriving DecidableEq, Repr

/-- The statement wrote the row of `key`: a stored PUT or a successful DELETE. -/
def Effect.writes (key : String) : Effect → Prop
  | .put requested _ _ answer => storedKey requested = some key ∧ answer ≠ .internalServerError
  | .delete k _ answer => k = key ∧ answer = statusSuccess
  | _ => False

instance (key : String) : DecidablePred (Effect.writes key)
  | .put _ _ _ _ | .delete _ _ _ => inferInstanceAs (Decidable (_ ∧ _))
  | .get _ _ _ | .silent => inferInstanceAs (Decidable False)

/-- The statement is a PUT that stored `value` and `expireAt` for `key`. -/
def Effect.Puts (key value : String) (expireAt : Int) (o : Effect) : Prop :=
  ∃ requested, o = .put requested value expireAt (.kv requested value) ∧ storedKey requested = some key

theorem Effect.Puts.writes {key value : String} {expireAt : Int} {o : Effect} (h : o.Puts key value expireAt) :
    o.writes key := by
  obtain ⟨requested, rfl, hkey⟩ := h
  exact ⟨hkey, by simp⟩

structure Primary (ρ : Type) where
  clock : Int
  store : Store
  tasks : ρ → Task

namespace Primary
variable {ρ : Type} [DecidableEq ρ]

def init : Primary ρ := ⟨0, .empty, fun _ => .idle⟩

/-- The table and the suspension point of one task change. -/
def resume (s : Primary ρ) (id : ρ) (task : Task) (store : Store) : Primary ρ :=
  { s with store := store, tasks := Function.update s.tasks id task }

/-- An idle task reads the clock and is suspended with what it computed. -/
def read (s : Primary ρ) (id : ρ) (task : Task) : Option (Effect × Primary ρ) :=
  if s.tasks id = .idle then some (.silent, s.resume id task s.store) else none

/-- The statement of a task that has its connection. -/
def execute (s : Primary ρ) (id : ρ) : Option (Effect × Primary ρ) :=
  match s.tasks id with
  | .put key value expireAt =>
    let r := putStatement s.store key value expireAt
    some (.put key value expireAt r.1, s.resume id .idle r.2)
  | .get key now => some (.get key now (getAnswer (s.store.selectLive key now)), s.resume id .idle s.store)
  | .delete key now =>
    let r := s.store.softDelete key now
    some (.delete key now (deleteAnswer r.1), s.resume id .idle r.2)
  | _ => none

/-- The subquery of the cleanup. -/
def select (batch : Nat) (s : Primary ρ) (id : ρ) (picked : List Nat) : Option (Effect × Primary ρ) :=
  match s.tasks id with
  | .cleanup now =>
    if Selection batch (s.store.selectDead now) picked then some (.silent, s.resume id (.sweep picked) s.store)
    else none
  | _ => none

/-- The cleanup deletes the next selected address, or is done. -/
def deleteNext (s : Primary ρ) (id : ρ) : Option (Effect × Primary ρ) :=
  match s.tasks id with
  | .sweep [] => some (.silent, s.resume id .idle s.store)
  | .sweep (c :: cs) => some (.silent, s.resume id (.sweep cs) (s.store.deleteCtids [c]).2)
  | _ => none

end Primary

/-- The primary under interleaved tasks. -/
def primary (ρ : Type) [DecidableEq ρ] (batch : Nat) : Machine (Primary ρ) (Move ρ) Effect where
  step s
    | .tick now => if s.clock ≤ now then some (.silent, { s with clock := now }) else none
    | .readPut id key body => s.read id (.put key body.value (putExpireAt s.clock body.ttl))
    | .readGet id key => s.read id (.get key s.clock)
    | .readDelete id key => s.read id (.delete key s.clock)
    | .readCleanup id => s.read id (.cleanup s.clock)
    | .execute id => s.execute id
    | .select id picked => s.select batch id picked
    | .deleteNext id => s.deleteNext id

variable {ρ : Type} [DecidableEq ρ] {batch : Nat} {s t : Primary ρ} {a : Move ρ} {o : Effect}

/-! ## What a step does -/

/-- What a step does to the table, and to its clock. -/
inductive Change (s : Primary ρ) : Effect → Primary ρ → Prop where
  | keep {o : Effect} {t : Primary ρ} : s.clock ≤ t.clock → t.store = s.store → (∀ key, ¬o.writes key) → Change s o t
  | put {requested value : String} {expireAt : Int} {key : Varchar keyMaxLength} {t : Primary ρ} :
      t.clock = s.clock → Varchar.assign keyMaxLength requested = some key →
      t.store = s.store.write key value expireAt → Change s (.put requested value expireAt (.kv requested value)) t
  | delete {key : String} {now : Int} {r : Row} {t : Primary ρ} : t.clock = s.clock → s.store.row? key = some r →
      t.store = s.store.write r.key r.value (-1) → Change s (.delete key now statusSuccess) t
  | sweep {id : ρ} {c : Nat} {cs : List Nat} {t : Primary ρ} : t.clock = s.clock → s.tasks id = .sweep (c :: cs) →
      t.store = (s.store.deleteCtids [c]).2 → Change s .silent t

theorem read_eq_some {id : ρ} {task : Task} (h : s.read id task = some (o, t)) :
    o = .silent ∧ t = s.resume id task s.store := by
  unfold Primary.read at h
  split at h
  · cases h
    exact ⟨rfl, rfl⟩
  · cases h

theorem Change.of_read {id : ρ} {task : Task} (h : s.read id task = some (o, t)) : Change s o t := by
  obtain ⟨rfl, rfl⟩ := read_eq_some h
  exact .keep (le_refl _) rfl fun _ h => h

theorem Change.of_execute {id : ρ} (h : s.execute id = some (o, t)) : Change s o t := by
  unfold Primary.execute at h
  split at h
  · next key value expireAt _ =>
    rcases putStatement_cases s.store key value expireAt with ⟨k, hk, hc⟩ | hc
    · rw [hc] at h
      cases h
      exact .put rfl hk rfl
    · rw [hc] at h
      cases h
      exact .keep (le_refl _) rfl fun _ hw => hw.2 rfl
  · cases h
    exact .keep (le_refl _) rfl fun _ h => h
  · next key now _ =>
    rcases softDelete_cases s.store key now with ⟨-, hc⟩ | ⟨r, hr, -, hc⟩
    · rw [hc] at h
      simp only [deleteAnswer_zero] at h
      cases h
      exact .keep (le_refl _) rfl fun _ hw => by cases hw.2
    · rw [hc] at h
      simp only [deleteAnswer_one] at h
      cases h
      exact .delete rfl hr rfl
  · cases h

theorem select_eq_some {id : ρ} {picked : List Nat} (h : s.select batch id picked = some (o, t)) :
    o = .silent ∧ t = s.resume id (.sweep picked) s.store ∧
      ∃ now, s.tasks id = .cleanup now ∧ Selection batch (s.store.selectDead now) picked := by
  unfold Primary.select at h
  split at h
  · next now htask =>
    split at h
    · next hsel =>
      cases h
      exact ⟨rfl, rfl, now, htask, hsel⟩
    · cases h
  · cases h

theorem deleteNext_eq_some {id : ρ} (h : s.deleteNext id = some (o, t)) :
    o = .silent ∧ ((s.tasks id = .sweep [] ∧ t = s.resume id .idle s.store) ∨
      ∃ c cs, s.tasks id = .sweep (c :: cs) ∧ t = s.resume id (.sweep cs) (s.store.deleteCtids [c]).2) := by
  unfold Primary.deleteNext at h
  split at h
  · next htask =>
    cases h
    exact ⟨rfl, Or.inl ⟨htask, rfl⟩⟩
  · next c cs htask =>
    cases h
    exact ⟨rfl, Or.inr ⟨c, cs, htask, rfl⟩⟩
  · cases h

/-- Every step is one of the four changes. -/
theorem step_change (h : (primary ρ batch).step s a = some (o, t)) : Change s o t := by
  cases a with
  | tick now =>
    simp only [primary] at h
    split at h
    · next hle =>
      cases h
      exact .keep hle rfl fun _ h => h
    · cases h
  | readPut id key body => exact .of_read h
  | readGet id key => exact .of_read h
  | readDelete id key => exact .of_read h
  | readCleanup id => exact .of_read h
  | execute id => exact .of_execute h
  | select id picked =>
    obtain ⟨rfl, rfl, -⟩ := select_eq_some h
    exact .keep (le_refl _) rfl fun _ h => h
  | deleteNext id =>
    obtain ⟨rfl, ⟨-, rfl⟩ | ⟨c, cs, htask, rfl⟩⟩ := deleteNext_eq_some h
    · exact .keep (le_refl _) rfl fun _ h => h
    · exact .sweep rfl htask rfl

omit [DecidableEq ρ] in
theorem Change.clock_le (h : Change s o t) : s.clock ≤ t.clock := by
  cases h with
  | keep hle => exact hle
  | put hc | delete hc | sweep hc => exact hc.ge

omit [DecidableEq ρ] in
/-- A write is one of its key alone. -/
theorem row?_of_put {requested value key : String} {expireAt : Int} {k : Varchar keyMaxLength} {answer : Response}
    (hk : Varchar.assign keyMaxLength requested = some k) (hs : t.store = s.store.write k value expireAt)
    (hanswer : answer ≠ .internalServerError) (hw : ¬(Effect.put requested value expireAt answer).writes key) :
    t.store.row? key = s.store.row? key := by
  rw [hs, Store.row?_write, if_neg]
  rintro rfl
  exact hw ⟨storedKey_eq_some_iff.mpr ⟨k, hk, rfl⟩, hanswer⟩

/-! ## Readings and selected addresses -/

/-- The address was in use once, and no row at it is live. -/
def Condemned (s : Primary ρ) (c : Nat) : Prop :=
  c < s.store.nextCtid ∧ ∀ r ∈ s.store.rows, r.ctid = c → dead s.clock r = true

/-- The values a suspended task has computed are not ahead of the clock, and what it selected is condemned. -/
def Task.Ok (s : Primary ρ) : Task → Prop
  | .get _ now => 0 ≤ now ∧ now ≤ s.clock
  | .cleanup now => now ≤ s.clock
  | .sweep ctids => ∀ c ∈ ctids, Condemned s c
  | _ => True

structure Inv (s : Primary ρ) : Prop where
  clock_nonneg : 0 ≤ s.clock
  tasks : ∀ id, (s.tasks id).Ok s

omit [DecidableEq ρ] in
theorem inv_init : Inv (Primary.init : Primary ρ) := ⟨le_refl 0, fun _ => trivial⟩

omit [DecidableEq ρ] in
/-- A write puts no row at a condemned address. -/
theorem Condemned.write {c : Nat} {key : Varchar keyMaxLength} {value : String} {expireAt : Int} (h : Condemned s c)
    (hc : t.clock = s.clock) (hs : t.store = s.store.write key value expireAt) : Condemned t c := by
  rw [Condemned, hs, hc]
  refine ⟨Nat.lt_succ_of_lt h.1, fun r hr he => ?_⟩
  rcases Store.mem_write.mp hr with ⟨hr, -⟩ | rfl
  · exact h.2 r hr he
  · exact absurd he (Nat.ne_of_gt h.1)

omit [DecidableEq ρ] in
/-- A condemned address stays condemned. -/
theorem Condemned.change {c : Nat} (h : Condemned s c) (hch : Change s o t) : Condemned t c := by
  cases hch with
  | keep hle hs _ =>
    rw [Condemned, hs]
    exact ⟨h.1, fun r hr he => dead_mono hle (h.2 r hr he)⟩
  | put hc _ hs | delete hc _ hs => exact h.write hc hs
  | sweep hc _ hs =>
    rw [Condemned, hs, hc]
    exact ⟨h.1, fun r hr he => h.2 r (Store.mem_deleteCtids.mp hr).1 he⟩

omit [DecidableEq ρ] in
theorem Task.Ok.change {task : Task} (h : task.Ok s) (hch : Change s o t) : task.Ok t := by
  cases task with
  | get key now => exact ⟨h.1, le_trans h.2 hch.clock_le⟩
  | cleanup now => exact le_trans h hch.clock_le
  | sweep ctids => exact fun c hc => (h c hc).change hch
  | idle | put key value expireAt | delete key now => trivial

theorem Inv.of_resume {id : ρ} {task : Task} {store : Store} (h : Inv s) (ht : t = s.resume id task store)
    (hch : Change s o t) (htask : task.Ok t) : Inv t := by
  refine ⟨le_trans h.clock_nonneg hch.clock_le, fun id' => ?_⟩
  by_cases he : id' = id
  · have hnew : t.tasks id' = task := by rw [ht, he]; exact Function.update_self ..
    rw [hnew]
    exact htask
  · have hold : t.tasks id' = s.tasks id' := by rw [ht]; exact Function.update_of_ne he ..
    rw [hold]
    exact (h.tasks id').change hch

theorem Inv.of_read {id : ρ} {task : Task} (h : Inv s) (hr : s.read id task = some (o, t)) (htask : task.Ok s) :
    Inv t := by
  obtain ⟨-, ht⟩ := read_eq_some hr
  exact h.of_resume ht (.of_read hr) (htask.change (.of_read hr))

theorem execute_resumes {id : ρ} (h : s.execute id = some (o, t)) : ∃ store, t = s.resume id .idle store := by
  unfold Primary.execute at h
  split at h
  · cases h
    exact ⟨_, rfl⟩
  · cases h
    exact ⟨_, rfl⟩
  · cases h
    exact ⟨_, rfl⟩
  · cases h

theorem inv_step (h : Inv s) (hs : (primary ρ batch).step s a = some (o, t)) : Inv t := by
  have hch := step_change hs
  cases a with
  | tick now =>
    simp only [primary] at hs
    split at hs
    · cases hs
      exact ⟨le_trans h.clock_nonneg hch.clock_le, fun id => (h.tasks id).change hch⟩
    · cases hs
  | readPut id key body => exact h.of_read hs trivial
  | readGet id key => exact h.of_read hs ⟨h.clock_nonneg, le_refl _⟩
  | readDelete id key => exact h.of_read hs trivial
  | readCleanup id => exact h.of_read hs (le_refl s.clock)
  | execute id =>
    obtain ⟨store, ht⟩ := execute_resumes hs
    exact h.of_resume ht hch trivial
  | select id picked =>
    obtain ⟨rfl, ht, now, htask, hsel⟩ := select_eq_some hs
    have hnow : now ≤ s.clock := by simpa only [htask, Task.Ok] using h.tasks id
    have hpicked : ∀ c ∈ picked, Condemned s c := by
      intro c hc
      refine ⟨?_, fun r hr he => dead_mono hnow (hsel.dead hr (he ▸ hc))⟩
      obtain ⟨r, hr, rfl⟩ := List.mem_map.mp (hsel.2.1 hc)
      exact s.store.ctid_fresh r (List.mem_filter.mp hr).1
    exact h.of_resume ht hch fun c hc => (hpicked c hc).change hch
  | deleteNext id =>
    obtain ⟨rfl, ⟨-, ht⟩ | ⟨c, cs, htask, ht⟩⟩ := deleteNext_eq_some hs
    · exact h.of_resume ht hch trivial
    · have hok : (Task.sweep (c :: cs)).Ok s := htask ▸ h.tasks id
      exact h.of_resume ht hch fun c' hc' => (hok c' (List.mem_cons_of_mem _ hc')).change hch

/-! ## A live write is not lost -/

/-- While it is live, the version stored for `key` is its row. -/
def Written (key value : String) (expireAt : Int) (s : Primary ρ) : Prop :=
  expireAt = 0 ∨ s.clock < expireAt → ∃ r, s.store.row? key = some r ∧ r.value = value ∧ r.expireAt = expireAt

omit [DecidableEq ρ] in
/-- A step that does not write the key keeps its version. The cleanup cannot take it: it deletes condemned addresses
only, and a live row is at none. -/
theorem Written.change {key value : String} {expireAt : Int} (h : Written key value expireAt s) (hi : Inv s)
    (hch : Change s o t) (hw : ¬o.writes key) : Written key value expireAt t := by
  intro hlive
  have hlive' : expireAt = 0 ∨ s.clock < expireAt := hlive.imp_right (lt_of_le_of_lt hch.clock_le)
  obtain ⟨r, hr, hv, he⟩ := h hlive'
  cases hch with
  | keep _ hs _ => exact ⟨r, by rw [hs]; exact hr, hv, he⟩
  | put _ hk hs => exact ⟨r, (row?_of_put hk hs (by simp) hw).trans hr, hv, he⟩
  | delete _ hr' hs =>
    refine ⟨r, ?_, hv, he⟩
    rw [hs, Store.row?_write, if_neg (fun hk => hw ⟨(Store.row?_key hr').symm.trans hk.symm, rfl⟩)]
    exact hr
  | @sweep id c cs _ _ htask hs =>
    refine ⟨r, ?_, hv, he⟩
    rw [hs, Store.row?_deleteCtids_eq_some_iff]
    refine ⟨hr, fun hc => ?_⟩
    have hok : (Task.sweep (c :: cs)).Ok s := htask ▸ hi.tasks id
    have hd := (hok c List.mem_cons_self).2 r (Store.row?_eq_some_iff.mp hr).1 (List.mem_singleton.mp hc)
    simp only [dead, decide_eq_true_eq, he] at hd
    omega

theorem written_run {key value : String} {expireAt : Int} {moves : List (Move ρ)} {os : List Effect}
    (hi : Inv s) (h : Written key value expireAt s) (hrun : (primary ρ batch).run s moves = some (os, t))
    (hw : ∀ o ∈ os, ¬o.writes key) : Inv t ∧ Written key value expireAt t := by
  have hP := Machine.run_history (M := primary ρ batch)
    (P := fun os s => Inv s ∧ ((∀ o ∈ os, ¬o.writes key) → Written key value expireAt s))
    (fun hP hs => ⟨inv_step hP.1 hs, fun hw => (hP.2 fun o ho => hw o (List.mem_append_left _ ho)).change hP.1
      (step_change hs) (hw _ (List.mem_append_right _ (List.mem_singleton_self _)))⟩)
    (l := []) ⟨hi, fun _ => h⟩ hrun
  exact ⟨hP.1, hP.2 hw⟩

theorem execute_get {id : ρ} {key : String} {now : Int} {answer : Response}
    (h : s.execute id = some (.get key now answer, t)) :
    s.tasks id = .get key now ∧ answer = getAnswer (s.store.selectLive key now) := by
  unfold Primary.execute at h
  split at h
  · cases h
  · next htask =>
    cases h
    exact ⟨htask, rfl⟩
  · cases h
  · cases h

theorem execute_put {id : ρ} {requested key value : String} {expireAt : Int}
    (h : s.execute id = some (.put requested value expireAt (.kv requested value), t))
    (hkey : storedKey requested = some key) :
    ∃ k : Varchar keyMaxLength, k.text = key ∧ t.store = s.store.write k value expireAt := by
  obtain ⟨k, hk, rfl⟩ := storedKey_eq_some_iff.mp hkey
  have hch := Change.of_execute h
  cases hch with
  | keep _ _ hw => exact absurd ⟨hkey, by simp⟩ (hw k.text)
  | put _ hk' hs =>
    obtain rfl := Option.some.inj (hk'.symm.trans hk)
    exact ⟨_, rfl, hs⟩

/-- A stored version that no later statement on its key overwrote is what a GET returns while it is live. -/
theorem live_write_survives {id id' : ρ} {key value : String} {expireAt now : Int} {answer : Response}
    {moves : List (Move ρ)} {os : List Effect} {s₁ s₂ s₃ s₄ : Primary ρ} (hi : Inv s₁)
    (hput : s₁.execute id = some (o, s₂)) (ho : o.Puts key value expireAt)
    (hrun : (primary ρ batch).run s₂ moves = some (os, s₃)) (hw : ∀ o ∈ os, ¬o.writes key)
    (hget : s₃.execute id' = some (.get key now answer, s₄)) (hlive : expireAt = 0 ∨ s₃.clock < expireAt) :
    answer = .kv key value := by
  have hi₂ : Inv s₂ := inv_step hi (show (primary ρ batch).step s₁ (.execute id) = _ from hput)
  have hwritten : Written key value expireAt s₂ := by
    intro _
    obtain ⟨requested, rfl, hkey⟩ := ho
    obtain ⟨k, rfl, hs⟩ := execute_put hput hkey
    refine ⟨⟨s₁.store.nextCtid, k, value, expireAt⟩, ?_, rfl, rfl⟩
    rw [hs, Store.row?_write, if_pos rfl]
  obtain ⟨hi₃, hwritten₃⟩ := written_run hi₂ hwritten hrun hw
  obtain ⟨r, hr, hv, he⟩ := hwritten₃ hlive
  obtain ⟨htask, rfl⟩ := execute_get hget
  have hnow : 0 ≤ now ∧ now ≤ s₃.clock := by simpa only [htask, Task.Ok] using hi₃.tasks id'
  have hsel : s₃.store.selectLive key now = some (key, value) := by
    refine Store.selectLive_eq_some_iff.mpr ⟨rfl, r, hr, hv, ?_⟩
    rw [live_iff, he]
    omega
  rw [hsel]
  rfl

/-! ## Every row is the last write of its key -/

/-- The row is the last stored PUT of its key, or that PUT after a DELETE. -/
def LastWrite (os : List Effect) (r : Row) : Prop :=
  ∃ os₁ o e os₂, os = os₁ ++ o :: os₂ ∧ o.Puts r.key.text r.value e ∧
    (r.expireAt = e ∧ (∀ o ∈ os₂, ¬o.writes r.key.text) ∨ r.expireAt = -1)

def Attributed (os : List Effect) (s : Primary ρ) : Prop := ∀ r ∈ s.store.rows, LastWrite os r

theorem LastWrite.snoc {os : List Effect} {r : Row} (h : LastWrite os r) (hw : ¬o.writes r.key.text) :
    LastWrite (os ++ [o]) r := by
  obtain ⟨os₁, o₁, e, os₂, rfl, ho₁, h⟩ := h
  refine ⟨os₁, o₁, e, os₂ ++ [o], by simp, ho₁, h.imp_left fun ⟨he, hos⟩ => ⟨he, fun o' ho' => ?_⟩⟩
  rcases List.mem_append.mp ho' with ho' | ho'
  · exact hos o' ho'
  · rw [List.mem_singleton.mp ho']
    exact hw

theorem LastWrite.deleted {os : List Effect} {r : Row} (h : LastWrite os r) (o : Effect) (c : Nat) :
    LastWrite (os ++ [o]) ⟨c, r.key, r.value, -1⟩ := by
  obtain ⟨os₁, o₁, e, os₂, rfl, ho₁, -⟩ := h
  exact ⟨os₁, o₁, e, os₂ ++ [o], by simp, ho₁, Or.inr rfl⟩

omit [DecidableEq ρ] in
theorem Attributed.change {os : List Effect} (h : Attributed os s) (hch : Change s o t) : Attributed (os ++ [o]) t := by
  intro r hr
  cases hch with
  | keep _ hs hw =>
    rw [hs] at hr
    exact (h r hr).snoc (hw r.key.text)
  | @put requested value expireAt k _ _ hk hs =>
    have hkey : storedKey requested = some k.text := storedKey_eq_some_iff.mpr ⟨k, hk, rfl⟩
    rw [hs] at hr
    rcases Store.mem_write.mp hr with ⟨hr, hne⟩ | rfl
    · exact (h r hr).snoc fun hw => hne (Varchar.ext (Option.some.inj (hw.1.symm.trans hkey)))
    · exact ⟨os, _, _, [], rfl, ⟨requested, rfl, hkey⟩, Or.inl ⟨rfl, by simp⟩⟩
  | @delete key now r' _ _ hr' hs =>
    rw [hs] at hr
    obtain ⟨hmem, rfl⟩ := Store.row?_eq_some_iff.mp hr'
    rcases Store.mem_write.mp hr with ⟨hr, hne⟩ | rfl
    · exact (h r hr).snoc fun hw => hne (Varchar.ext hw.1.symm)
    · exact (h r' hmem).deleted _ _
  | sweep _ _ hs =>
    rw [hs] at hr
    exact (h r (Store.mem_deleteCtids.mp hr).1).snoc fun hw => hw

omit [DecidableEq ρ] in
/-- What a table shows at a reading is the last write of its key, live at the reading. -/
theorem last_write_of_seen {os : List Effect} {key k value : String} {now : Int} (ha : Attributed os s)
    (hnow : 0 ≤ now) (hsel : s.store.selectLive key now = some (k, value)) :
    k = key ∧ ∃ os₁ o e os₂, os = os₁ ++ o :: os₂ ∧ o.Puts key value e ∧ (∀ o ∈ os₂, ¬o.writes key) ∧
      (e = 0 ∨ now < e) := by
  obtain ⟨rfl, r, hr, rfl, hl⟩ := Store.selectLive_eq_some_iff.mp hsel
  obtain ⟨hmem, rfl⟩ := Store.row?_eq_some_iff.mp hr
  refine ⟨rfl, ?_⟩
  obtain ⟨os₁, o, e, os₂, hos, ho, ⟨he, hw⟩ | he⟩ := ha r hmem
  · exact ⟨os₁, o, e, os₂, hos, ho, hw, by rw [live_iff, he] at hl; omega⟩
  · -- the row of a deleted key is not live at any reading
    rw [live_iff, he] at hl
    omega

/-- A GET that returns a value returns the last value stored for its key, not deleted since and live at its reading. -/
theorem read_is_last_write {id : ρ} {key k value : String} {now : Int} {os : List Effect} (hi : Inv s)
    (ha : Attributed os s) (hget : s.execute id = some (.get key now (.kv k value), t)) :
    k = key ∧ ∃ os₁ o e os₂, os = os₁ ++ o :: os₂ ∧ o.Puts key value e ∧ (∀ o ∈ os₂, ¬o.writes key) ∧
      (e = 0 ∨ now < e) := by
  obtain ⟨htask, hans⟩ := execute_get hget
  have hnow : 0 ≤ now ∧ now ≤ s.clock := by simpa only [htask, Task.Ok] using hi.tasks id
  cases hsel : s.store.selectLive key now with
  | none =>
    rw [hsel] at hans
    cases hans
  | some kv =>
    obtain ⟨k', v⟩ := kv
    rw [hsel] at hans
    cases hans
    exact last_write_of_seen ha hnow.1 hsel

theorem inv_attributed_run {moves : List (Move ρ)} {os : List Effect}
    (hrun : (primary ρ batch).run Primary.init moves = some (os, s)) : Inv s ∧ Attributed os s :=
  Machine.run_history (M := primary ρ batch) (P := fun os s => Inv s ∧ Attributed os s)
    (fun hP hs => ⟨inv_step hP.1 hs, hP.2.change (step_change hs)⟩) (l := [])
    ⟨inv_init, fun r hr => by cases hr⟩ hrun

/-- **The cleanup loses no live write.** In every interleaving, a version that a PUT stored for a key and that was not
overwritten since is what a GET of the key returns while it is live, and a GET that returns a value returns its own key,
with the last value stored for it, not deleted since and live at the reading of the GET. -/
theorem interleaved_reads (batch : Nat) :
    (∀ (moves₁ moves₂ : List (Move ρ)) (os₁ os₂ : List Effect) (o : Effect) (s₁ s₂ s₃ s₄ : Primary ρ) (id id' : ρ)
      (key value : String) (expireAt now : Int) (answer : Response),
      (primary ρ batch).run Primary.init moves₁ = some (os₁, s₁) →
      (primary ρ batch).step s₁ (.execute id) = some (o, s₂) → o.Puts key value expireAt →
      (primary ρ batch).run s₂ moves₂ = some (os₂, s₃) → (∀ o ∈ os₂, ¬o.writes key) →
      (primary ρ batch).step s₃ (.execute id') = some (.get key now answer, s₄) →
      (expireAt = 0 ∨ s₃.clock < expireAt) → answer = .kv key value) ∧
    (∀ (moves : List (Move ρ)) (os : List Effect) (s t : Primary ρ) (id : ρ) (key k value : String) (now : Int),
      (primary ρ batch).run Primary.init moves = some (os, s) →
      (primary ρ batch).step s (.execute id) = some (.get key now (.kv k value), t) →
      k = key ∧ ∃ os₁ o e os₂, os = os₁ ++ o :: os₂ ∧ o.Puts key value e ∧ (∀ o ∈ os₂, ¬o.writes key) ∧
        (e = 0 ∨ now < e)) := by
  constructor
  · intro moves₁ moves₂ os₁ os₂ o s₁ s₂ s₃ s₄ id id' key value expireAt now answer h₁ hput ho h₂ hw hget hlive
    exact live_write_survives (inv_attributed_run h₁).1 hput ho h₂ hw hget hlive
  · intro moves os s t id key k value now hrun hget
    obtain ⟨hi, ha⟩ := inv_attributed_run hrun
    exact read_is_last_write hi ha hget

/-- "a" expires at 15 and "k" at 20. The cleanup takes the dead row of "a" between the two halves of a GET of "k". -/
theorem interleaved_reads_example :
    let moves₁ : List (Move Nat) :=
      [.tick 5, .readPut 0 "a" ⟨"1", some 10⟩, .readPut 1 "k" ⟨"v", some 15⟩, .execute 0]
    let moves₂ : List (Move Nat) :=
      [.readGet 2 "k", .tick 15, .readCleanup 3, .select 3 [0], .deleteNext 3, .deleteNext 3]
    ∃ os₁ s₁ s₂ os₂ s₃ answer s₄, (primary Nat cleanupBatchSize).run .init moves₁ = some (os₁, s₁) ∧
      (primary Nat cleanupBatchSize).step s₁ (.execute 1) = some (.put "k" "v" 20 (.kv "k" "v"), s₂) ∧
      (primary Nat cleanupBatchSize).run s₂ moves₂ = some (os₂, s₃) ∧ s₃.store.rows.length + 1 = s₂.store.rows.length ∧
      (primary Nat cleanupBatchSize).step s₃ (.execute 2) = some (.get "k" 5 answer, s₄) ∧ answer = .kv "k" "v" ∧
      ∃ l₁ o e l₂, os₁ ++ .put "k" "v" 20 (.kv "k" "v") :: os₂ = l₁ ++ o :: l₂ ∧ o.Puts "k" "v" e ∧
        (∀ o ∈ l₂, ¬o.writes "k") ∧ (e = 0 ∨ 5 < e) := by
  intro moves₁ moves₂
  have hrun : (((primary Nat cleanupBatchSize).run .init moves₁).bind fun r =>
      ((primary Nat cleanupBatchSize).step r.2 (.execute 1)).bind fun p =>
        ((primary Nat cleanupBatchSize).run p.2 moves₂).bind fun q =>
          ((primary Nat cleanupBatchSize).step q.2 (.execute 2)).map fun u =>
            decide (p.1 = .put "k" "v" 20 (.kv "k" "v") ∧ q.2.store.rows.length + 1 = p.2.store.rows.length ∧
              (∀ o ∈ q.1, ¬o.writes "k") ∧ u.1 = .get "k" 5 (.kv "k" "v") ∧ q.2.clock = 15)) = some true := by
    decide +kernel
  obtain ⟨⟨os₁, s₁⟩, h₁, hrun⟩ := Option.bind_eq_some_iff.mp hrun
  obtain ⟨⟨o, s₂⟩, hput, hrun⟩ := Option.bind_eq_some_iff.mp hrun
  obtain ⟨⟨os₂, s₃⟩, h₂, hrun⟩ := Option.bind_eq_some_iff.mp hrun
  obtain ⟨⟨o', s₄⟩, hget, hdec⟩ := Option.map_eq_some_iff.mp hrun
  obtain ⟨rfl, hrows, hw, rfl, hclock⟩ := of_decide_eq_true hdec
  have hputs : (Effect.put "k" "v" 20 (.kv "k" "v")).Puts "k" "v" 20 := ⟨"k", rfl, storedKey_of_le (by decide)⟩
  obtain ⟨hlive, hlast⟩ := interleaved_reads (ρ := Nat) cleanupBatchSize
  have hanswer := hlive moves₁ moves₂ os₁ os₂ _ s₁ s₂ s₃ s₄ 1 2 "k" "v" 20 5 _ h₁ hput hputs h₂ hw hget
    (Or.inr (by rw [hclock]; decide))
  have hall : (primary Nat cleanupBatchSize).run .init (moves₁ ++ .execute 1 :: moves₂) = some (_, s₃) :=
    (Machine.run_append_iff _).mpr ⟨os₁, _, s₁, h₁, (Machine.run_cons_iff _).mpr ⟨_, os₂, s₂, hput, h₂, rfl⟩, rfl⟩
  obtain ⟨-, l₁, o, e, l₂, hos, ho, hw', he⟩ := hlast _ _ s₃ s₄ 2 "k" "k" "v" 5 hall hget
  exact ⟨os₁, s₁, s₂, os₂, s₃, _, s₄, h₁, hput, h₂, hrows, hget, hanswer, l₁, o, e, l₂, hos, ho, hw', he⟩

end TheGrind.KvStore
