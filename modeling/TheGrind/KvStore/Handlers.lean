import TheGrind.KvStore.Store

/-!
# The request handlers on the primary

Each handler is its clock reading, its one statement and its answer. `putKey`, `getKey` and `deleteKey` do all three at
one instant; the halves (`putExpireAt`, `putStatement`, `getAnswer`, `deleteAnswer`) are what a handler does on either
side of its wait for a connection. `Batch` says which addresses the unordered `LIMIT` subquery of the cleanup may pick.
-/

namespace TheGrind.KvStore
open TheGrind.Data

/-- The body of a PUT: the value and the optional seconds until it expires. -/
structure PutRequest where
  value : String
  ttl : Option Int
  deriving DecidableEq, Repr

/-- What a client gets: `KVResponse`, the status of a DELETE, an `HTTPException`, or the 500 of a failed statement. -/
inductive Response where
  | kv (key value : String)
  | status (text : String)
  | httpException (statusCode : Nat) (detail : String)
  | internalServerError
  deriving DecidableEq, Repr

def keyNotFound : Response := .httpException 404 "Key not found"

def statusSuccess : Response := .status "success"

/-- `CLEANUP_BATCH_SIZE` -/
def cleanupBatchSize : Nat := 1000

/-! ## PUT -/

/-- `(_now() + body.ttl) if body.ttl else 0`: an absent ttl and a ttl of `0` are both falsy. -/
def putExpireAt (now : Int) (ttl : Option Int) : Int :=
  match ttl with
  | some n => if n ≠ 0 then now + n else 0
  | none => 0

/-- The UPSERT of `put_key`, and the answer to its client. -/
def putStatement (s : Store) (key value : String) (expireAt : Int) : Response × Store :=
  match s.upsert key value expireAt with
  | .ok s' => (.kv key value, s')
  | .error _ => (.internalServerError, s)

def putKey (s : Store) (now : Int) (key : String) (body : PutRequest) : Response × Store :=
  putStatement s key body.value (putExpireAt now body.ttl)

/-! ## GET -/

/-- The answer of `get_key` to the row it fetched. -/
def getAnswer (row : Option (String × String)) : Response :=
  match row with
  | none => keyNotFound
  | some (key, value) => .kv key value

/-- `get_key` with `consistent=true`: the read runs on the primary. -/
def getKey (s : Store) (now : Int) (key : String) : Response := getAnswer (s.selectLive key now)

/-! ## DELETE -/

/-- The answer of `delete_key` to the status of its UPDATE. -/
def deleteAnswer (result : String) : Response := if result = "UPDATE 0" then keyNotFound else statusSuccess

def deleteKey (s : Store) (now : Int) (key : String) : Response × Store :=
  let (result, s') := s.softDelete key now
  (deleteAnswer result, s')

/-! ## Cleanup -/

/-- At most `batch` of the candidates, each once. -/
def Selection (batch : Nat) (candidates picked : List Nat) : Prop :=
  picked.Nodup ∧ picked ⊆ candidates ∧ picked.length ≤ batch

instance (batch : Nat) (candidates picked : List Nat) : Decidable (Selection batch candidates picked) :=
  inferInstanceAs (Decidable (_ ∧ _ ∧ _))

/-- `picked` may be the rows of `SELECT ctid .. LIMIT batch` when `candidates` match its condition: as many as there
are, up to `batch`. -/
def Batch (batch : Nat) (candidates picked : List Nat) : Prop :=
  Selection batch candidates picked ∧ picked.length = min batch candidates.length

instance (batch : Nat) (candidates picked : List Nat) : Decidable (Batch batch candidates picked) :=
  inferInstanceAs (Decidable (_ ∧ _))

/-- One iteration of `cleanup_loop` that picked these addresses: the number of rows it deleted and the table. -/
def cleanupOnce (s : Store) (picked : List Nat) : Nat × Store := s.deleteCtids picked

/-! ## What the handlers do -/

theorem putExpireAt_none (now : Int) : putExpireAt now none = 0 := rfl

theorem putExpireAt_some {n : Int} (hn : n ≠ 0) (now : Int) : putExpireAt now (some n) = now + n := if_pos hn

theorem upsert_ok {s s' : Store} {key value : String} {expireAt : Int} (h : s.upsert key value expireAt = .ok s') :
    ∃ k, Varchar.assign keyMaxLength key = some k ∧ s' = s.write k value expireAt := by
  unfold Store.upsert at h
  split at h
  · cases h
  · next k hk =>
    split at h
    · cases h
    · exact ⟨k, hk, (Except.ok.inj h).symm⟩

/-- A PUT either stores its version and answers with it, or fails and leaves the table as it is. -/
theorem putStatement_cases (s : Store) (key value : String) (expireAt : Int) :
    (∃ k, Varchar.assign keyMaxLength key = some k ∧
      putStatement s key value expireAt = (.kv key value, s.write k value expireAt)) ∨
      putStatement s key value expireAt = (.internalServerError, s) := by
  unfold putStatement
  cases h : s.upsert key value expireAt with
  | ok s' =>
    obtain ⟨k, hk, rfl⟩ := upsert_ok h
    exact Or.inl ⟨k, hk, rfl⟩
  | error e => exact Or.inr rfl

/-- What a column can hold is stored. -/
theorem putStatement_of_assign {s : Store} {key value : String} {expireAt : Int} {k : Varchar keyMaxLength}
    (hk : Varchar.assign keyMaxLength key = some k) (hfits : fitsBigint expireAt = true) :
    putStatement s key value expireAt = (.kv key value, s.write k value expireAt) := by
  simp only [putStatement, Store.upsert, hk, hfits, Bool.not_true, Bool.false_eq_true, if_false]

/-- A DELETE succeeds exactly if a GET at the same reading would see the key, and then writes the deleted version. -/
theorem softDelete_cases (s : Store) (key : String) (now : Int) :
    (s.selectLive key now = none ∧ s.softDelete key now = (commandTag "UPDATE" 0, s)) ∨
      ∃ r, s.row? key = some r ∧ live now r = true ∧
        s.softDelete key now = (commandTag "UPDATE" 1, s.write r.key r.value (-1)) := by
  unfold Store.softDelete
  rw [Store.selectLive_eq, Store.find_live]
  cases h : (s.row? key).filter (live now) with
  | none => exact Or.inl ⟨rfl, rfl⟩
  | some r =>
    obtain ⟨hr, hl⟩ := Option.filter_eq_some_iff.mp h
    exact Or.inr ⟨r, hr, hl, rfl⟩

theorem deleteAnswer_zero : deleteAnswer (commandTag "UPDATE" 0) = keyNotFound :=
  if_pos ((Store.commandTag_update_zero_iff 0).mpr rfl)

theorem deleteAnswer_one : deleteAnswer (commandTag "UPDATE" 1) = statusSuccess :=
  if_neg fun h => one_ne_zero ((Store.commandTag_update_zero_iff 1).mp h)

/-- What an iteration selects is dead when it looks. -/
theorem Selection.dead {batch : Nat} {s : Store} {now : Int} {picked : List Nat}
    (h : Selection batch (s.selectDead now) picked) {r : Row} (hr : r ∈ s.rows) (hc : r.ctid ∈ picked) :
    dead now r = true := by
  obtain ⟨r', hr', he⟩ := List.mem_map.mp (h.2.1 hc)
  obtain ⟨hm, hd⟩ := List.mem_filter.mp hr'
  rwa [List.inj_on_of_nodup_map s.ctid_unique hm hr he] at hd

/-- A cleanup iteration at `now` changes no read from `now` on. -/
theorem selectLive_cleanupOnce {batch : Nat} {s : Store} {now now' : Int} {picked : List Nat}
    (h : Batch batch (s.selectDead now) picked) (hle : now ≤ now') (key : String) :
    (cleanupOnce s picked).2.selectLive key now' = s.selectLive key now' :=
  Store.selectLive_deleteCtids hle (fun _ hr hc => h.1.dead hr hc) key

end TheGrind.KvStore
