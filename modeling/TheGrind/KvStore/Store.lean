import Mathlib
import TheGrind.Data.Varchar

/-!
# The table `store` and its statements

* `Row`, `Store` : the current row versions of the table, each at its physical address `ctid`. The primary key, the
  uniqueness of addresses and the freshness of `nextCtid` are fields, so no statement can break them;
* `storedKey` : the key that a text is stored under;
* `upsert`, `selectLive`, `softDelete`, `selectDead`, `deleteCtids` : the SQL statements of the handlers, with the
  conditions of their `WHERE` clauses (`live`, `dead`);
* `row?` : the row of a key, and what each statement does to it (`row?_write`, `row?_deleteCtids`);
* `selectLive_*` : what a read sees after each statement.
-/

namespace TheGrind.KvStore
open TheGrind.Data

/-- `key VARCHAR(255)` -/
def keyMaxLength : Nat := 255

/-- A row version of `store` at its physical address. -/
structure Row where
  ctid : Nat
  key : Varchar keyMaxLength
  value : String
  expireAt : Int
  deriving DecidableEq, Repr

/-- `expire_at > now OR expire_at = 0` -/
def live (now : Int) (r : Row) : Bool := decide (r.expireAt > now ∨ r.expireAt = 0)

/-- `expire_at != 0 AND expire_at <= now` -/
def dead (now : Int) (r : Row) : Bool := decide (r.expireAt ≠ 0 ∧ r.expireAt ≤ now)

/-- The condition of the cleanup is the negation of the one GET and DELETE filter with. -/
theorem dead_eq_not_live (now : Int) (r : Row) : dead now r = !live now r := by
  by_cases h0 : r.expireAt = 0
  · simp [dead, live, h0]
  · simp only [dead, live, h0, or_false, ne_eq, not_false_eq_true, true_and, gt_iff_lt]
    rw [← decide_not, decide_eq_decide]
    exact Int.not_lt.symm

theorem live_iff {now : Int} {r : Row} : live now r = true ↔ now < r.expireAt ∨ r.expireAt = 0 := by
  simp [live]

/-- A dead row stays dead. -/
theorem dead_mono {now now' : Int} {r : Row} (hle : now ≤ now') (h : dead now r = true) : dead now' r = true := by
  simp only [dead, decide_eq_true_eq] at h ⊢
  omega

/-- The table `store`: the current row versions and the next unused address. -/
structure Store where
  rows : List Row
  nextCtid : Nat
  key_unique : (rows.map Row.key).Nodup
  ctid_unique : (rows.map Row.ctid).Nodup
  ctid_fresh : ∀ r ∈ rows, r.ctid < nextCtid

/-- What PostgreSQL refuses to store. -/
inductive PgError where
  | stringDataRightTruncation
  | numericValueOutOfRange
  deriving DecidableEq, Repr

/-- The key that a PUT of `key` is stored under, unless it is refused. -/
def storedKey (key : String) : Option String := (Varchar.assign keyMaxLength key).map Varchar.text

theorem storedKey_of_le {key : String} (h : key.length ≤ keyMaxLength) : storedKey key = some key := by
  rw [storedKey, Varchar.assign_of_le h, Option.map_some]

theorem storedKey_eq_some_iff {requested key : String} :
    storedKey requested = some key ↔ ∃ k, Varchar.assign keyMaxLength requested = some k ∧ k.text = key :=
  Option.map_eq_some_iff

/-- `expire_at BIGINT` -/
def fitsBigint (n : Int) : Bool := decide (-2 ^ 63 ≤ n ∧ n < 2 ^ 63)

/-- The status string of a statement that touched `n` rows, such as `UPDATE 1`. -/
def commandTag (verb : String) (n : Nat) : String := verb ++ " " ++ toString n

namespace Store

def empty : Store := ⟨[], 0, List.nodup_nil, List.nodup_nil, by simp⟩

/-- The row of a key. -/
def row? (s : Store) (key : String) : Option Row := s.rows.find? (·.key.text = key)

/-- A new row version of `key` at a fresh address, in place of its current version if it has one. -/
def write (s : Store) (key : Varchar keyMaxLength) (value : String) (expireAt : Int) : Store where
  rows := s.rows.filter (·.key ≠ key) ++ [⟨s.nextCtid, key, value, expireAt⟩]
  nextCtid := s.nextCtid + 1
  key_unique := by
    rw [List.map_append, List.map_singleton]
    refine (s.key_unique.sublist (List.filter_sublist.map _)).append (List.nodup_singleton _) ?_
    rw [List.disjoint_singleton]
    intro h
    obtain ⟨r, hr, he⟩ := List.mem_map.mp h
    simpa [he] using (List.mem_filter.mp hr).2
  ctid_unique := by
    rw [List.map_append, List.map_singleton]
    refine (s.ctid_unique.sublist (List.filter_sublist.map _)).append (List.nodup_singleton _) ?_
    rw [List.disjoint_singleton]
    intro h
    obtain ⟨r, hr, he⟩ := List.mem_map.mp h
    exact Nat.ne_of_lt (s.ctid_fresh r (List.mem_filter.mp hr).1) he
  ctid_fresh := by
    intro r hr
    rcases List.mem_append.mp hr with hr | hr
    · exact Nat.lt_succ_of_lt (s.ctid_fresh r (List.mem_filter.mp hr).1)
    · rw [List.mem_singleton.mp hr]
      exact Nat.lt_succ_self _

/-- `INSERT INTO store (key, value, expire_at) VALUES ($1, $2, $3)`
`ON CONFLICT (key) DO UPDATE SET value = $2, expire_at = $3`. A conflict is one with the key as the column stores it. -/
def upsert (s : Store) (key value : String) (expireAt : Int) : Except PgError Store :=
  match Varchar.assign keyMaxLength key with
  | none => .error .stringDataRightTruncation
  | some key =>
    if !fitsBigint expireAt then .error .numericValueOutOfRange
    else .ok (s.write key value expireAt)

/-- `SELECT key, value FROM store WHERE key = $1 AND (expire_at > $2 OR expire_at = 0)`, one row or none -/
def selectLive (s : Store) (key : String) (now : Int) : Option (String × String) :=
  (s.rows.find? fun r => r.key.text = key ∧ live now r).map fun r => (r.key.text, r.value)

/-- `UPDATE store SET expire_at = -1 WHERE key = $1 AND (expire_at > $2 OR expire_at = 0)`: the status string and the
table. The key is the primary key, so at most one row matches. -/
def softDelete (s : Store) (key : String) (now : Int) : String × Store :=
  match s.rows.find? fun r => r.key.text = key ∧ live now r with
  | none => (commandTag "UPDATE" 0, s)
  | some r => (commandTag "UPDATE" 1, s.write r.key r.value (-1))

/-- `SELECT ctid FROM store WHERE expire_at != 0 AND expire_at <= $1` -/
def selectDead (s : Store) (now : Int) : List Nat := (s.rows.filter (dead now)).map Row.ctid

/-- `DELETE FROM store WHERE ctid IN (..)`: the number of deleted rows and the table. -/
def deleteCtids (s : Store) (ctids : List Nat) : Nat × Store :=
  ((s.rows.filter (·.ctid ∈ ctids)).length,
    { rows := s.rows.filter (·.ctid ∉ ctids)
      nextCtid := s.nextCtid
      key_unique := s.key_unique.sublist (List.filter_sublist.map _)
      ctid_unique := s.ctid_unique.sublist (List.filter_sublist.map _)
      ctid_fresh := fun r hr => s.ctid_fresh r (List.mem_filter.mp hr).1 })

variable {key : Varchar keyMaxLength}

theorem mem_write {s : Store} {value : String} {expireAt : Int} {r : Row} :
    r ∈ (s.write key value expireAt).rows ↔
      (r ∈ s.rows ∧ r.key ≠ key) ∨ r = ⟨s.nextCtid, key, value, expireAt⟩ := by
  simp only [write, List.mem_append, List.mem_filter, List.mem_singleton, decide_eq_true_eq, ne_eq]

theorem mem_deleteCtids {s : Store} {ctids : List Nat} {r : Row} :
    r ∈ (s.deleteCtids ctids).2.rows ↔ r ∈ s.rows ∧ r.ctid ∉ ctids := by
  simp only [deleteCtids, List.mem_filter, decide_eq_true_eq]

/-! ## The row of a key -/

theorem row?_eq_some_iff {s : Store} {key : String} {r : Row} :
    s.row? key = some r ↔ r ∈ s.rows ∧ r.key.text = key := by
  constructor
  · intro h
    exact ⟨List.mem_of_find?_eq_some h, by simpa using List.find?_some h⟩
  · rintro ⟨hr, rfl⟩
    cases h : s.row? r.key.text with
    | none => simpa using List.find?_eq_none.mp h r hr
    | some r' =>
      have hmem := List.mem_of_find?_eq_some h
      have hkey : r'.key = r.key := Varchar.ext (by simpa using List.find?_some h)
      rw [List.inj_on_of_nodup_map s.key_unique hmem hr hkey]

theorem row?_key {s : Store} {key : String} {r : Row} (h : s.row? key = some r) : r.key.text = key :=
  (row?_eq_some_iff.mp h).2

/-- There is no row of a key that is too long. -/
theorem row?_of_long {s : Store} {key : String} (h : keyMaxLength < key.length) : s.row? key = none := by
  rw [Option.eq_none_iff_forall_ne_some]
  intro r hr
  exact Varchar.text_ne_of_lt h (row?_key hr)

theorem row?_write (s : Store) (key : Varchar keyMaxLength) (value : String) (expireAt : Int) (k : String) :
    (s.write key value expireAt).row? k =
      if k = key.text then some ⟨s.nextCtid, key, value, expireAt⟩ else s.row? k := by
  split
  · next h =>
    rw [row?_eq_some_iff, mem_write, h]
    exact ⟨Or.inr rfl, rfl⟩
  · next h =>
    ext r
    rw [row?_eq_some_iff, row?_eq_some_iff, mem_write]
    constructor
    · rintro ⟨⟨hr, -⟩ | rfl, hk⟩
      · exact ⟨hr, hk⟩
      · exact absurd hk.symm h
    · rintro ⟨hr, rfl⟩
      exact ⟨Or.inl ⟨hr, fun hk => h (congrArg Varchar.text hk)⟩, rfl⟩

theorem row?_deleteCtids_eq_some_iff (s : Store) (ctids : List Nat) (key : String) (r : Row) :
    (s.deleteCtids ctids).2.row? key = some r ↔ s.row? key = some r ∧ r.ctid ∉ ctids := by
  rw [row?_eq_some_iff, row?_eq_some_iff, mem_deleteCtids]
  exact and_right_comm

/-! ## Reads -/

theorem find_live (s : Store) (key : String) (now : Int) :
    (s.rows.find? fun r => r.key.text = key ∧ live now r) = (s.row? key).filter (live now) := by
  cases h : s.row? key with
  | none =>
    apply List.find?_eq_none.mpr
    intro r hr
    have hne := List.find?_eq_none.mp h r hr
    simp only [decide_eq_true_eq] at hne ⊢
    exact fun hc => hne hc.1
  | some r =>
    obtain ⟨hr, hk⟩ := row?_eq_some_iff.mp h
    rw [Option.filter_some]
    split
    · next hl =>
      cases hf : s.rows.find? fun r => r.key.text = key ∧ live now r with
      | none =>
        have hne := List.find?_eq_none.mp hf r hr
        simp [hk, hl] at hne
      | some r' =>
        have hp := List.find?_some hf
        simp only [decide_eq_true_eq] at hp
        have h' := row?_eq_some_iff.mpr ⟨List.mem_of_find?_eq_some hf, hp.1⟩
        rw [h] at h'
        exact h'.symm
    · next hl =>
      apply List.find?_eq_none.mpr
      intro r' hr'
      simp only [decide_eq_true_eq]
      rintro ⟨hk', hl'⟩
      have h' := row?_eq_some_iff.mpr ⟨hr', hk'⟩
      rw [h] at h'
      cases h'
      exact hl hl'

theorem selectLive_eq (s : Store) (key : String) (now : Int) :
    s.selectLive key now = ((s.row? key).filter (live now)).map fun r => (r.key.text, r.value) := by
  rw [selectLive, find_live]

theorem selectLive_eq_some_iff {s : Store} {key k v : String} {now : Int} :
    s.selectLive key now = some (k, v) ↔ k = key ∧ ∃ r, s.row? key = some r ∧ r.value = v ∧ live now r = true := by
  rw [selectLive_eq, Option.map_eq_some_iff]
  constructor
  · rintro ⟨r, hr, he⟩
    obtain ⟨hr, hl⟩ := Option.filter_eq_some_iff.mp hr
    cases he
    exact ⟨row?_key hr, r, hr, rfl, hl⟩
  · rintro ⟨rfl, r, hr, rfl, hl⟩
    exact ⟨r, Option.filter_eq_some_iff.mpr ⟨hr, hl⟩, by rw [row?_key hr]⟩

theorem selectLive_of_long {s : Store} {key : String} (h : keyMaxLength < key.length) (now : Int) :
    s.selectLive key now = none := by
  rw [selectLive_eq, row?_of_long h]
  rfl

theorem selectLive_empty (key : String) (now : Int) : empty.selectLive key now = none := rfl

/-- A write shows to the reads of its key exactly while its `expire_at` is live. -/
theorem selectLive_write (s : Store) (key : Varchar keyMaxLength) (value : String) (expireAt : Int) (k : String)
    (now : Int) :
    (s.write key value expireAt).selectLive k now =
      if k = key.text then (if now < expireAt ∨ expireAt = 0 then some (key.text, value) else none)
      else s.selectLive k now := by
  rw [selectLive_eq, row?_write]
  split
  · rw [Option.filter_some]
    by_cases h : now < expireAt ∨ expireAt = 0 <;> simp [live, h]
  · rw [selectLive_eq]

/-- Deleting addresses of rows that are dead at `now` changes no read from `now` on. -/
theorem selectLive_deleteCtids {s : Store} {ctids : List Nat} {now now' : Int} (hle : now ≤ now')
    (hdead : ∀ r ∈ s.rows, r.ctid ∈ ctids → dead now r = true) (key : String) :
    (s.deleteCtids ctids).2.selectLive key now' = s.selectLive key now' := by
  ext ⟨k, v⟩
  rw [selectLive_eq_some_iff, selectLive_eq_some_iff]
  apply and_congr_right
  intro _
  apply exists_congr
  intro r
  rw [row?_deleteCtids_eq_some_iff]
  constructor
  · rintro ⟨⟨hr, -⟩, hv, hl⟩
    exact ⟨hr, hv, hl⟩
  · rintro ⟨hr, hv, hl⟩
    refine ⟨⟨hr, fun hc => ?_⟩, hv, hl⟩
    have hd := dead_mono hle (hdead r (row?_eq_some_iff.mp hr).1 hc)
    rw [dead_eq_not_live, hl] at hd
    cases hd

/-! ## The status of a soft delete -/

theorem commandTag_update_zero_iff (n : Nat) : commandTag "UPDATE" n = "UPDATE 0" ↔ n = 0 := by
  constructor
  · intro h
    have h' : toString n = toString 0 := (String.append_right_inj ("UPDATE" ++ " ")).mp h
    exact Nat.repr_inj.mp h'
  · rintro rfl
    rfl

end Store

end TheGrind.KvStore
