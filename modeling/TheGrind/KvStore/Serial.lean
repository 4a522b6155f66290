import TheGrind.Transition.Machine
import TheGrind.KvStore.Handlers

/-!
# The store refines a map with deadlines

What the store is for: `reference`, a map from keys to values with an optional deadline, in which a PUT overwrites the
entry, an entry is seen while it has no deadline or its deadline lies ahead, a DELETE of a seen entry removes it at
once, and the cleanup does nothing. `serial batch` runs the handlers on the table, one request at a time, each at its
own clock reading.

`Refines` relates a table to a map when every read from now on answers the same. Each request keeps it
(`putKey_refines`, `deleteKey_refines`, `selectLive_cleanupOnce`), so every run answers as the map does
(`serial_refines_reference`).
-/

namespace TheGrind.KvStore
open TheGrind.Data TheGrind.Transition

/-- A request; an iteration of the cleanup names the addresses its subquery picks. -/
inductive Request where
  | put (key : String) (body : PutRequest)
  | get (key : String)
  | delete (key : String)
  | cleanup (picked : List Nat)
  deriving DecidableEq, Repr

/-! ## The map with deadlines -/

/-- A value and the second from which it is gone. -/
structure Entry where
  value : String
  deadline : Option Int

/-- An entry is seen while it has no deadline or its deadline lies ahead. -/
def Entry.seen (now : Int) (e : Entry) : Bool :=
  match e.deadline with
  | none => true
  | some d => decide (d > now)

structure Reference where
  clock : Int
  entries : String → Option Entry

namespace Reference

def init : Reference := ⟨0, fun _ => none⟩

/-- What a read of a key sees. -/
def look (m : String → Option Entry) (key : String) (now : Int) : Option (String × String) :=
  ((m key).filter (Entry.seen now)).map fun e => (key, e.value)

/-- The answer to a request and the map after it. -/
def respond (m : String → Option Entry) (now : Int) : Request → Option Response × (String → Option Entry)
  | .put key body => (some (.kv key body.value), Function.update m key (some ⟨body.value, body.ttl.map (now + ·)⟩))
  | .get key => (some (getAnswer (look m key now)), m)
  | .delete key =>
    match look m key now with
    | none => (some keyNotFound, m)
    | some _ => (some statusSuccess, Function.update m key none)
  | .cleanup _ => (none, m)

end Reference

/-- The reference map as a machine: requests come at readings that do not go back. -/
def reference : Machine Reference (Int × Request) (Option Response) where
  step s a :=
    if a.1 < s.clock then none
    else let r := Reference.respond s.entries a.1 a.2; some (r.1, ⟨a.1, r.2⟩)

/-! ## The handlers, one request at a time -/

structure Serial where
  clock : Int
  store : Store

namespace Serial

def init : Serial := ⟨0, .empty⟩

/-- The answer to a request and the table after it. The cleanup answers nobody. -/
def respond (batch : Nat) (s : Store) (now : Int) : Request → Option (Option Response × Store)
  | .put key body => let r := putKey s now key body; some (some r.1, r.2)
  | .get key => some (some (getKey s now key), s)
  | .delete key => let r := deleteKey s now key; some (some r.1, r.2)
  | .cleanup picked =>
    if Batch batch (s.selectDead now) picked then some (none, (cleanupOnce s picked).2) else none

end Serial

/-- The handlers as a machine: requests come at readings that do not go back, and a cleanup picks a batch of dead rows
of the table it finds. -/
def serial (batch : Nat) : Machine Serial (Int × Request) (Option Response) where
  step s a :=
    if a.1 < s.clock then none
    else (Serial.respond batch s.store a.1 a.2).map fun r => (r.1, ⟨a.1, r.2⟩)

/-- The ttl of a PUT is absent or at least a second. -/
def Request.TtlPositive : Request → Prop
  | .put _ body => ∀ n ∈ body.ttl, 1 ≤ n
  | _ => True

instance : DecidablePred Request.TtlPositive
  | .put _ body => inferInstanceAs (Decidable (∀ n ∈ body.ttl, 1 ≤ n))
  | .get _ | .delete _ | .cleanup _ => inferInstanceAs (Decidable True)

/-- The deadline of a PUT at `now` is inside `BIGINT`. -/
def Request.DeadlineFits (now : Int) : Request → Prop
  | .put _ body => ∀ n ∈ body.ttl, fitsBigint (now + n)
  | _ => True

instance (now : Int) : DecidablePred (Request.DeadlineFits now)
  | .put _ body => inferInstanceAs (Decidable (∀ n ∈ body.ttl, fitsBigint (now + n)))
  | .get _ | .delete _ | .cleanup _ => inferInstanceAs (Decidable True)

/-- The key of a PUT is not too long. -/
def Request.KeyFits : Request → Prop
  | .put key _ => key.length ≤ keyMaxLength
  | _ => True

instance : DecidablePred Request.KeyFits
  | .put key _ => inferInstanceAs (Decidable (key.length ≤ keyMaxLength))
  | .get _ | .delete _ | .cleanup _ => inferInstanceAs (Decidable True)

/-! ## Refinement -/

/-- From `clock` on, every read of the table sees what the map shows. -/
def Refines (clock : Int) (s : Store) (m : String → Option Entry) : Prop :=
  0 ≤ clock ∧ ∀ key now, clock ≤ now → s.selectLive key now = Reference.look m key now

theorem Refines.mono {clock clock' : Int} {s : Store} {m : String → Option Entry} (h : Refines clock s m)
    (hle : clock ≤ clock') : Refines clock' s m :=
  ⟨le_trans h.1 hle, fun key now hn => h.2 key now (le_trans hle hn)⟩

theorem look_update (m : String → Option Entry) (key : String) (o : Option Entry) (k : String) (now : Int) :
    Reference.look (Function.update m key o) k now =
      if k = key then (o.filter (Entry.seen now)).map (fun e => (key, e.value)) else Reference.look m k now := by
  unfold Reference.look
  split
  · next h => rw [h, Function.update_self]
  · next h => rw [Function.update_of_ne h]

/-- A version written with the `expire_at` of a PUT is live exactly while its entry is seen: a positive ttl keeps the
column away from its two sentinels. -/
theorem live_putExpireAt {now : Int} {ttl : Option Int} (h0 : 0 ≤ now) (httl : ∀ n ∈ ttl, 1 ≤ n)
    (value : String) (now' : Int) :
    (now' < putExpireAt now ttl ∨ putExpireAt now ttl = 0) ↔
      Entry.seen now' ⟨value, ttl.map (now + ·)⟩ = true := by
  cases ttl with
  | none => simp [putExpireAt_none, Entry.seen]
  | some n =>
    have hn := httl n rfl
    rw [putExpireAt_some (by omega)]
    simp only [Entry.seen, Option.map_some, gt_iff_lt, decide_eq_true_eq]
    omega

theorem fitsBigint_putExpireAt {now : Int} {ttl : Option Int} (h : ∀ n ∈ ttl, fitsBigint (now + n)) :
    fitsBigint (putExpireAt now ttl) = true := by
  unfold putExpireAt
  split
  · next n =>
    split
    · exact h n rfl
    · rfl
  · rfl

theorem putKey_refines {now : Int} {s : Store} {m : String → Option Entry} {key : String} {body : PutRequest}
    (hR : Refines now s m) (httl : ∀ n ∈ body.ttl, 1 ≤ n) (hdeadline : ∀ n ∈ body.ttl, fitsBigint (now + n))
    (hkey : key.length ≤ keyMaxLength) :
    ∃ s', putKey s now key body = (.kv key body.value, s') ∧
      Refines now s' (Function.update m key (some ⟨body.value, body.ttl.map (now + ·)⟩)) := by
  refine ⟨_, putStatement_of_assign (Varchar.assign_of_le hkey) (fitsBigint_putExpireAt hdeadline), hR.1,
    fun k now' hle => ?_⟩
  rw [Store.selectLive_write, look_update, Option.filter_some]
  split
  · have hl := live_putExpireAt hR.1 httl body.value now'
    by_cases hs : Entry.seen now' ⟨body.value, body.ttl.map (now + ·)⟩ = true
    · rw [if_pos (hl.mpr hs), if_pos hs, Option.map_some]
    · rw [if_neg (fun hc => hs (hl.mp hc)), if_neg hs, Option.map_none]
  · exact hR.2 k now' hle

theorem deleteKey_refines {now : Int} {s : Store} {m : String → Option Entry} (hR : Refines now s m) (key : String) :
    (Reference.look m key now = none ∧ deleteKey s now key = (keyNotFound, s)) ∨
      (Reference.look m key now ≠ none ∧ ∃ s', deleteKey s now key = (statusSuccess, s') ∧
        Refines now s' (Function.update m key none)) := by
  have hlook := hR.2 key now (le_refl now)
  rcases softDelete_cases s key now with ⟨hnone, hd⟩ | ⟨r, hr, hl, hd⟩
  · refine Or.inl ⟨by rw [← hlook, hnone], ?_⟩
    simp only [deleteKey, hd, deleteAnswer_zero]
  · have hsome : s.selectLive key now = some (key, r.value) :=
      Store.selectLive_eq_some_iff.mpr ⟨rfl, r, hr, rfl, hl⟩
    refine Or.inr ⟨by rw [← hlook, hsome]; exact Option.some_ne_none _, s.write r.key r.value (-1), ?_, hR.1,
      fun k now' hle => ?_⟩
    · simp only [deleteKey, hd, deleteAnswer_one]
    · -- a deleted version is at `-1`, which no reading from `now ≥ 0` on takes for live
      rw [Store.selectLive_write, look_update, Store.row?_key hr]
      split
      · have h0 := hR.1
        rw [if_neg (by omega)]
        rfl
      · exact hR.2 k now' hle

/-- One request keeps the refinement and is answered as the map answers it. -/
theorem respond_refines {batch : Nat} {now : Int} {s s' : Store} {m : String → Option Entry} {q : Request}
    {o : Option Response} (hR : Refines now s m) (httl : q.TtlPositive) (hdeadline : q.DeadlineFits now)
    (hkey : q.KeyFits) (h : Serial.respond batch s now q = some (o, s')) :
    ∃ m', Reference.respond m now q = (o, m') ∧ Refines now s' m' := by
  cases q with
  | put key body =>
    obtain ⟨t, hput, hR'⟩ := putKey_refines hR httl hdeadline hkey
    simp only [Serial.respond, hput] at h
    cases h
    exact ⟨_, rfl, hR'⟩
  | get key =>
    cases h
    refine ⟨m, ?_, hR⟩
    rw [Reference.respond, getKey, hR.2 key now (le_refl now)]
  | delete key =>
    simp only [Serial.respond, Option.some.injEq, Prod.mk.injEq] at h
    obtain ⟨rfl, rfl⟩ := h
    rcases deleteKey_refines hR key with ⟨hlook, hd⟩ | ⟨hlook, t, hd, hR'⟩
    · refine ⟨m, ?_, ?_⟩
      · rw [Reference.respond, hlook, hd]
      · rw [hd]
        exact hR
    · refine ⟨Function.update m key none, ?_, ?_⟩
      · obtain ⟨kv, hkv⟩ := Option.ne_none_iff_exists'.mp hlook
        rw [Reference.respond, hkv, hd]
      · rw [hd]
        exact hR'
  | cleanup picked =>
    simp only [Serial.respond] at h
    split at h
    · next hb =>
      cases h
      exact ⟨m, rfl, hR.1, fun k now' hle => by rw [selectLive_cleanupOnce hb hle, hR.2 k now' hle]⟩
    · cases h

theorem serial_step_iff {batch : Nat} {s t : Serial} {a : Int × Request} {o : Option Response} :
    (serial batch).step s a = some (o, t) ↔
      s.clock ≤ a.1 ∧ t.clock = a.1 ∧ Serial.respond batch s.store a.1 a.2 = some (o, t.store) := by
  unfold serial
  simp only
  split
  · next h =>
    constructor
    · intro h'
      cases h'
    · intro h'
      omega
  · next h =>
    rw [Option.map_eq_some_iff]
    constructor
    · rintro ⟨⟨o', s'⟩, hr, he⟩
      cases he
      exact ⟨by omega, rfl, hr⟩
    · rintro ⟨-, hc, hr⟩
      exact ⟨(o, t.store), hr, by rw [← hc]⟩

/-- The two machines are at the same reading and the table refines the map. -/
def Related (s : Serial) (m : Reference) : Prop := s.clock = m.clock ∧ Refines s.clock s.store m.entries

theorem related_init : Related Serial.init Reference.init :=
  ⟨rfl, le_refl 0, fun key now _ => Store.selectLive_empty key now⟩

/-- A step of the handlers is a step of the reference with the same answer. -/
theorem reference_step {batch : Nat} {s t : Serial} {m : Reference} {a : Int × Request} {o : Option Response}
    (hR : Related s m) (ha : a.2.TtlPositive ∧ a.2.DeadlineFits a.1 ∧ a.2.KeyFits)
    (h : (serial batch).step s a = some (o, t)) : ∃ m', reference.step m a = some (o, m') ∧ Related t m' := by
  obtain ⟨hc, hR⟩ := hR
  obtain ⟨hle, ht, hr⟩ := serial_step_iff.mp h
  obtain ⟨entries, hm, hR'⟩ := respond_refines (hR.mono hle) ha.1 ha.2.1 ha.2.2 hr
  refine ⟨⟨a.1, entries⟩, ?_, ht, by rw [ht]; exact hR'⟩
  simp only [reference]
  rw [if_neg (by omega), hm]

/-- The reference answers no request with a 500. -/
theorem reference_answers {m m' : Reference} {a : Int × Request} {o : Option Response}
    (h : reference.step m a = some (o, m')) : o ≠ some .internalServerError := by
  simp only [reference] at h
  split at h
  · cases h
  · cases h
    cases a.2 with
    | put key body => simp [Reference.respond]
    | get key =>
      simp only [Reference.respond]
      cases Reference.look m.entries key a.1 <;> simp [getAnswer, keyNotFound]
    | delete key =>
      simp only [Reference.respond]
      cases Reference.look m.entries key a.1 <;> simp [keyNotFound, statusSuccess]
    | cleanup picked => simp [Reference.respond]

/-- **The store is a map with deadlines.** Every run of PUT, GET, DELETE and cleanup iterations, whatever batches the
cleanup picks, is answered as the reference answers the same requests, if the columns can hold what is put: no request
fails, and each gets the answer of the reference. -/
theorem serial_refines_reference (batch : Nat) (requests : List (Int × Request)) (responses : List (Option Response))
    (s : Serial) (hrun : (serial batch).run Serial.init requests = some (responses, s))
    (httl : ∀ a ∈ requests, a.2.TtlPositive) (hdeadline : ∀ a ∈ requests, a.2.DeadlineFits a.1)
    (hkey : ∀ a ∈ requests, a.2.KeyFits) :
    some Response.internalServerError ∉ responses ∧
      ∃ m, reference.run Reference.init requests = some (responses, m) := by
  obtain ⟨m, hm, -⟩ := Machine.run_lockstep (p := fun a => a.2.TtlPositive ∧ a.2.DeadlineFits a.1 ∧ a.2.KeyFits)
    reference_step related_init (fun a ha => ⟨httl a ha, hdeadline a ha, hkey a ha⟩) hrun
  have hok := (Machine.run_outputs (P := fun _ => True) (fun _ hs => ⟨reference_answers hs, trivial⟩) trivial hm).1
  exact ⟨fun hmem => hok _ hmem rfl, m, hm⟩

/-- A key that expires and is swept before it is written again, and a key that is deleted. -/
theorem serial_refines_reference_example :
    let requests : List (Int × Request) :=
      [(5, .put "k" ⟨"v", some 10⟩), (6, .get "k"), (15, .get "k"), (15, .cleanup [0]), (16, .put "k" ⟨"w", none⟩),
        (17, .delete "k"), (17, .get "k")]
    let responses : List (Option Response) :=
      [some (.kv "k" "v"), some (.kv "k" "v"), some keyNotFound, none, some (.kv "k" "w"), some statusSuccess,
        some keyNotFound]
    ∃ s m, (serial cleanupBatchSize).run Serial.init requests = some (responses, s) ∧
      reference.run Reference.init requests = some (responses, m) := by
  intro requests responses
  obtain ⟨s, hrun⟩ := Machine.exists_run (serial cleanupBatchSize)
    (show ((serial cleanupBatchSize).run Serial.init requests).map Prod.fst = some responses by decide +kernel)
  obtain ⟨-, m, hm⟩ := serial_refines_reference cleanupBatchSize requests responses s hrun (by decide) (by decide)
    (by decide)
  exact ⟨s, m, hrun, hm⟩

/-- A key of 255 letters and a blank is stored without the blank, and a GET of it finds nothing. -/
theorem long_key_is_cut : ¬∀ (batch : Nat) (requests : List (Int × Request)) (responses : List (Option Response))
    (s : Serial), (serial batch).run Serial.init requests = some (responses, s) →
    (∀ a ∈ requests, a.2.TtlPositive) → (∀ a ∈ requests, a.2.DeadlineFits a.1) →
    some Response.internalServerError ∉ responses →
    ∃ m, reference.run Reference.init requests = some (responses, m) := by
  intro hall
  obtain ⟨key, hkey⟩ : ∃ key, key = String.ofList (List.replicate 255 'k' ++ [' ']) := ⟨_, rfl⟩
  obtain ⟨stored, hassign, -⟩ := Varchar.assign_blanks (n := keyMaxLength) (l := List.replicate 255 'k')
    List.length_replicate 1
  have hput : putStatement .empty key "v" 0 = (.kv key "v", Store.empty.write stored "v" 0) :=
    putStatement_of_assign (hkey ▸ hassign) rfl
  have hlong : keyMaxLength < key.length := by
    rw [hkey, String.length_ofList, List.length_append, List.length_replicate]
    decide
  have hrun : (serial 1).run Serial.init [(5, .put key ⟨"v", none⟩), (6, .get key)] =
      some ([some (.kv key "v"), some keyNotFound], ⟨6, Store.empty.write stored "v" 0⟩) := by
    simp only [Machine.run, serial, Serial.init, Serial.respond, putKey, putExpireAt_none, hput, getKey,
      Store.selectLive_of_long hlong]
    rfl
  obtain ⟨m, hm⟩ := hall 1 _ _ _ hrun (by simp [Request.TtlPositive]) (by simp [Request.DeadlineFits])
    (by simp [keyNotFound])
  -- the reference shows the key to the GET
  simp [Machine.run, reference, Reference.respond, Reference.init, Reference.look, getAnswer, Entry.seen,
    Option.filter_some, keyNotFound] at hm

end TheGrind.KvStore
