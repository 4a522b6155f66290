import TheGrind.KvStore.Serial

/-!
# The ttl of a PUT

`put_key` turns the seconds a client asks for into the second at which the key is gone, in the column that marks keys
without an end by `0`. A ttl whose deadline is `0`, or that is `0` itself and so taken for an absent one, is stored as
"never" (`putExpireAt_eq_zero_iff`); every other ttl is kept to the second, whatever the cleanup does meanwhile. A key
that was cut is seen at no reading.

* `AfterPut` : a PUT was answered, and nothing but cleanup iterations came to its key since;
* `AfterPut.shown` : what the reads of the key see then;
* `TtlKept`, `ttl_kept_iff` : when the ttl is kept.
-/

namespace TheGrind.KvStore
open TheGrind.Data TheGrind.Transition

/-- The request leaves the row of `key` to others: it is for another key, or an iteration of the cleanup. -/
def Request.Spares (key : String) : Request → Prop
  | .put k _ => storedKey k ≠ some key
  | .get k | .delete k => k ≠ key
  | .cleanup _ => True

instance (key : String) : DecidablePred (Request.Spares key)
  | .put k _ => inferInstanceAs (Decidable (storedKey k ≠ some key))
  | .get k | .delete k => inferInstanceAs (Decidable (k ≠ key))
  | .cleanup _ => inferInstanceAs (Decidable True)

/-- The PUT of `body` was answered with success at `now`, and `s` is reached from there by requests that spare its
key. -/
def AfterPut (batch : Nat) (key : String) (body : PutRequest) (now : Int) (s : Serial) : Prop :=
  ∃ s₀ s₁ requests responses,
    (serial batch).step s₀ (now, .put key body) = some (some (.kv key body.value), s₁) ∧
      (∀ a ∈ requests, a.2.Spares key) ∧ (serial batch).run s₁ requests = some (responses, s)

/-- What a client means by a ttl: without one the key stays, and else until `n` seconds after the PUT. -/
def WithinTtl (now : Int) (ttl : Option Int) (t : Int) : Prop := ∀ n ∈ ttl, t < now + n

/-- Neither the ttl nor the deadline is the number that stands for "never". -/
def NotSentinel (now : Int) (ttl : Option Int) : Prop := ∀ n ∈ ttl, n ≠ 0 ∧ now + n ≠ 0

instance (now : Int) (ttl : Option Int) : Decidable (NotSentinel now ttl) :=
  inferInstanceAs (Decidable (∀ n ∈ ttl, n ≠ 0 ∧ now + n ≠ 0))

/-- The key is not too long and the ttl is not stored as "never". Of a key that was cut there is nothing to see, which
is right only once the ttl has run out. -/
def TtlKept (key : String) (now : Int) (ttl : Option Int) (t : Int) : Prop :=
  if key.length ≤ keyMaxLength then NotSentinel now ttl else ¬WithinTtl now ttl t

variable {batch : Nat} {key : String} {body : PutRequest} {now t : Int} {s s' : Serial} {ttl : Option Int}

/-! ## The deadline in the column -/

theorem putExpireAt_eq_zero_iff : putExpireAt now ttl = 0 ↔ ∀ n ∈ ttl, n = 0 ∨ now + n = 0 := by
  cases ttl with
  | none => simp [putExpireAt_none]
  | some n =>
    by_cases hn : n = 0
    · simp [putExpireAt, hn]
    · rw [putExpireAt_some hn]
      simp [hn]

/-- A deadline that is not taken for "never" is the one the client asked for. -/
theorem live_putExpireAt_iff (h : NotSentinel now ttl) (t : Int) :
    (t < putExpireAt now ttl ∨ putExpireAt now ttl = 0) ↔ WithinTtl now ttl t := by
  unfold WithinTtl
  cases ttl with
  | none => simp [putExpireAt_none]
  | some n =>
    obtain ⟨hn, hd⟩ := h n rfl
    rw [putExpireAt_some hn]
    simp [hd]

/-- A ttl that is stored as "never" has run out by the time of any later read. -/
theorem not_withinTtl (h0 : 0 ≤ now) (hle : now ≤ t) (h : ¬NotSentinel now ttl) :
    putExpireAt now ttl = 0 ∧ ¬WithinTtl now ttl t := by
  unfold NotSentinel at h
  push Not at h
  obtain ⟨n, hn, h⟩ := h
  cases hn
  have hzero : n = 0 ∨ now + n = 0 := by
    by_cases hn : n = 0
    · exact Or.inl hn
    · exact Or.inr (h hn)
  refine ⟨putExpireAt_eq_zero_iff.mpr fun m hm => ?_, fun hw => ?_⟩
  · cases hm
    exact hzero
  · have hlt := hw n rfl
    omega

/-! ## The reads after a PUT -/

/-- A request that spares a key changes no read of it from its own reading on. -/
theorem selectLive_spares {a : Int × Request} {o : Option Response} (ha : a.2.Spares key)
    (h : (serial batch).step s a = some (o, s')) (hle : s'.clock ≤ t) :
    s'.store.selectLive key t = s.store.selectLive key t := by
  obtain ⟨now, q⟩ := a
  obtain ⟨-, hclock, hr⟩ := serial_step_iff.mp h
  cases q with
  | put k body =>
    have hs : (putKey s.store now k body).2 = s'.store := congrArg Prod.snd (Option.some.inj hr)
    rcases putStatement_cases s.store k body.value (putExpireAt now body.ttl) with ⟨stored, hk, hc⟩ | hc
    · have hne : key ≠ stored.text := fun he => ha (storedKey_eq_some_iff.mpr ⟨stored, hk, he.symm⟩)
      rw [← hs, putKey, hc, Store.selectLive_write, if_neg hne]
    · rw [← hs, putKey, hc]
  | get k =>
    have hs : s.store = s'.store := congrArg Prod.snd (Option.some.inj hr)
    rw [hs]
  | delete k =>
    have hne : key ≠ k := fun he => ha he.symm
    have hs : (deleteKey s.store now k).2 = s'.store := congrArg Prod.snd (Option.some.inj hr)
    rcases softDelete_cases s.store k now with ⟨-, hd⟩ | ⟨r, hrow, -, hd⟩
    · rw [← hs, deleteKey, hd]
    · rw [← hs, deleteKey, hd]
      simp only
      rw [Store.selectLive_write, Store.row?_key hrow, if_neg hne]
  | cleanup picked =>
    simp only [Serial.respond] at hr
    split at hr
    · next hb =>
      have hs : (cleanupOnce s.store picked).2 = s'.store := congrArg Prod.snd (Option.some.inj hr)
      have hnow : now ≤ t := by omega
      rw [← hs, selectLive_cleanupOnce hb hnow]
    · cases hr

/-- From `now` on, the reads of `key` see `value` as long as `expireAt` is live. -/
def Shown (key value : String) (expireAt now : Int) (s : Serial) : Prop :=
  now ≤ s.clock ∧ ∀ t, s.clock ≤ t →
    s.store.selectLive key t = if t < expireAt ∨ expireAt = 0 then some (key, value) else none

theorem Shown.step {value : String} {expireAt : Int} {a : Int × Request} {o : Option Response}
    (h : Shown key value expireAt now s) (ha : a.2.Spares key) (hs : (serial batch).step s a = some (o, s')) :
    Shown key value expireAt now s' := by
  obtain ⟨hle, hc, -⟩ := serial_step_iff.mp hs
  obtain ⟨hnow, hreads⟩ := h
  refine ⟨by omega, fun t ht => ?_⟩
  rw [selectLive_spares ha hs ht]
  exact hreads t (by omega)

theorem AfterPut.shown (h : AfterPut batch key body now s) (hkey : key.length ≤ keyMaxLength) :
    Shown key body.value (putExpireAt now body.ttl) now s := by
  obtain ⟨s₀, s₁, requests, responses, hput, hspares, hrun⟩ := h
  obtain ⟨-, hclock, hr⟩ := serial_step_iff.mp hput
  have hput' : putKey s₀.store now key body = (.kv key body.value, s₁.store) := by
    obtain ⟨ho, hs⟩ := Prod.mk.inj (Option.some.inj hr)
    exact Prod.ext (Option.some.inj ho) hs
  have hstore : s₁.store = s₀.store.write ⟨key, hkey⟩ body.value (putExpireAt now body.ttl) := by
    unfold putKey at hput'
    rcases putStatement_cases s₀.store key body.value (putExpireAt now body.ttl) with ⟨k, hk, hc⟩ | hc
    · obtain rfl := Option.some.inj ((Varchar.assign_of_le hkey).symm.trans hk)
      rw [hc] at hput'
      exact (congrArg Prod.snd hput').symm
    · rw [hc] at hput'
      cases congrArg Prod.fst hput'
  have hshown : Shown key body.value (putExpireAt now body.ttl) now s₁ := by
    refine ⟨hclock.ge, fun t _ => ?_⟩
    rw [hstore, Store.selectLive_write, if_pos rfl]
  exact Machine.run_invariant_along (M := serial batch) (P := Shown key body.value (putExpireAt now body.ttl) now)
    Shown.step hshown (Machine.along_of_forall fun a ha _ => hspares a ha) hrun

/-- A GET after a PUT returns its value exactly while its `expire_at` is live. -/
theorem AfterPut.getKey_iff (h : AfterPut batch key body now s) (hkey : key.length ≤ keyMaxLength) (ht : s.clock ≤ t) :
    getKey s.store t key = .kv key body.value ↔ t < putExpireAt now body.ttl ∨ putExpireAt now body.ttl = 0 := by
  unfold getKey
  rw [(h.shown hkey).2 t ht]
  split
  · next hl => exact ⟨fun _ => hl, fun _ => rfl⟩
  · next hl => exact ⟨fun he => (by cases he), fun hl' => absurd hl' hl⟩

/-- A key that was cut is not found. -/
theorem getKey_of_long (hlong : keyMaxLength < key.length) (s : Store) (t : Int) : getKey s t key = keyNotFound := by
  rw [getKey, Store.selectLive_of_long hlong]
  rfl

/-- A DELETE succeeds exactly when a GET at its reading would return a value. -/
theorem deleteKey_iff (s : Store) (t : Int) (key : String) :
    (deleteKey s t key).1 = statusSuccess ↔ getKey s t key ≠ keyNotFound := by
  unfold getKey deleteKey
  rcases softDelete_cases s key t with ⟨hnone, hd⟩ | ⟨r, hr, hl, hd⟩
  · rw [hnone, hd]
    simp only [deleteAnswer_zero]
    exact iff_of_false (fun he => (by cases he)) fun hne => hne rfl
  · rw [Store.selectLive_eq_some_iff.mpr ⟨rfl, r, hr, rfl, hl⟩, hd]
    simp only [deleteAnswer_one]
    exact iff_of_true trivial fun he => (by cases he)

/-- A DELETE after a PUT succeeds exactly when a GET at its reading would return the value of the PUT. -/
theorem AfterPut.deleteKey_iff (h : AfterPut batch key body now s) (ht : s.clock ≤ t) :
    (deleteKey s.store t key).1 = statusSuccess ↔ getKey s.store t key = .kv key body.value := by
  rw [KvStore.deleteKey_iff]
  by_cases hkey : key.length ≤ keyMaxLength
  · unfold getKey
    rw [(h.shown hkey).2 t ht]
    split
    · exact iff_of_true (fun he => (by cases he)) rfl
    · exact iff_of_false (fun hne => hne rfl) fun he => (by cases he)
  · rw [getKey_of_long (Nat.lt_of_not_le hkey)]
    exact iff_of_false (fun hne => hne rfl) fun he => (by cases he)

/-- **When the ttl is kept.** After a PUT answered at `now`, with nothing but cleanup iterations on its key since: at
every reading, the GET returns its value exactly within the ttl, and the DELETE succeeds exactly when the GET would have
returned it, if and only if neither the ttl nor the deadline is the number that stands for "never" (or the key was cut
and the ttl has run out). With such a ttl a larger one makes no key live shorter. -/
theorem ttl_kept_iff (batch : Nat) (key : String) (now : Int) (h0 : 0 ≤ now) :
    (∀ (body : PutRequest) (s : Serial) (t : Int), AfterPut batch key body now s → s.clock ≤ t →
      ((getKey s.store t key = .kv key body.value ↔ WithinTtl now body.ttl t) ∧
        ((deleteKey s.store t key).1 = statusSuccess ↔ getKey s.store t key = .kv key body.value) ↔
        TtlKept key now body.ttl t)) ∧
    (∀ (value : String) (n n' : Int) (s s' : Serial) (t : Int), n ≤ n' → NotSentinel now (some n) →
      AfterPut batch key ⟨value, some n⟩ now s → AfterPut batch key ⟨value, some n'⟩ now s' → s.clock ≤ t →
      s'.clock ≤ t → getKey s.store t key = .kv key value → getKey s'.store t key = .kv key value) := by
  constructor
  · intro body s t hs ht
    rw [and_iff_left (hs.deleteKey_iff ht), TtlKept]
    split
    · next hkey =>
      have hle := (hs.shown hkey).1
      rw [hs.getKey_iff hkey ht]
      constructor
      · intro hlaw
        by_contra hn
        obtain ⟨hzero, hout⟩ := not_withinTtl h0 (le_trans hle ht) hn
        exact hout (hlaw.mp (Or.inr hzero))
      · exact fun hn => live_putExpireAt_iff hn t
    · next hkey =>
      rw [getKey_of_long (Nat.lt_of_not_le hkey)]
      exact ⟨fun hlaw hw => (by cases hlaw.mpr hw), fun hw => iff_of_false (fun he => (by cases he)) hw⟩
  · intro value n n' s s' t hnn hn hs hs' ht ht' hget
    by_cases hkey : key.length ≤ keyMaxLength
    · rw [hs.getKey_iff hkey ht, live_putExpireAt_iff hn] at hget
      have hlt : t < now + n := hget n rfl
      rw [hs'.getKey_iff hkey ht']
      by_cases hn' : NotSentinel now (some n')
      · rw [live_putExpireAt_iff hn']
        intro m hm
        cases hm
        omega
      · exact Or.inr (not_withinTtl h0 (le_trans (hs'.shown hkey).1 ht') hn').1
    · rw [getKey_of_long (Nat.lt_of_not_le hkey)] at hget
      cases hget

/-- Two PUTs with ttls of ten and of twenty seconds, each followed by a cleanup iteration, at the last second of the
shorter one. -/
theorem ttl_kept_iff_example :
    ∃ s s' : Serial, AfterPut 1000 "k" ⟨"v", some 10⟩ 5 s ∧ AfterPut 1000 "k" ⟨"v", some 20⟩ 5 s' ∧
      getKey s.store 14 "k" = .kv "k" "v" ∧ getKey s'.store 14 "k" = .kv "k" "v" := by
  have hput : ∀ n : Int, n = 10 ∨ n = 20 → ∃ s, AfterPut 1000 "k" ⟨"v", some n⟩ 5 s ∧ s.clock ≤ 14 := by
    rintro n (rfl | rfl)
    · exact ⟨⟨9, _⟩, ⟨Serial.init, _, [(9, .cleanup [])], _, rfl, by decide, rfl⟩, by decide⟩
    · exact ⟨⟨9, _⟩, ⟨Serial.init, _, [(9, .cleanup [])], _, rfl, by decide, rfl⟩, by decide⟩
  obtain ⟨s, hs, ht⟩ := hput 10 (Or.inl rfl)
  obtain ⟨s', hs', ht'⟩ := hput 20 (Or.inr rfl)
  obtain ⟨hkept, hmono⟩ := ttl_kept_iff 1000 "k" 5 (by decide)
  have hlaw := ((hkept ⟨"v", some 10⟩ s 14 hs ht).mpr (by rw [TtlKept, if_pos (by decide)]; decide)).1
  have hget : getKey s.store 14 "k" = .kv "k" "v" := hlaw.mpr fun n hn => by
    cases hn
    decide
  exact ⟨s, s', hs, hs', hget, hmono "v" 10 20 s s' 14 (by decide) (by decide) hs hs' ht ht' hget⟩

/-- A key that was stored with a ttl of `0` is still there ten years later. -/
theorem ttl_zero_never_expires : ¬∀ (batch : Nat) (key : String) (body : PutRequest) (now t : Int) (s : Serial),
    0 ≤ now → AfterPut batch key body now s → s.clock ≤ t →
      (getKey s.store t key = .kv key body.value ↔ WithinTtl now body.ttl t) := by
  intro h
  have hput : AfterPut 1000 "k" ⟨"v", some 0⟩ 5 ⟨5, (putKey .empty 5 "k" ⟨"v", some 0⟩).2⟩ :=
    ⟨Serial.init, _, [], [], rfl, by decide, rfl⟩
  have hlaw := h 1000 "k" ⟨"v", some 0⟩ 5 315360000 _ (by decide) hput (by decide)
  exact absurd (hlaw.mp (by decide) 0 rfl) (by decide)

end TheGrind.KvStore
