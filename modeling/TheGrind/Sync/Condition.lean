import Mathlib.Data.Finset.Card
import Mathlib.Data.List.Nodup
import Mathlib.Logic.Function.Iterate

/-!
# A lock with a condition variable

`Condition τ` is a lock and its `threading.Condition`, as CPython implements it. `waiters` is the list of threads that
wait, oldest first; `notify` takes the oldest one off. A thread whose timeout elapses stays in the list until it has the
lock again (`reacquire`), and its wait returns false even if a notification picked it meanwhile: that notification is
spent. The invariants of the lists are fields, so every operation keeps them.

* `Asleep` : waits, and neither its timeout nor a notification has ended the wait;
* `woken` : the threads that a notification has woken and that do not have the lock yet;
* `Quiet` : what every operation but `wait`, the notifications and the return of a woken thread does.
-/

namespace TheGrind.Sync

/-- A lock with a condition variable, over threads `τ`. -/
structure Condition (τ : Type*) where
  owner : Option τ
  waiters : List τ
  timedOut : Finset τ
  woken : Finset τ
  nodup : waiters.Nodup
  woken_out : ∀ t ∈ woken, t ∉ waiters ∧ t ∉ timedOut
  owner_out : ∀ t, owner = some t → t ∉ waiters ∧ t ∉ timedOut ∧ t ∉ woken

namespace Condition
variable {τ : Type*} [DecidableEq τ] {c c' : Condition τ} {t u : τ} {b : Bool}

def init : Condition τ := ⟨none, [], ∅, ∅, List.nodup_nil, by simp, by simp⟩

/-- `t` waits, and nothing has ended its wait. -/
def Asleep (c : Condition τ) (t : τ) : Prop := t ∈ c.waiters ∧ t ∉ c.timedOut

instance (c : Condition τ) (t : τ) : Decidable (c.Asleep t) := inferInstanceAs (Decidable (_ ∧ _))

/-- `t` is in no wait. -/
def Outside (c : Condition τ) (t : τ) : Prop := t ∉ c.waiters ∧ t ∉ c.timedOut ∧ t ∉ c.woken

instance (c : Condition τ) (t : τ) : Decidable (c.Outside t) := inferInstanceAs (Decidable (_ ∧ _))

/-- A thread outside takes the free lock. -/
def acquire (c : Condition τ) (t : τ) : Option (Condition τ) :=
  if h : c.owner = none ∧ c.Outside t then
    some { c with owner := some t, owner_out := fun _ ht => Option.some.inj ht ▸ h.2 }
  else none

def release (c : Condition τ) (t : τ) : Option (Condition τ) :=
  if c.owner = some t then some { c with owner := none, owner_out := fun _ ht => nomatch ht } else none

/-- The owner joins the waiters and gives the lock up. -/
def wait (c : Condition τ) (t : τ) : Option (Condition τ) :=
  if h : c.owner = some t then
    have hout := c.owner_out t h
    some { c with
      owner := none
      waiters := c.waiters ++ [t]
      nodup := c.nodup.append (List.nodup_singleton t) (List.disjoint_singleton.mpr hout.1)
      woken_out := fun u hu => by
        refine ⟨fun hmem => ?_, (c.woken_out u hu).2⟩
        rcases List.mem_append.mp hmem with hmem | hmem
        · exact (c.woken_out u hu).1 hmem
        · exact hout.2.2 (List.mem_singleton.mp hmem ▸ hu)
      owner_out := fun _ ht => nomatch ht }
  else none

/-- The threads woken once the oldest waiter is notified. -/
def wokenNext (c : Condition τ) : Finset τ :=
  match c.waiters with
  | [] => c.woken
  | t :: _ => if t ∈ c.timedOut then c.woken else insert t c.woken

theorem mem_wokenNext (h : u ∈ c.wokenNext) : u ∈ c.woken ∨ (c.waiters.head? = some u ∧ u ∉ c.timedOut) := by
  unfold wokenNext at h
  split at h
  · exact Or.inl h
  · next t ts hw =>
    split at h
    · exact Or.inl h
    · next ht =>
      rcases Finset.mem_insert.mp h with rfl | h
      · exact Or.inr ⟨by rw [hw]; rfl, ht⟩
      · exact Or.inl h

/-- The oldest waiter is taken off; its wait will return true unless its timeout has elapsed. -/
def notify (c : Condition τ) : Condition τ where
  owner := c.owner
  waiters := c.waiters.tail
  timedOut := c.timedOut
  woken := c.wokenNext
  nodup := c.nodup.tail
  woken_out u hu := by
    rcases mem_wokenNext hu with hu | ⟨hu, hout⟩
    · exact ⟨fun hmem => (c.woken_out u hu).1 (List.mem_of_mem_tail hmem), (c.woken_out u hu).2⟩
    · refine ⟨fun hmem => ?_, hout⟩
      have hcons : c.waiters = u :: c.waiters.tail := List.eq_cons_of_mem_head? hu
      have hnd := c.nodup
      rw [hcons] at hnd
      exact (List.nodup_cons.mp hnd).1 hmem
  owner_out u hu := by
    obtain ⟨h₁, h₂, h₃⟩ := c.owner_out u hu
    refine ⟨fun hmem => h₁ (List.mem_of_mem_tail hmem), h₂, fun hmem => ?_⟩
    rcases mem_wokenNext hmem with hmem | ⟨hmem, -⟩
    · exact h₃ hmem
    · exact h₁ (List.mem_of_mem_head? hmem)

/-- `notify(len(waiters))` -/
def notifyAll (c : Condition τ) : Condition τ := notify^[c.waiters.length] c

/-- The timeout of a sleeping thread elapses. -/
def expire (c : Condition τ) (t : τ) : Option (Condition τ) :=
  if h : c.Asleep t then
    some { c with
      timedOut := insert t c.timedOut
      woken_out := fun u hu => by
        refine ⟨(c.woken_out u hu).1, fun hmem => ?_⟩
        rcases Finset.mem_insert.mp hmem with rfl | hmem
        · exact (c.woken_out u hu).1 h.1
        · exact (c.woken_out u hu).2 hmem
      owner_out := fun u hu => by
        obtain ⟨h₁, h₂, h₃⟩ := c.owner_out u hu
        refine ⟨h₁, fun hmem => ?_, h₃⟩
        rcases Finset.mem_insert.mp hmem with rfl | hmem
        · exact h₁ h.1
        · exact h₂ hmem }
  else none

/-- A spurious wakeup: a sleeping thread leaves the waiters unnotified. -/
def rouse (c : Condition τ) (t : τ) : Option (Condition τ) :=
  if c.Asleep t then
    some { c with
      waiters := c.waiters.erase t
      nodup := c.nodup.erase t
      woken_out := fun u hu => ⟨fun hmem => (c.woken_out u hu).1 (List.mem_of_mem_erase hmem), (c.woken_out u hu).2⟩
      owner_out := fun u hu => ⟨fun hmem => (c.owner_out u hu).1 (List.mem_of_mem_erase hmem), (c.owner_out u hu).2⟩ }
  else none

/-- A thread whose wait has ended takes the free lock; the wait returns false if its timeout elapsed. -/
def reacquire (c : Condition τ) (t : τ) : Option (Bool × Condition τ) :=
  if c.owner = none ∧ ¬c.Asleep t then
    some (decide (t ∉ c.timedOut), { c with
      owner := some t
      waiters := c.waiters.erase t
      timedOut := c.timedOut.erase t
      woken := c.woken.erase t
      nodup := c.nodup.erase t
      woken_out := fun u hu => by
        have hu' := c.woken_out u (Finset.mem_of_mem_erase hu)
        exact ⟨fun hmem => hu'.1 (List.mem_of_mem_erase hmem), fun hmem => hu'.2 (Finset.mem_of_mem_erase hmem)⟩
      owner_out := fun u hu => by
        obtain rfl := Option.some.inj hu
        exact ⟨fun hmem => (List.Nodup.mem_erase_iff c.nodup).mp hmem |>.1 rfl, Finset.notMem_erase _ _,
          Finset.notMem_erase _ _⟩ })
  else none

/-! ## What the operations do -/

/-- Nobody falls asleep, and the same threads stay woken. -/
structure Quiet (c c' : Condition τ) : Prop where
  asleep : ∀ u, c'.Asleep u → c.Asleep u
  woken : c'.woken = c.woken

omit [DecidableEq τ] in
theorem Quiet.of_eq (hw : c'.waiters = c.waiters) (ht : c'.timedOut = c.timedOut) (hk : c'.woken = c.woken) :
    Quiet c c' := by
  refine ⟨fun u hu => ?_, hk⟩
  unfold Asleep at hu ⊢
  rwa [hw, ht] at hu

/-- The owner becomes `o`, and every thread but `t` that was outside stays there. -/
structure Passes (t : τ) (o : Option τ) (c c' : Condition τ) : Prop where
  owner : c'.owner = o
  outside : ∀ u, u ≠ t → c.Outside u → c'.Outside u

omit [DecidableEq τ] in
theorem outside_of_owner (h : c.owner = some t) : c.Outside t := c.owner_out t h

theorem acquire_eq_some (h : c.acquire t = some c') : c.owner = none ∧ Passes t (some t) c c' ∧ Quiet c c' := by
  unfold acquire at h
  split at h
  · next ho =>
    cases h
    exact ⟨ho.1, ⟨rfl, fun u _ hu => hu⟩, .of_eq rfl rfl rfl⟩
  · cases h

theorem release_eq_some (h : c.release t = some c') :
    c.owner = some t ∧ c'.Outside t ∧ Passes t none c c' ∧ Quiet c c' := by
  unfold release at h
  split at h
  · next ho =>
    cases h
    exact ⟨ho, c.owner_out t ho, ⟨rfl, fun u _ hu => hu⟩, .of_eq rfl rfl rfl⟩
  · cases h

theorem wait_eq_some (h : c.wait t = some c') : c.owner = some t ∧ Passes t none c c' := by
  unfold wait at h
  split at h
  · next ho =>
    cases h
    refine ⟨ho, rfl, fun u hu hout => ⟨fun hmem => ?_, hout.2⟩⟩
    rcases List.mem_append.mp hmem with hmem | hmem
    · exact hout.1 hmem
    · exact hu (List.mem_singleton.mp hmem)
  · cases h

theorem expire_eq_some (h : c.expire t = some c') : Passes t c.owner c c' ∧ Quiet c c' := by
  unfold expire at h
  split at h
  · cases h
    refine ⟨⟨rfl, fun u hu hout => ⟨hout.1, fun hmem => ?_, hout.2.2⟩⟩, fun u hu => ⟨hu.1, fun hmem =>
      hu.2 (Finset.mem_insert_of_mem hmem)⟩, rfl⟩
    rcases Finset.mem_insert.mp hmem with rfl | hmem
    · exact hu rfl
    · exact hout.2.1 hmem
  · cases h

theorem rouse_eq_some (h : c.rouse t = some c') : Passes t c.owner c c' ∧ Quiet c c' := by
  unfold rouse at h
  split at h
  · cases h
    exact ⟨⟨rfl, fun u _ hout => ⟨fun hmem => hout.1 (List.mem_of_mem_erase hmem), hout.2⟩⟩,
      fun u hu => ⟨List.mem_of_mem_erase hu.1, hu.2⟩, rfl⟩
  · cases h

/-- If the timeout elapsed the thread was not woken, and the woken threads stay. -/
theorem reacquire_eq_some (h : c.reacquire t = some (b, c')) :
    c.owner = none ∧ Passes t (some t) c c' ∧ (∀ u, c'.Asleep u → c.Asleep u) ∧
      c.woken.card ≤ c'.woken.card + 1 ∧ (b = false → Quiet c c') := by
  unfold reacquire at h
  split at h
  · next ho =>
    cases h
    have hasleep : ∀ u, u ∈ c.waiters.erase t ∧ u ∉ c.timedOut.erase t → c.Asleep u := by
      rintro u ⟨hu, hout⟩
      obtain ⟨hne, hmem⟩ := (List.Nodup.mem_erase_iff c.nodup).mp hu
      exact ⟨hmem, fun hmem' => hout (Finset.mem_erase.mpr ⟨hne, hmem'⟩)⟩
    refine ⟨ho.1, ⟨rfl, fun u _ hout => ?_⟩, hasleep, ?_, fun hb => ⟨hasleep, ?_⟩⟩
    · exact ⟨fun hmem => hout.1 (List.mem_of_mem_erase hmem), fun hmem => hout.2.1 (Finset.mem_of_mem_erase hmem),
        fun hmem => hout.2.2 (Finset.mem_of_mem_erase hmem)⟩
    · have hcard := Finset.pred_card_le_card_erase (s := c.woken) (a := t)
      show c.woken.card ≤ (c.woken.erase t).card + 1
      omega
    · have ht : t ∈ c.timedOut := by simpa using hb
      exact Finset.erase_eq_of_notMem fun hw => (c.woken_out t hw).2 ht
  · cases h

/-- A thread outside can take the free lock. -/
theorem exists_acquire (ho : c.owner = none) (hout : c.Outside t) : ∃ c', c.acquire t = some c' :=
  ⟨_, dif_pos ⟨ho, hout⟩⟩

theorem exists_release (ho : c.owner = some t) : ∃ c', c.release t = some c' := ⟨_, if_pos ho⟩

theorem exists_wait (ho : c.owner = some t) : ∃ c', c.wait t = some c' := ⟨_, dif_pos ho⟩

theorem exists_reacquire (ho : c.owner = none) (ha : ¬c.Asleep t) : ∃ r, c.reacquire t = some r := ⟨_, if_pos ⟨ho, ha⟩⟩

theorem reacquire_awake (h : c.reacquire t = some (b, c')) : ¬c.Asleep t := by
  unfold reacquire at h
  split at h
  · next ho => exact ho.2
  · cases h

/-- The wait returns false exactly if the timeout has elapsed. -/
theorem reacquire_result (h : c.reacquire t = some (b, c')) : b = decide (t ∉ c.timedOut) := by
  unfold reacquire at h
  split at h
  · cases h
    rfl
  · cases h

omit [DecidableEq τ] in
theorem asleep_tail (h : u ∈ c.waiters.tail ∧ u ∉ c.timedOut) : c.Asleep u := ⟨List.mem_of_mem_tail h.1, h.2⟩

theorem passes_notify : Passes t c.owner c c.notify := by
  refine ⟨rfl, fun u _ hout => ⟨fun hmem => hout.1 (List.mem_of_mem_tail hmem), hout.2.1, fun hmem => ?_⟩⟩
  rcases mem_wokenNext hmem with hmem | ⟨hmem, -⟩
  · exact hout.2.2 hmem
  · exact hout.1 (List.mem_of_mem_head? hmem)

/-- A notification that reaches a sleeping thread wakes one more. -/
theorem card_woken_notify {ts : List τ} (hw : c.waiters = t :: ts) (ht : t ∉ c.timedOut) :
    c.notify.woken.card = c.woken.card + 1 := by
  have hnext : c.wokenNext = insert t c.woken := by
    unfold wokenNext
    rw [hw]
    exact if_neg ht
  have hmem : t ∈ c.waiters := hw ▸ List.mem_cons_self
  show c.wokenNext.card = _
  rw [hnext, Finset.card_insert_of_notMem fun hk => (c.woken_out t hk).1 hmem]

theorem passes_iterate_notify (n : Nat) : ∀ c : Condition τ, Passes t c.owner c (notify^[n] c) := by
  induction n with
  | zero => exact fun _ => ⟨rfl, fun _ _ h => h⟩
  | succ n ih =>
    intro c
    have h := ih c.notify
    exact ⟨h.owner, fun u hu hout => h.outside u hu ((passes_notify (t := t)).outside u hu hout)⟩

theorem waiters_iterate_notify (n : Nat) : ∀ c : Condition τ, (notify^[n] c).waiters = c.waiters.drop n := by
  induction n with
  | zero => exact fun _ => rfl
  | succ n ih =>
    intro c
    rw [Function.iterate_succ_apply, ih]
    show c.waiters.tail.drop n = _
    rw [List.drop_tail]

theorem passes_notifyAll : Passes t c.owner c c.notifyAll := passes_iterate_notify _ c

/-- After `notify_all` nobody is asleep. -/
theorem not_asleep_notifyAll : ¬c.notifyAll.Asleep u := by
  intro h
  have hmem : u ∈ c.notifyAll.waiters := h.1
  unfold notifyAll at hmem
  rw [waiters_iterate_notify, List.drop_length] at hmem
  exact absurd hmem List.not_mem_nil

end Condition

end TheGrind.Sync
