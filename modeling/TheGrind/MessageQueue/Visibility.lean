import Mathlib.Tactic.Linarith
import TheGrind.MessageQueue.Conservation

/-!
# The visibility timeout

With a clock that does not go back (`Clocked`), two deliveries of one message are more than the visibility timeout apart
(`visibility_exclusive`): the stamp of the later one is a reading of the clock taken after the reading that found the
earlier one expired (`Dated`).

An ack inside the window of its own delivery finds the entry of that delivery unless an ack of the same id came first:
the entry is keyed by the message and not by the delivery (`ack_in_window_iff`).
-/

namespace TheGrind.MessageQueue
open TheGrind.Data TheGrind.Transition

variable {τ : Type} {w w' : World} {a : Move τ} {o : Event τ} {os : List (Event τ)} {c : τ} {m : Message}
  {id : String} {t now vt : ℚ}

def Event.readings : Event τ → List ℚ
  | .received _ _ now => [now]
  | .acked _ _ now => [now]
  | .raised _ _ now => now
  | .requeued _ readings => readings
  | .published _ _ => []
  | .gaveUp _ => []

/-- The clock readings so far, in order. -/
def readings (os : List (Event τ)) : List ℚ := os.flatMap Event.readings

/-- The clock does not go back. -/
def Clocked (os : List (Event τ)) : Prop := (readings os).Pairwise (· ≤ ·)

theorem readings_append (os os' : List (Event τ)) : readings (os ++ os') = readings os ++ readings os' :=
  List.flatMap_append

theorem readings_singleton (o : Event τ) : readings [o] = o.readings := List.append_nil _

theorem Clocked.left {os' : List (Event τ)} (h : Clocked (os ++ os')) : Clocked os := by
  unfold Clocked at h
  rw [readings_append] at h
  exact (List.pairwise_append.mp h).1

theorem Clocked.le {os' : List (Event τ)} (h : Clocked (os ++ os')) {r r' : ℚ} (hr : r ∈ readings os)
    (hr' : r' ∈ readings os') : r ≤ r' := by
  unfold Clocked at h
  rw [readings_append] at h
  exact (List.pairwise_append.mp h).2.2 r hr r' hr'

theorem mem_readings {r : ℚ} (ho : o ∈ os) (hr : r ∈ o.readings) : r ∈ readings os :=
  List.mem_flatMap.mpr ⟨o, ho, hr⟩

/-! ## Two deliveries of one message -/

/-- Deliveries of one message, more than the visibility timeout apart. -/
def Event.Apart (vt : ℚ) : Event τ → Event τ → Prop
  | .received _ m t, .received _ m' t' => m.id = m'.id → vt < t' - t
  | _, _ => True

/-- How the stamps in flight and the readings so far relate to the deliveries so far. -/
structure Dated (vt : ℚ) (os : List (Event τ)) (w : World) : Prop where
  timeout : w.q.visibilityTimeout = vt
  delivered : ∀ c m t, .received c m t ∈ os → m ∈ published os
  waiting : ∀ c m t, .received c m t ∈ os → ∀ m' ∈ w.q.queue, m'.id = m.id → ∃ r ∈ readings os, vt < r - t
  stamped : ∀ c m t, .received c m t ∈ os → ∀ e ∈ w.q.inFlight.entries, e.1 = m.id → t ≤ e.2.2
  apart : os.Pairwise (Event.Apart vt)

namespace Dated

theorem init (vt : ℚ) : Dated vt ([] : List (Event τ)) (World.init vt) where
  timeout := rfl
  delivered _ _ _ h := absurd h List.not_mem_nil
  waiting _ _ _ h := absurd h List.not_mem_nil
  stamped _ _ _ h := absurd h List.not_mem_nil
  apart := List.Pairwise.nil

theorem mono_readings {P : ℚ → Prop} (o : Event τ) (h : ∃ r ∈ readings os, P r) : ∃ r ∈ readings (os ++ [o]), P r := by
  obtain ⟨r, hr, hP⟩ := h
  refine ⟨r, ?_, hP⟩
  rw [readings_append]
  exact List.mem_append_left _ hr

/-- A step that delivers nothing: what is new in the queue was found expired at the step. -/
theorem undelivered (h : Dated vt os w) (ho : ∀ c m t, o ≠ .received c m t)
    (ht : w'.q.visibilityTimeout = w.q.visibilityTimeout)
    (hqueue : ∀ m' ∈ w'.q.queue, m' ∈ w.q.queue ∨ (∀ c m t, .received c m t ∈ os → m'.id ≠ m.id) ∨
      ∃ e ∈ w.q.inFlight.entries, e.1 = m'.id ∧ ∃ r ∈ o.readings, vt < r - e.2.2)
    (hentries : ∀ e ∈ w'.q.inFlight.entries, e ∈ w.q.inFlight.entries) : Dated vt (os ++ [o]) w' := by
  have hold : ∀ {c m t}, .received c m t ∈ os ++ [o] → .received c m t ∈ os := by
    intro c m t hm
    rcases List.mem_append.mp hm with hm | hm
    · exact hm
    · exact absurd (List.mem_singleton.mp hm).symm (ho c m t)
  refine ⟨ht.trans h.timeout, fun c m t hm => ?_, fun c m t hm m' hm' hid => ?_, fun c m t hm e he hid =>
    h.stamped c m t (hold hm) e (hentries e he) hid, ?_⟩
  · rw [published_snoc]
    exact List.mem_append_left _ (h.delivered c m t (hold hm))
  · rcases hqueue m' hm' with hq | hnew | ⟨e, he, hown, r, hr, hlt⟩
    · exact mono_readings o (h.waiting c m t (hold hm) m' hq hid)
    · exact absurd hid (hnew c m t (hold hm))
    · have hstamp := h.stamped c m t (hold hm) e he (hown.trans hid)
      exact ⟨r, mem_readings (List.mem_append_right _ List.mem_cons_self) hr, by linarith⟩
  · refine List.pairwise_append.mpr ⟨h.apart, List.pairwise_singleton _ _, fun o₁ _ o₂ ho₂ => ?_⟩
    obtain rfl := List.mem_singleton.mp ho₂
    unfold Event.Apart
    split
    · exact absurd rfl (ho _ _ _)
    · trivial

theorem receive {rest : List Message} (h : Dated vt os w) (hc : Conserved os w)
    (hclk : Clocked (os ++ [.received c m now])) (hq : w.q.queue = m :: rest) :
    Dated vt (os ++ [.received c m now])
      ⟨{ w.q with queue := rest, inFlight := w.q.inFlight.set m.id (m, now) }, w.issued⟩ := by
  have hmem : m ∈ w.q.queue := hq ▸ List.mem_cons_self
  have hset := Dict.entries_set_of_not_mem (v := (m, now)) (hc.not_inFlight hmem)
  have hnow : ∀ r ∈ readings os, r ≤ now := by
    intro r hr
    apply hclk.le hr
    rw [readings_singleton]
    exact List.mem_cons_self
  have hrest : ∀ m' ∈ rest, m'.id ≠ m.id := by
    have hnd := hc.partition.nodup .queue
    simp only [contents, hq, List.map_cons, List.nodup_cons] at hnd
    exact fun m' hm' he => hnd.1 (he ▸ List.mem_map_of_mem hm')
  refine ⟨h.timeout, fun c' m' t hm => ?_, fun c' m' t hm m₁ hm₁ hid => ?_, fun c' m' t hm e he hid => ?_, ?_⟩
  · rw [published_snoc]
    apply List.mem_append_left _
    rcases List.mem_append.mp hm with hm | hm
    · exact h.delivered c' m' t hm
    · cases List.mem_singleton.mp hm
      exact hc.queued m hmem
  · rcases List.mem_append.mp hm with hm | hm
    · exact mono_readings _ (h.waiting c' m' t hm m₁ (hq ▸ List.mem_cons_of_mem _ hm₁) hid)
    · cases List.mem_singleton.mp hm
      exact absurd hid (hrest m₁ hm₁)
  · simp only [hset] at he
    rcases List.mem_append.mp hm with hm | hm <;> rcases List.mem_append.mp he with he | he
    · exact h.stamped c' m' t hm e he hid
    · rw [List.mem_singleton.mp he]
      exact hnow t (mem_readings hm List.mem_cons_self)
    · cases List.mem_singleton.mp hm
      exact absurd (hid ▸ Dict.mem_keys_of_mem he) (hc.not_inFlight hmem)
    · cases List.mem_singleton.mp hm
      rw [List.mem_singleton.mp he]
  · refine List.pairwise_append.mpr ⟨h.apart, List.pairwise_singleton _ _, fun o₁ ho₁ o₂ ho₂ => ?_⟩
    obtain rfl := List.mem_singleton.mp ho₂
    unfold Event.Apart
    split
    · next c₁ m₁ t₁ c₂ m₂ t₂ heq =>
      cases heq
      intro hid
      obtain ⟨r, hr, hlt⟩ := h.waiting c₁ m₁ t₁ ho₁ m hmem hid.symm
      have hle := hnow r hr
      linarith
    · trivial

theorem steps (h : Dated vt os w) (hc : Conserved os w) (hclk : Clocked (os ++ [o])) (hs : Steps w o w') :
    Dated vt (os ++ [o]) w' := by
  cases hs with
  | @published c m hid =>
    refine h.undelivered (fun _ _ _ he => by cases he) rfl (fun m' hm' => ?_) fun e he => he
    rcases List.mem_append.mp hm' with hm' | hm'
    · exact Or.inl hm'
    · obtain rfl := List.mem_singleton.mp hm'
      exact Or.inr (Or.inl fun c' m₁ t hm he => hid (he ▸ hc.published_mem (h.delivered c' m₁ t hm)))
  | received hq => exact h.receive hc hclk hq
  | gaveUp _ => exact h.undelivered (fun _ _ _ he => by cases he) rfl (fun m' hm' => Or.inl hm') fun e he => he
  | acked _ =>
    exact h.undelivered (fun _ _ _ he => by cases he) rfl (fun m' hm' => Or.inl hm') fun e he =>
      (Dict.mem_erase.mp he).1
  | raised _ => exact h.undelivered (fun _ _ _ he => by cases he) rfl (fun m' hm' => Or.inl hm') fun e he => he
  | @requeued c readings d hlen hd =>
    refine h.undelivered (fun _ _ _ he => by cases he) rfl (fun m' hm' => ?_) fun e he => ?_
    · rcases List.mem_append.mp hm' with hm' | hm'
      · obtain ⟨e, he, rfl⟩ := List.mem_map.mp (List.mem_reverse.mp hm')
        obtain ⟨hmem, r, hr, hlt⟩ := SimpleQueue.mem_expired he
        rw [h.timeout] at hlt
        exact Or.inr (Or.inr ⟨e, hmem, (hc.inFlight e hmem).1, r, hr, hlt⟩)
      · exact Or.inl hm'
    · simp only [hd] at he
      exact (List.mem_filter.mp he).1

end Dated

theorem conserved_dated_run {moves : List (Move τ)}
    (h : (simpleQueue τ).run (World.init vt) moves = some (os, w)) : Conserved os w ∧ (Clocked os → Dated vt os w) :=
  Machine.run_history (M := simpleQueue τ) (P := fun os w => Conserved os w ∧ (Clocked os → Dated vt os w))
    (fun hP hs => ⟨hP.1.steps (step_steps hs), fun hclk => (hP.2 hclk.left).steps hP.1 hclk (step_steps hs)⟩)
    (l := []) ⟨.init vt, fun _ => .init vt⟩ h

/-- **Visibility exclusivity.** Under a clock that does not go back, a later delivery of a message is stamped more than
the visibility timeout after an earlier one. -/
theorem visibility_exclusive (vt : ℚ) (moves : List (Move τ)) (os : List (Event τ)) (w : World)
    (h : (simpleQueue τ).run (World.init vt) moves = some (os, w)) (hclk : Clocked os) :
    os.Pairwise (Event.Apart vt) :=
  ((conserved_dated_run h).2 hclk).apart

/-- Two deliveries of one message, at 2 and at 9 with a timeout of 5. -/
theorem visibility_exclusive_example :
    List.Pairwise (Event.Apart 5) [.published 0 ⟨"1", "a"⟩, .received 1 ⟨"1", "a"⟩ 2, .requeued 2 [3],
      .requeued 2 [8], .received 3 ⟨"1", "a"⟩ 9] := by
  obtain ⟨w, h⟩ := Machine.exists_run (simpleQueue Nat) (s := World.init 5)
    (show ((simpleQueue Nat).run (World.init 5) [.publish 0 "1" "a", .receive 1 2, .requeueExpired 2 [3],
      .requeueExpired 2 [8], .receive 3 9]).map Prod.fst = some [.published 0 ⟨"1", "a"⟩, .received 1 ⟨"1", "a"⟩ 2,
      .requeued 2 [3], .requeued 2 [8], .received 3 ⟨"1", "a"⟩ 9] by decide +kernel)
  exact visibility_exclusive 5 _ _ w h (by unfold Clocked; decide +kernel)

/-! ## Acks inside the window of a delivery -/

/-- From the delivery of `m` at `t` on, and while no clock reading leaves its window, the message is in flight with that
stamp or acknowledged. -/
structure Window (m : Message) (t vt : ℚ) (h os : List (Event τ)) (w : World) : Prop where
  conserved : Conserved (h ++ os) w
  timeout : w.q.visibilityTimeout = vt
  held : (∀ r ∈ readings os, r ≤ t + vt) → m.id ∈ acked (h ++ os) ∨ (m.id, m, t) ∈ w.q.inFlight.entries

namespace Window
variable {h : List (Event τ)}

theorem steps (hw : Window m t vt h os w) (hs : Steps w o w') : Window m t vt h (os ++ [o]) w' := by
  have hc := hw.conserved.steps hs
  rw [List.append_assoc] at hc
  refine ⟨hc, ?_, fun hle => ?_⟩
  · cases hs <;> exact hw.timeout
  · rw [readings_append, readings_singleton] at hle
    rw [← List.append_assoc, acked_snoc]
    rcases hw.held fun r hr => hle r (List.mem_append_left _ hr) with hid | hmem
    · exact Or.inl (List.mem_append_left _ hid)
    · cases hs with
      | published _ => exact Or.inr hmem
      | @received c' m' now rest hq =>
        have hset := Dict.entries_set_of_not_mem (v := (m', now))
          (hw.conserved.not_inFlight (hq ▸ List.mem_cons_self))
        right
        show (m.id, m, t) ∈ (w.q.inFlight.set m'.id (m', now)).entries
        rw [hset]
        exact List.mem_append_left _ hmem
      | gaveUp _ => exact Or.inr hmem
      | @acked c' id now hid =>
        by_cases he : m.id = id
        · exact Or.inl (List.mem_append_right _ (he ▸ List.mem_cons_self))
        · exact Or.inr (Dict.mem_erase.mpr ⟨hmem, he⟩)
      | raised _ => exact Or.inr hmem
      | @requeued c' rs d hlen hd =>
        right
        show (m.id, m, t) ∈ d.entries
        rw [hd, List.mem_filter]
        refine ⟨hmem, decide_eq_true fun hexp => ?_⟩
        obtain ⟨e, he, heq⟩ := List.mem_map.mp hexp
        obtain ⟨hmem', r, hr, hlt⟩ := SimpleQueue.mem_expired he
        obtain rfl := List.inj_on_of_nodup_map w.q.inFlight.nodup hmem' hmem heq
        have hrle := hle r (List.mem_append_right _ hr)
        rw [hw.timeout] at hlt
        simp only at hlt
        linarith

theorem run {os' : List (Event τ)} {moves : List (Move τ)} (hw : Window m t vt h os w)
    (hrun : (simpleQueue τ).run w moves = some (os', w')) : Window m t vt h (os ++ os') w' :=
  Machine.run_history (M := simpleQueue τ) (P := Window m t vt h) (fun hP hs => hP.steps (step_steps hs)) hw hrun

end Window

theorem step_ack_cases (h : (simpleQueue τ).step w (.ack c id now) = some (o, w')) :
    (id ∈ w.q.inFlight.keys ∧ o = .acked c id now) ∨ (id ∉ w.q.inFlight.keys ∧ o = .raised c ⟨id⟩ [now]) := by
  by_cases hid : id ∈ w.q.inFlight.keys
  · rw [step_ack_of_mem hid] at h
    cases h
    exact Or.inl ⟨hid, rfl⟩
  · rw [step_ack_of_not_mem hid] at h
    cases h
    exact Or.inr ⟨hid, rfl⟩

/-- Only an ack acknowledges. -/
theorem acked_move {d : τ} {now' : ℚ} (h : (simpleQueue τ).step w a = some (.acked d id now', w')) :
    a = .ack d id now' := by
  cases a with
  | publish c id' body =>
    simp only [simpleQueue] at h
    split at h <;> cases h
  | receive c now =>
    simp only [simpleQueue] at h
    split at h <;> cases h
  | ack c id' now =>
    rcases step_ack_cases h with ⟨-, ho⟩ | ⟨-, ho⟩
    · cases ho
      rfl
    · cases ho
  | requeueExpired c readings =>
    simp only [simpleQueue] at h
    split at h
    · split at h <;> cases h
    · cases h

/-- An ack of the message inside the window, from any thread, leaves it acknowledged. -/
theorem Window.ack {h : List (Event τ)} {d : τ} (hw : Window m t vt h os w)
    (hs : (simpleQueue τ).step w (.ack d m.id now) = some (o, w')) (hle : ∀ r ∈ readings os, r ≤ t + vt) :
    m.id ∈ acked (h ++ os ++ [o]) := by
  rw [acked_snoc]
  rcases step_ack_cases hs with ⟨-, rfl⟩ | ⟨hid, -⟩
  · exact List.mem_append_right _ List.mem_cons_self
  · rcases hw.held hle with hack | hmem
    · exact List.mem_append_left _ hack
    · exact absurd (Dict.mem_keys_of_mem hmem) hid

/-- `c` receives `m` at `t`; after `moves`, none of which is an ack of `m` by `c`, it calls `ack(m.id)`, whose critical
section is at `now`, inside the window, with outcome `o`. -/
def AckInWindow (vt : ℚ) (c : τ) (m : Message) (t now : ℚ) (moves : List (Move τ)) (o : Event τ) (w' : World) : Prop :=
  ∃ before os₁ os₂ w₁ w₂ w₃, (simpleQueue τ).run (World.init vt) before = some (os₁, w₁) ∧
    (simpleQueue τ).step w₁ (.receive c t) = some (.received c m t, w₂) ∧
    (simpleQueue τ).run w₂ moves = some (os₂, w₃) ∧ (∀ now', .ack c m.id now' ∉ moves) ∧
    (simpleQueue τ).step w₃ (.ack c m.id now) = some (o, w') ∧
    Clocked (os₁ ++ [.received c m t] ++ os₂ ++ [o]) ∧ now ≤ t + vt

/-- The window opens with the delivery. -/
theorem window_init {h : List (Event τ)} (hc : Conserved h w)
    (hs : (simpleQueue τ).step w (.receive c t) = some (.received c m t, w')) (ht : w.q.visibilityTimeout = vt) :
    Window m t vt (h ++ [.received c m t]) [] w' ∧ (m.id, m, t) ∈ w'.q.inFlight.entries := by
  have hst := step_steps hs
  have hmem : (m.id, m, t) ∈ w'.q.inFlight.entries := by
    cases hst with
    | received hq =>
      show (m.id, m, t) ∈ (w.q.inFlight.set m.id (m, t)).entries
      rw [Dict.entries_set_of_not_mem (hc.not_inFlight (hq ▸ List.mem_cons_self))]
      exact List.mem_append_right _ List.mem_cons_self
  refine ⟨⟨by rw [List.append_nil]; exact hc.steps hst, ?_, fun _ => Or.inr hmem⟩, hmem⟩
  cases hst
  exact ht

theorem timeout_run {moves : List (Move τ)} (h : (simpleQueue τ).run (World.init vt) moves = some (os, w)) :
    w.q.visibilityTimeout = vt := by
  refine Machine.run_invariant (M := simpleQueue τ) (P := fun w => w.q.visibilityTimeout = vt) (fun hP hs => ?_) rfl h
  cases step_steps hs <;> exact hP

/-- After an ack inside the window the message stays acknowledged. -/
theorem Window.acked_of_ack_mem {h : List (Event τ)} {moves : List (Move τ)} {d : τ} (hw : Window m t vt h [] w)
    (hrun : (simpleQueue τ).run w moves = some (os, w')) (hle : ∀ r ∈ readings os, r ≤ t + vt)
    (hmem : .ack d m.id now ∈ moves) : m.id ∈ acked (h ++ os) := by
  obtain ⟨pre, post, rfl⟩ := List.append_of_mem hmem
  obtain ⟨os₁, os₂, w₁, hpre, hpost, rfl⟩ := (Machine.run_append_iff _).mp hrun
  obtain ⟨o, os₂, w₂, hs, -, rfl⟩ := (Machine.run_cons_iff _).mp hpost
  have hle₁ : ∀ r ∈ readings os₁, r ≤ t + vt := by
    intro r hr
    apply hle
    rw [readings_append]
    exact List.mem_append_left _ hr
  have hack : m.id ∈ acked (h ++ os₁ ++ [o]) := (hw.run hpre).ack hs hle₁
  rw [show h ++ (os₁ ++ o :: os₂) = h ++ os₁ ++ [o] ++ os₂ by simp, acked, List.filterMap_append]
  exact List.mem_append_left _ hack

theorem not_acked_run {moves : List (Move τ)} (hrun : (simpleQueue τ).run w moves = some (os, w'))
    (hno : ∀ d now, .ack d id now ∉ moves) : id ∉ acked os := by
  intro hmem
  obtain ⟨o, ho, hid⟩ := List.mem_filterMap.mp hmem
  obtain ⟨a, ha, w₁, w₂, hs⟩ := Machine.exists_step_of_mem _ hrun o ho
  unfold Event.acked? at hid
  split at hid
  · next d id' now =>
    obtain rfl := Option.some.inj hid
    exact hno d now (acked_move hs ▸ ha)
  · cases hid

/-- **When an ack inside its window succeeds.** The first ack of a delivery, inside its visibility window, returns
normally and removes the message for good if and only if no other consumer called `ack` with the id of the message since
the delivery. -/
theorem ack_in_window_iff (vt : ℚ) (c : τ) (m : Message) (t now : ℚ) (moves : List (Move τ)) (o : Event τ) (w : World)
    (h : AckInWindow vt c m t now moves o w) :
    (o = .acked c m.id now ∧ GoneForGood τ m.id w) ↔ ∀ d now', d ≠ c → .ack d m.id now' ∉ moves := by
  obtain ⟨before, os₁, os₂, w₁, w₂, w₃, h₁, hrec, h₂, hfirst, hack, hclk, hnow⟩ := h
  obtain ⟨hw₂, hmem₂⟩ := window_init (conserved_run h₁) hrec (timeout_run h₁)
  have hw₃ : Window m t vt (os₁ ++ [.received c m t]) os₂ w₃ := hw₂.run h₂
  have hle : ∀ r ∈ readings os₂, r ≤ t + vt := by
    intro r hr
    have hlast : now ∈ readings [o] := by
      rw [readings_singleton]
      rcases step_ack_cases hack with ⟨-, rfl⟩ | ⟨-, rfl⟩ <;> exact List.mem_cons_self
    have hr' : r ∈ readings (os₁ ++ [.received c m t] ++ os₂) := by
      rw [readings_append]
      exact List.mem_append_right _ hr
    exact (hclk.le hr' hlast).trans hnow
  constructor
  · rintro ⟨rfl, -⟩ d now' - hmem
    -- the ack of `d` took the entry, and nothing brings it back
    have hnot := (hw₃.conserved.gone (hw₂.acked_of_ack_mem h₂ hle hmem)).2
    rcases step_ack_cases hack with ⟨hid, -⟩ | ⟨-, ho⟩
    · exact hnot hid
    · cases ho
  · intro hno
    have hnone : ∀ d now', .ack d m.id now' ∉ moves := by
      intro d now' hmem
      by_cases hdc : d = c
      · exact hfirst now' (hdc ▸ hmem)
      · exact hno d now' hdc hmem
    have hnack : m.id ∉ acked (os₁ ++ [.received c m t] ++ os₂) := by
      intro hmem
      rw [acked, List.filterMap_append] at hmem
      rcases List.mem_append.mp hmem with hmem | hmem
      · have hgone := hw₂.conserved.gone (by rw [List.append_nil]; exact hmem)
        exact hgone.2 (Dict.mem_keys_of_mem hmem₂)
      · exact not_acked_run h₂ hnone hmem
    have hin : m.id ∈ w₃.q.inFlight.keys := Dict.mem_keys_of_mem ((hw₃.held hle).resolve_left hnack)
    rcases step_ack_cases hack with ⟨-, rfl⟩ | ⟨hid, -⟩
    · refine ⟨rfl, (hw₃.conserved.steps (step_steps hack)).goneForGood ?_⟩
      rw [acked_snoc]
      exact List.mem_append_right _ List.mem_cons_self
    · exact absurd hin hid

/-- The ack of a delivery at 7, with a timeout of 5, at 9; another thread finds the queue empty in between. -/
theorem ack_in_window_iff_example :
    ∃ w, (simpleQueue Nat).run (World.init 5) [.publish 0 "1" "a", .receive 2 7, .receive 1 8, .ack 2 "1" 9] =
        some ([.published 0 ⟨"1", "a"⟩, .received 2 ⟨"1", "a"⟩ 7, .gaveUp 1, .acked 2 "1" 9], w) ∧
      GoneForGood Nat "1" w := by
  have h : AckInWindow 5 2 ⟨"1", "a"⟩ 7 9 [.receive 1 8] (.acked 2 "1" 9) ⟨⟨[], .empty, 5⟩, ["1"]⟩ := by
    refine ⟨[.publish 0 "1" "a"], [.published 0 ⟨"1", "a"⟩], [.gaveUp 1], ⟨⟨[⟨"1", "a"⟩], .empty, 5⟩, ["1"]⟩,
      ⟨⟨[], ⟨[("1", ⟨"1", "a"⟩, 7)], by decide⟩, 5⟩, ["1"]⟩, ⟨⟨[], ⟨[("1", ⟨"1", "a"⟩, 7)], by decide⟩, 5⟩, ["1"]⟩,
      rfl, rfl, rfl, by simp, rfl, ?_, ?_⟩
    · unfold Clocked
      decide +kernel
    · decide +kernel
  obtain ⟨-, hgone⟩ := (ack_in_window_iff 5 2 ⟨"1", "a"⟩ 7 9 [.receive 1 8] _ _ h).mpr (by simp)
  exact ⟨_, rfl, hgone⟩

/-- The late ack of thread 1, for a delivery that was requeued, takes the entry of the new delivery, and the ack of
thread 2 raises two seconds into a window of five. -/
theorem ack_in_window_fails : ¬∀ (vt : ℚ) (c : Nat) (m : Message) (t now : ℚ) (moves : List (Move Nat))
    (o : Event Nat) (w : World), AckInWindow vt c m t now moves o w →
      o = .acked c m.id now ∧ GoneForGood Nat m.id w := by
  intro h
  have hrun : AckInWindow 5 2 ⟨"1", "a"⟩ 7 9 [.ack 1 "1" 8] (.raised 2 ⟨"1"⟩ [9]) ⟨⟨[], .empty, 5⟩, ["1"]⟩ := by
    refine ⟨[.publish 0 "1" "a", .receive 1 0, .requeueExpired 3 [6]],
      [.published 0 ⟨"1", "a"⟩, .received 1 ⟨"1", "a"⟩ 0, .requeued 3 [6]], [.acked 1 "1" 8],
      ⟨⟨[⟨"1", "a"⟩], .empty, 5⟩, ["1"]⟩, ⟨⟨[], ⟨[("1", ⟨"1", "a"⟩, 7)], by decide⟩, 5⟩, ["1"]⟩,
      ⟨⟨[], .empty, 5⟩, ["1"]⟩, ?_, rfl, rfl, by simp, rfl, ?_, ?_⟩
    · decide +kernel
    · unfold Clocked
      decide +kernel
    · decide +kernel
  exact absurd (h 5 2 ⟨"1", "a"⟩ 7 9 [.ack 1 "1" 8] _ _ hrun).1 (by simp)

end TheGrind.MessageQueue
