import TheGrind.MessageQueue.Demo

/-!
# Consumers that are in time

The threads of `demo` under a clock that does not go back, when every good consumer gets to its `ack` inside the
visibility window of what it received. A delivery then ends with its own ack: no entry of `in_flight` is taken by the
ack of an older delivery, so no ack raises (`prompt_acks_return`).

* `Prompt` : the acks are inside the windows;
* `Attended` : what a consumer works on is in flight under the stamp of its delivery, unless the window is over;
* `Takes` : what an ack takes.
-/

namespace TheGrind.MessageQueue
open TheGrind.Data TheGrind.Transition

/-- An ack, whatever comes of it, is inside the window of a delivery of the message to its thread. Its instant is that
of its critical section: a call in time may wait for the lock until the window is over. -/
def Event.Prompt {τ : Type} (vt : ℚ) : Event τ → Event τ → Prop
  | .received t m r, .acked u id now => u = t → id = m.id → now ≤ r + vt
  | .received t m r, .raised u error readings => u = t → error.key = m.id → ∀ now ∈ readings, now ≤ r + vt
  | _, _ => True

/-- All acks are in time. -/
def Prompt {τ : Type} (vt : ℚ) (os : List (Event τ)) : Prop := os.Pairwise (Event.Prompt vt)

/-- What an ack takes is the last delivery of the message, and this was a delivery to its thread; no ack raises. -/
def Takes {τ : Type} (before : List (Event τ)) : Event τ → Prop
  | .acked t id _ => ∃ l l' m r, before = l ++ .received t m r :: l' ∧ m.id = id ∧
      ∀ u m' r', .received u m' r' ∈ l' → m'.id ≠ id
  | .raised _ _ _ => False
  | _ => True

section Prompt
variable {τ : Type} {jobs jobs' : τ → Job} {w w' : World} {o : Event τ} {os : List (Event τ)}
  {t u : τ} {job : Job} {m m' : Message} {vt r now : ℚ}

theorem Prompt.left {os' : List (Event τ)} (h : Prompt vt (os ++ os')) : Prompt vt os := (List.pairwise_append.mp h).1

/-- What a consumer works on is in flight with the stamp of its delivery, or a reading has left the window. -/
def Attended (vt : ℚ) (os : List (Event τ)) (w : World) (jobs : τ → Job) : Prop :=
  ∀ t m, jobs t = .working m → ∃ r, .received t m r ∈ os ∧
    ((m.id, m, r) ∈ w.q.inFlight.entries ∨ ∃ x ∈ readings os, vt < x - r)

theorem attended_start (vt : ℚ) (h : ∀ t, (jobs t).starts = true) : Attended vt [] w jobs := by
  intro t m hj
  have ht := h t
  rw [hj] at ht
  cases ht

/-- Two deliveries of a message with one stamp are the same. -/
theorem Dated.unique (h : Dated vt os w) (hvt : 0 ≤ vt) (ht : .received t m r ∈ os) (hu : .received u m' r ∈ os)
    (hid : m.id = m'.id) : t = u := by
  by_contra hne
  have hsymm : Std.Symm fun a b : Event τ => Event.Apart vt a b ∨ Event.Apart vt b a := ⟨fun _ _ => Or.symm⟩
  have hpairs : os.Pairwise fun a b => Event.Apart vt a b ∨ Event.Apart vt b a := h.apart.imp .inl
  have hevents : (Event.received t m r : Event τ) ≠ .received u m' r := by
    intro he
    cases he
    exact hne rfl
  rcases hpairs.forall ht hu hevents with hapart | hapart
  · have hlt : vt < r - r := hapart hid
    linarith
  · have hlt : vt < r - r := hapart hid.symm
    linarith

/-- What is known in every state of the program while all acks are in time. -/
structure Prompted (vt : ℚ) (os : List (Event τ)) (w : World) (jobs : τ → Job) : Prop where
  conserved : Conserved os w
  dated : Dated vt os w
  attended : Attended vt os w jobs

namespace Prompted

/-- A consumer that is in time finds its own entry. -/
theorem entry (h : Prompted vt os w jobs) (hj : jobs t = .working m) (hclock : ∀ x ∈ readings os, x ≤ now)
    (hprompt : ∀ r, .received t m r ∈ os → now ≤ r + vt) :
    ∃ r, .received t m r ∈ os ∧ (m.id, m, r) ∈ w.q.inFlight.entries ∧ 0 ≤ vt := by
  obtain ⟨r, hr, hheld⟩ := h.attended t m hj
  have hnow := hprompt r hr
  rcases hheld with hmem | ⟨x, hx, hlt⟩
  · have hle := hclock r (mem_readings hr List.mem_cons_self)
    exact ⟨r, hr, hmem, by linarith⟩
  · have hle := hclock x hx
    linarith

/-- The readings before an event that reads the clock. -/
theorem clock_le (hclk : Clocked (os ++ [o])) (hnow : now ∈ o.readings) : ∀ x ∈ readings os, x ≤ now := by
  intro x hx
  apply hclk.le hx
  rw [readings_singleton]
  exact hnow

/-- An ack in time takes the delivery of its own thread, and nobody else works on it inside its window. -/
theorem acked (h : Prompted vt os w jobs) (hj : jobs t = .working m) (hclk : Clocked (os ++ [.acked t m.id now]))
    (hp : Prompt vt (os ++ [.acked t m.id now])) :
    Takes os (.acked t m.id now) ∧
      ∀ u m' r, u ≠ t → .received u m' r ∈ os → (m'.id, m', r) ∈ w.q.inFlight.entries → m'.id ≠ m.id := by
  have hprompt : ∀ r, .received t m r ∈ os → now ≤ r + vt := fun r hr =>
    (List.pairwise_append.mp hp).2.2 _ hr _ List.mem_cons_self rfl rfl
  obtain ⟨r, hr, hmem, hvt⟩ := h.entry hj (clock_le hclk List.mem_cons_self) hprompt
  refine ⟨?_, fun u m' r' hu hr' hmem' hid => ?_⟩
  · obtain ⟨l, l', hsplit⟩ := List.append_of_mem hr
    refine ⟨l, l', m, r, hsplit, rfl, fun u m' r' hr' hid => ?_⟩
    have hapart := h.dated.apart
    rw [hsplit] at hapart
    have hlt : vt < r' - r := List.rel_of_pairwise_cons (List.pairwise_append.mp hapart).2.1 hr' hid.symm
    have hle : r' ≤ r := h.dated.stamped u m' r'
      (hsplit ▸ List.mem_append_right _ (List.mem_cons_of_mem _ hr')) _ hmem hid.symm
    linarith
  · have he := List.inj_on_of_nodup_map w.q.inFlight.nodup hmem' hmem hid
    simp only [Prod.mk.injEq] at he
    obtain ⟨-, rfl, rfl⟩ := he
    exact hu (h.dated.unique hvt hr' hr rfl)

/-- An ack in time does not raise. -/
theorem not_raised {readings : List ℚ} (h : Prompted vt os w jobs) (hj : jobs t = .working m)
    (hclk : Clocked (os ++ [.raised t ⟨m.id⟩ readings])) (hp : Prompt vt (os ++ [.raised t ⟨m.id⟩ readings]))
    (hs : Steps w (.raised t ⟨m.id⟩ readings) w') : False := by
  cases hs with
  | @raised _ _ now hid =>
    have hprompt : ∀ r, .received t m r ∈ os → now ≤ r + vt := fun r hr =>
      (List.pairwise_append.mp hp).2.2 _ hr _ List.mem_cons_self rfl rfl now List.mem_cons_self
    obtain ⟨r, -, hmem, -⟩ := h.entry hj (clock_le hclk List.mem_cons_self) hprompt
    exact hid (Dict.mem_keys_of_mem hmem)

end Prompted

variable [DecidableEq τ]

/-- A thread goes on to something else; each of the others keeps its entry, or its window is over. -/
theorem Attended.leave (h : Attended vt os w jobs) (hjob : ∀ m, job ≠ .working m)
    (hkeep : ∀ u m r, u ≠ t → jobs u = .working m → .received u m r ∈ os → (m.id, m, r) ∈ w.q.inFlight.entries →
      (m.id, m, r) ∈ w'.q.inFlight.entries ∨ ∃ x ∈ o.readings, vt < x - r) :
    Attended vt (os ++ [o]) w' (Function.update jobs t job) := by
  intro u m hu
  by_cases hut : u = t
  · subst hut
    rw [Function.update_self] at hu
    exact absurd hu (hjob m)
  · rw [Function.update_of_ne hut] at hu
    obtain ⟨r, hr, hheld⟩ := h u m hu
    refine ⟨r, List.mem_append_left _ hr, ?_⟩
    rcases hheld with hmem | hover
    · rcases hkeep u m r hut hu hr hmem with hmem | ⟨x, hx, hlt⟩
      · exact .inl hmem
      · exact .inr ⟨x, mem_readings (List.mem_append_right _ List.mem_cons_self) hx, hlt⟩
    · exact .inr (Dated.mono_readings o hover)

/-- A consumer receives a message. -/
theorem Attended.take (h : Attended vt os w jobs) (hc : Conserved os w) {rest : List Message}
    (hq : w.q.queue = m :: rest) (hjob : ∀ m', job = .working m' → m' = m) :
    Attended vt (os ++ [.received t m now])
      ⟨{ w.q with queue := rest, inFlight := w.q.inFlight.set m.id (m, now) }, w.issued⟩
      (Function.update jobs t job) := by
  have hset := Dict.entries_set_of_not_mem (v := (m, now)) (hc.not_inFlight (hq ▸ List.mem_cons_self))
  intro u m' hu
  show ∃ r, _ ∧ ((m'.id, m', r) ∈ (w.q.inFlight.set m.id (m, now)).entries ∨ _)
  rw [hset]
  by_cases hut : u = t
  · subst hut
    rw [Function.update_self] at hu
    obtain rfl := hjob m' hu
    exact ⟨now, List.mem_append_right _ List.mem_cons_self, .inl (List.mem_append_right _ List.mem_cons_self)⟩
  · rw [Function.update_of_ne hut] at hu
    obtain ⟨r, hr, hheld⟩ := h u m' hu
    refine ⟨r, List.mem_append_left _ hr, ?_⟩
    rcases hheld with hmem | hover
    · exact .inl (List.mem_append_left _ hmem)
    · exact .inr (Dated.mono_readings _ hover)

theorem Prompted.takes (h : Prompted vt os w jobs) (hs : Steps w o w') (hg : Goes jobs o jobs')
    (hclk : Clocked (os ++ [o])) (hp : Prompt vt (os ++ [o])) : Takes os o := by
  cases hg with
  | published _ | works _ | crashes _ | gaveUp _ | requeued _ => exact trivial
  | acked hj => exact (h.acked hj hclk hp).1
  | raised hj => exact (h.not_raised hj hclk hp hs).elim

theorem Prompted.step (h : Prompted vt os w jobs) (hs : Steps w o w') (hg : Goes jobs o jobs')
    (hclk : Clocked (os ++ [o])) (hp : Prompt vt (os ++ [o])) : Prompted vt (os ++ [o]) w' jobs' := by
  refine ⟨h.conserved.steps hs, h.dated.steps h.conserved hclk hs, ?_⟩
  cases hs with
  | published _ =>
    cases hg with
    | published _ => exact h.attended.leave (fun _ => by simp) fun _ _ _ _ _ _ hmem => .inl hmem
  | received hq =>
    cases hg with
    | works _ => exact h.attended.take h.conserved hq fun m' he => by cases he; rfl
    | crashes _ => exact h.attended.take h.conserved hq fun m' he => by cases he
  | gaveUp _ =>
    cases hg with
    | gaveUp _ => exact h.attended.leave (fun _ => by simp) fun _ _ _ _ _ _ hmem => .inl hmem
  | acked _ =>
    cases hg with
    | acked hj =>
      refine h.attended.leave (fun _ => by simp) fun u m' r hu _ hr hmem => .inl ?_
      exact Dict.mem_erase.mpr ⟨hmem, (h.acked hj hclk hp).2 u m' r hu hr hmem⟩
  | raised hid =>
    cases hg with
    | raised hj => exact (h.not_raised hj hclk hp (.raised hid)).elim
  | @requeued _ readings d hlen hd =>
    cases hg with
    | requeued _ =>
      refine h.attended.leave (fun _ => by simp) fun u m' r _ _ _ hmem => ?_
      by_cases hexpired : m'.id ∈ (w.q.expired readings).map Prod.fst
      · obtain ⟨e, he, hid⟩ := List.mem_map.mp hexpired
        obtain ⟨hin, x, hx, hlt⟩ := SimpleQueue.mem_expired he
        obtain rfl := List.inj_on_of_nodup_map w.q.inFlight.nodup hin hmem hid
        rw [h.dated.timeout] at hlt
        exact .inr ⟨x, hx, hlt⟩
      · left
        show (m'.id, m', r) ∈ d.entries
        rw [hd]
        exact List.mem_filter.mpr ⟨hmem, decide_eq_true hexpired⟩

theorem prompted_run {moves : List (Move τ)} {jobs₀ : τ → Job} (hstart : ∀ t, (jobs₀ t).starts = true)
    (h : ((simpleQueue τ).guided demo).run (World.init vt, jobs₀) moves = some (os, w, jobs)) (hclk : Clocked os)
    (hp : Prompt vt os) : Prompted vt os w jobs :=
  Machine.run_history (M := (simpleQueue τ).guided demo)
    (P := fun os s => Clocked os → Prompt vt os → Prompted vt os s.1 s.2) (l := [])
    (fun hP hs hclk hp => by
      obtain ⟨hs, hn⟩ := Machine.guided_step_iff.mp hs
      exact (hP hclk.left hp.left).step (step_steps hs) (goes_of_demo hn) hclk hp)
    (fun _ _ => ⟨.init vt, .init vt, attended_start vt hstart⟩) h hclk hp

/-- **Acks in time return.** The threads of the program interleave at will, monitors requeue what they find expired, and
the clock does not go back. If every good consumer gets to its `ack` inside the visibility window of its delivery, no ack
raises `KeyError`, and each takes the delivery that its own thread received: the last one of the message. -/
theorem prompt_acks_return (vt : ℚ) (jobs₀ : τ → Job) (hstart : ∀ t, (jobs₀ t).starts = true) (moves : List (Move τ))
    (os : List (Event τ)) (w : World) (jobs : τ → Job)
    (h : ((simpleQueue τ).guided demo).run (World.init vt, jobs₀) moves = some (os, w, jobs)) (hclk : Clocked os)
    (hp : Prompt vt os) : ∀ before o after, os = before ++ o :: after → Takes before o := by
  rintro before o after rfl
  obtain ⟨as, bs, ⟨w₁, jobs₁⟩, h₁, h₂⟩ := Machine.run_split _ h
  cases bs with
  | nil => cases h₂
  | cons b bs =>
    obtain ⟨o', os', ⟨w₂, jobs₂⟩, hs, -, he⟩ := (Machine.run_cons_iff _).mp h₂
    obtain ⟨rfl, rfl⟩ := List.cons.inj he
    obtain ⟨hs, hn⟩ := Machine.guided_step_iff.mp hs
    rw [List.append_cons] at hclk hp
    exact (prompted_run hstart h₁ hclk.left.left hp.left.left).takes (step_steps hs) (goes_of_demo hn) hclk.left hp.left

end Prompt

/-- A producer, a bad consumer, a monitor and a good consumer. -/
def crashedThenRequeued : Fin 4 → Job
  | 0 => .producer ["message 1"]
  | 1 => .badConsumer
  | 2 => .requeueMonitor 1
  | 3 => .goodConsumer

/-- The message that the bad consumer keeps is put back at 7, received at 8 and acknowledged at 9. -/
theorem prompt_acks_return_example : ∃ s, ((simpleQueue (Fin 4)).guided demo).run (World.init 3, crashedThenRequeued)
      [.publish 0 "1" "message 1", .receive 1 1, .requeueExpired 2 [7], .receive 3 8, .ack 3 "1" 9] =
        some ([.published 0 ⟨"1", "message 1"⟩, .received 1 ⟨"1", "message 1"⟩ 1, .requeued 2 [7],
          .received 3 ⟨"1", "message 1"⟩ 8, .acked 3 "1" 9], s) ∧
    Takes [.published 0 ⟨"1", "message 1"⟩, .received 1 ⟨"1", "message 1"⟩ 1, .requeued 2 [7],
      .received (3 : Fin 4) ⟨"1", "message 1"⟩ 8] (.acked 3 "1" 9) := by
  obtain ⟨⟨w, jobs⟩, h⟩ := Machine.exists_run ((simpleQueue (Fin 4)).guided demo)
    (s := (World.init 3, crashedThenRequeued)) (show (((simpleQueue (Fin 4)).guided demo).run
      (World.init 3, crashedThenRequeued) [.publish 0 "1" "message 1", .receive 1 1, .requeueExpired 2 [7],
      .receive 3 8, .ack 3 "1" 9]).map Prod.fst = some [.published 0 ⟨"1", "message 1"⟩,
      .received 1 ⟨"1", "message 1"⟩ 1, .requeued 2 [7], .received 3 ⟨"1", "message 1"⟩ 8, .acked 3 "1" 9] by
    decide +kernel)
  refine ⟨_, h, prompt_acks_return 3 crashedThenRequeued (by decide) _ _ w jobs h ?_ ?_ _ _ [] rfl⟩
  · unfold Clocked
    decide +kernel
  · norm_num [Prompt, Event.Prompt]
    decide

end TheGrind.MessageQueue
