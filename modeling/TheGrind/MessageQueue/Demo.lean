import Mathlib.Data.Fintype.EquivFin
import TheGrind.Data.Family
import TheGrind.MessageQueue.Order

/-!
# The threads of the message queue

The program around a `SimpleQueue`: producers, consumers that acknowledge what they receive until a receive gives up or
an ack raises, consumers that return without an ack, and monitors that requeue. `demo` guides the queue through it.

* `Job` : where a thread is in its function, with the message that it has received;
* `Tended` : every message in flight is with a consumer, `Exclusive` : with one that nobody else shares it with;
* `demo_accounts` : where every published message is, in any state of the program and at its end;
* `remaining` : what is left to do, less with every critical section; `demo_ends` : so the program ends.
-/

namespace TheGrind.MessageQueue
open TheGrind.Data TheGrind.Transition

/-- Where a thread is in `producer`, `good_consumer`, `bad_consumer` or `requeue_monitor`. -/
inductive Job where
  | producer (bodies : List String)
  | goodConsumer
  | working (message : Message)
  | badConsumer
  | crashed (message : Message)
  | requeueMonitor (rounds : Nat)
  | returned
  | raised
  deriving DecidableEq

/-- The message that a consumer has received and not acknowledged. -/
def Job.message? : Job → Option Message
  | .working message | .crashed message => some message
  | .producer _ | .goodConsumer | .badConsumer | .requeueMonitor _ | .returned | .raised => none

theorem Job.message?_eq_some_iff {job : Job} {m : Message} :
    job.message? = some m ↔ job = .working m ∨ job = .crashed m := by
  cases job <;> simp [Job.message?]

/-- The thread has its function before it. -/
def Job.starts : Job → Bool
  | .producer _ | .goodConsumer | .badConsumer | .requeueMonitor _ => true
  | .working _ | .crashed _ | .returned | .raised => false

/-- The thread has left its function. -/
def Job.ended : Job → Bool
  | .producer [] | .crashed _ | .requeueMonitor 0 | .returned | .raised => true
  | .producer (_ :: _) | .goodConsumer | .working _ | .badConsumer | .requeueMonitor (_ + 1) => false

section Demo
variable {τ : Type} [DecidableEq τ]

/-- The functions of the threads. -/
def demo (jobs : τ → Job) (_ : Move τ) : Event τ → Option (τ → Job)
  | .published t message =>
    match jobs t with
    | .producer (body :: bodies) =>
      if message.body = body then some (Function.update jobs t (.producer bodies)) else none
    | _ => none
  | .received t message _ =>
    match jobs t with
    | .goodConsumer => some (Function.update jobs t (.working message))
    | .badConsumer => some (Function.update jobs t (.crashed message))
    | _ => none
  | .gaveUp t =>
    match jobs t with
    | .goodConsumer | .badConsumer => some (Function.update jobs t .returned)
    | _ => none
  | .acked t messageId _ =>
    match jobs t with
    | .working message =>
      if message.id = messageId then some (Function.update jobs t .goodConsumer) else none
    | _ => none
  | .raised t error _ =>
    match jobs t with
    | .working message => if message.id = error.key then some (Function.update jobs t .raised) else none
    | _ => none
  | .requeued t _ =>
    match jobs t with
    | .requeueMonitor (rounds + 1) => some (Function.update jobs t (.requeueMonitor rounds))
    | _ => none

variable {jobs jobs' : τ → Job} {w w' : World} {a : Move τ} {o : Event τ} {os : List (Event τ)} {t : τ} {job : Job}
  {m : Message} {keys keys' : List String}

/-- What the threads do at an event. -/
inductive Goes (jobs : τ → Job) : Event τ → (τ → Job) → Prop
  | published {t : τ} {m : Message} {bodies : List String} : jobs t = .producer (m.body :: bodies) →
      Goes jobs (.published t m) (Function.update jobs t (.producer bodies))
  | works {t : τ} {m : Message} {now : ℚ} : jobs t = .goodConsumer →
      Goes jobs (.received t m now) (Function.update jobs t (.working m))
  | crashes {t : τ} {m : Message} {now : ℚ} : jobs t = .badConsumer →
      Goes jobs (.received t m now) (Function.update jobs t (.crashed m))
  | gaveUp {t : τ} : jobs t = .goodConsumer ∨ jobs t = .badConsumer →
      Goes jobs (.gaveUp t) (Function.update jobs t .returned)
  | acked {t : τ} {m : Message} {now : ℚ} : jobs t = .working m →
      Goes jobs (.acked t m.id now) (Function.update jobs t .goodConsumer)
  | raised {t : τ} {m : Message} {now : List ℚ} : jobs t = .working m →
      Goes jobs (.raised t ⟨m.id⟩ now) (Function.update jobs t .raised)
  | requeued {t : τ} {rounds : Nat} {readings : List ℚ} : jobs t = .requeueMonitor (rounds + 1) →
      Goes jobs (.requeued t readings) (Function.update jobs t (.requeueMonitor rounds))

theorem goes_of_demo (h : demo jobs a o = some jobs') : Goes jobs o jobs' := by
  cases o with
  | published t m =>
    simp only [demo] at h
    split at h
    · next body bodies hj =>
      obtain ⟨hbody, h⟩ := Option.ite_none_right_eq_some.mp h
      cases h
      exact .published (hbody ▸ hj)
    · cases h
  | received t m now =>
    simp only [demo] at h
    split at h
    · next hj =>
      cases h
      exact .works hj
    · next hj =>
      cases h
      exact .crashes hj
    · cases h
  | gaveUp t =>
    simp only [demo] at h
    split at h
    · next hj =>
      cases h
      exact .gaveUp (.inl hj)
    · next hj =>
      cases h
      exact .gaveUp (.inr hj)
    · cases h
  | acked t id now =>
    simp only [demo] at h
    split at h
    · next m hj =>
      obtain ⟨hid, h⟩ := Option.ite_none_right_eq_some.mp h
      cases h
      exact hid ▸ .acked hj
    · cases h
  | raised t error now =>
    simp only [demo] at h
    split at h
    · next m hj =>
      obtain ⟨hid, h⟩ := Option.ite_none_right_eq_some.mp h
      cases h
      obtain rfl : error = ⟨m.id⟩ := congrArg KeyError.mk hid.symm
      exact .raised hj
    · cases h
  | requeued t readings =>
    simp only [demo] at h
    split at h
    · next rounds hj =>
      cases h
      exact .requeued hj
    · cases h

/-! ## Who has the messages in flight -/

/-- Every message in flight is with a thread. -/
def Tended (keys : List String) (jobs : τ → Job) : Prop :=
  ∀ id ∈ keys, ∃ t m, (jobs t).message? = some m ∧ m.id = id

/-- The messages of the threads are in flight, each with one thread. -/
def Exclusive (keys : List String) (jobs : τ → Job) : Prop :=
  ∀ t m, (jobs t).message? = some m → m.id ∈ keys ∧ ∀ u m', u ≠ t → (jobs u).message? = some m' → m'.id ≠ m.id

/-- A thread goes on without the message that it had, if it had one that is still in flight. -/
theorem Tended.leave (h : Tended keys jobs) (hsub : keys' ⊆ keys)
    (hold : ∀ m, (jobs t).message? = some m → m.id ∉ keys') : Tended keys' (Function.update jobs t job) := by
  intro id hid
  obtain ⟨u, m, hm, rfl⟩ := h id (hsub hid)
  have hu : u ≠ t := by
    rintro rfl
    exact hold m hm hid
  exact ⟨u, m, by rw [Function.update_of_ne hu]; exact hm, rfl⟩

/-- A thread without a message receives one. -/
theorem Tended.take (h : Tended keys jobs) (hnone : (jobs t).message? = none) (hjob : job.message? = some m) :
    Tended (keys ++ [m.id]) (Function.update jobs t job) := by
  intro id hid
  rcases List.mem_append.mp hid with hid | hid
  · obtain ⟨u, m', hm', rfl⟩ := h id hid
    have hu : u ≠ t := by
      rintro rfl
      rw [hnone] at hm'
      cases hm'
    exact ⟨u, m', by rw [Function.update_of_ne hu]; exact hm', rfl⟩
  · obtain rfl := List.mem_singleton.mp hid
    exact ⟨t, m, by rw [Function.update_self]; exact hjob, rfl⟩

theorem Exclusive.leave (h : Exclusive keys jobs) (hjob : job.message? = none)
    (hkeep : ∀ id ∈ keys, (∀ m, (jobs t).message? = some m → id ≠ m.id) → id ∈ keys') :
    Exclusive keys' (Function.update jobs t job) := by
  have hothers : ∀ {u m}, (Function.update jobs t job u).message? = some m → u ≠ t ∧ (jobs u).message? = some m := by
    intro u m hm
    by_cases hu : u = t
    · subst hu
      rw [Function.update_self, hjob] at hm
      cases hm
    · rw [Function.update_of_ne hu] at hm
      exact ⟨hu, hm⟩
  intro u m hm
  obtain ⟨hu, hm⟩ := hothers hm
  obtain ⟨hin, hother⟩ := h u m hm
  refine ⟨hkeep m.id hin fun m' hm' he => hother t m' hu.symm hm' he.symm, fun v m' hv hm' => ?_⟩
  exact hother v m' hv (hothers hm').2

theorem Exclusive.take (h : Exclusive keys jobs) (hjob : job.message? = some m) (hnew : m.id ∉ keys) :
    Exclusive (keys ++ [m.id]) (Function.update jobs t job) := by
  intro u m' hm'
  by_cases hu : u = t
  · subst hu
    rw [Function.update_self, hjob] at hm'
    cases hm'
    refine ⟨List.mem_append_right _ List.mem_cons_self, fun v m' hv hm' he => ?_⟩
    rw [Function.update_of_ne hv] at hm'
    exact hnew (he ▸ (h v m' hm').1)
  · rw [Function.update_of_ne hu] at hm'
    obtain ⟨hin, hother⟩ := h u m' hm'
    refine ⟨List.mem_append_left _ hin, fun v m'' hv hm'' => ?_⟩
    by_cases hvt : v = t
    · subst hvt
      rw [Function.update_self, hjob] at hm''
      cases hm''
      exact fun he => hnew (he ▸ hin)
    · rw [Function.update_of_ne hvt] at hm''
      exact hother v m'' hv hm''

/-! ## The accounts -/

/-- What is known in every state of the program. -/
structure Accounts (os : List (Event τ)) (w : World) (jobs : τ → Job) : Prop where
  conserved : Conserved os w
  known : ∀ t m, (jobs t).message? = some m → m ∈ published os
  tended : Tended w.q.inFlight.keys jobs
  calm : os.any Event.isRequeue = false → Exclusive w.q.inFlight.keys jobs ∧ ∀ t, jobs t ≠ .raised

omit [DecidableEq τ] in
theorem accounts_init (vt : ℚ) (h : ∀ t, (jobs t).starts = true) : Accounts [] (World.init vt) jobs := by
  have hnone : ∀ t m, (jobs t).message? ≠ some m := by
    intro t m hm
    have ht := h t
    cases hj : jobs t with
    | producer _ | goodConsumer | badConsumer | requeueMonitor _ | returned | raised =>
      rw [hj] at hm
      cases hm
    | working _ | crashed _ =>
      rw [hj] at ht
      cases ht
  refine ⟨.init vt, fun t m hm => absurd hm (hnone t m), fun id hid => absurd hid List.not_mem_nil, fun _ => ⟨?_, ?_⟩⟩
  · exact fun t m hm => absurd hm (hnone t m)
  · intro t ht
    have hstart := h t
    rw [ht] at hstart
    cases hstart

/-- A thread goes on without a message. -/
theorem Accounts.leave (h : Accounts os w jobs) (hs : Steps w o w') (hnone : job.message? = none)
    (hjob : os.any Event.isRequeue = false → job ≠ .raised) (hsub : w'.q.inFlight.keys ⊆ w.q.inFlight.keys)
    (hold : ∀ m, (jobs t).message? = some m → m.id ∉ w'.q.inFlight.keys)
    (hkeep : o.isRequeue = false → ∀ id ∈ w.q.inFlight.keys, (∀ m, (jobs t).message? = some m → id ≠ m.id) →
      id ∈ w'.q.inFlight.keys) : Accounts (os ++ [o]) w' (Function.update jobs t job) where
  conserved := h.conserved.steps hs
  known u m hm := by
    by_cases hu : u = t
    · subst hu
      rw [Function.update_self, hnone] at hm
      cases hm
    · rw [Function.update_of_ne hu] at hm
      exact published_mono (h.known u m hm)
  tended := h.tended.leave hsub hold
  calm hno := by
    rw [List.any_append, Bool.or_eq_false_iff] at hno
    obtain ⟨hno, ho⟩ := hno
    have ho : o.isRequeue = false := by simpa using ho
    obtain ⟨hexclusive, hraised⟩ := h.calm hno
    refine ⟨hexclusive.leave hnone (hkeep ho), fun u hu => ?_⟩
    by_cases he : u = t
    · subst he
      rw [Function.update_self] at hu
      exact hjob hno hu
    · rw [Function.update_of_ne he] at hu
      exact hraised u hu

theorem Accounts.take (h : Accounts os w jobs) {now : ℚ} {rest : List Message} (hq : w.q.queue = m :: rest)
    (hnone : (jobs t).message? = none) (hjob : job.message? = some m) :
    Accounts (os ++ [.received t m now])
      ⟨{ w.q with queue := rest, inFlight := w.q.inFlight.set m.id (m, now) }, w.issued⟩
      (Function.update jobs t job) := by
  have hmem : m ∈ w.q.queue := hq ▸ List.mem_cons_self
  have hnew := h.conserved.not_inFlight hmem
  have hkeys := Dict.keys_set_of_not_mem (v := (m, now)) hnew
  refine ⟨h.conserved.receive hq, fun u m' hm' => ?_, ?_, fun hno => ⟨?_, fun u hu => ?_⟩⟩
  · by_cases hu : u = t
    · subst hu
      rw [Function.update_self, hjob] at hm'
      cases hm'
      exact published_mono (h.conserved.queued m hmem)
    · rw [Function.update_of_ne hu] at hm'
      exact published_mono (h.known u m' hm')
  · show Tended (w.q.inFlight.set m.id (m, now)).keys _
    rw [hkeys]
    exact h.tended.take hnone hjob
  · rw [List.any_append, Bool.or_eq_false_iff] at hno
    show Exclusive (w.q.inFlight.set m.id (m, now)).keys _
    rw [hkeys]
    exact (h.calm hno.1).1.take hjob hnew
  · rw [List.any_append, Bool.or_eq_false_iff] at hno
    by_cases he : u = t
    · subst he
      rw [Function.update_self] at hu
      rw [hu] at hjob
      cases hjob
    · rw [Function.update_of_ne he] at hu
      exact (h.calm hno.1).2 u hu

theorem accounts_step (h : Accounts os w jobs) (hs : Steps w o w') (hg : Goes jobs o jobs') :
    Accounts (os ++ [o]) w' jobs' := by
  have hmessage {t : τ} {j : Job} (hj : jobs t = j) (hnone : j.message? = none) :
      ∀ m, (jobs t).message? ≠ some m := by
    intro m hm
    rw [hj, hnone] at hm
    cases hm
  cases hs with
  | published hid =>
    cases hg with
    | published hj =>
      exact h.leave (.published hid) rfl (fun _ => by simp) (fun _ hx => hx) (fun m hm => absurd hm (hmessage hj rfl m))
        fun _ _ hx _ => hx
  | received hq =>
    cases hg with
    | works hj => exact h.take hq (by rw [hj]; rfl) rfl
    | crashes hj => exact h.take hq (by rw [hj]; rfl) rfl
  | gaveUp hq =>
    cases hg with
    | gaveUp hj =>
      refine h.leave (.gaveUp hq) rfl (fun _ => by simp) (fun _ hx => hx) (fun m hm => ?_) fun _ _ hx _ => hx
      rcases hj with hj | hj <;> exact absurd hm (hmessage hj rfl m)
  | acked hid =>
    cases hg with
    | @acked _ m _ hj =>
      have hkeys : (w.q.inFlight.erase m.id).keys = w.q.inFlight.keys.filter (· ≠ m.id) := Dict.keys_erase
      refine h.leave (.acked hid) rfl (fun _ => by simp) ?_ ?_ ?_
      · show (w.q.inFlight.erase m.id).keys ⊆ _
        rw [hkeys]
        exact List.filter_subset_self _
      · intro m' hm'
        rw [hj] at hm'
        cases hm'
        show m.id ∉ (w.q.inFlight.erase m.id).keys
        rw [hkeys]
        simp
      · intro _ id hin hne
        show id ∈ (w.q.inFlight.erase m.id).keys
        rw [hkeys]
        exact List.mem_filter.mpr ⟨hin, decide_eq_true (hne m (by rw [hj]; rfl))⟩
  | raised hid =>
    cases hg with
    | @raised _ m _ hj =>
      refine h.leave (.raised hid) rfl (fun hno => ?_) (fun _ hx => hx) ?_ fun _ _ hx _ => hx
      · exact absurd ((h.calm hno).1 _ m (by rw [hj]; rfl)).1 hid
      · intro m' hm'
        rw [hj] at hm'
        cases hm'
        exact hid
  | @requeued _ _ d hlen hd =>
    cases hg with
    | requeued hj =>
      refine h.leave (.requeued hlen hd) rfl (fun _ => by simp) ?_ (fun m hm => absurd hm (hmessage hj rfl m))
        fun ho => by cases ho
      intro id hin
      obtain ⟨e, hmem, rfl⟩ := List.mem_map.mp hin
      have hmem : e ∈ d.entries := hmem
      rw [hd] at hmem
      exact List.mem_map_of_mem (List.mem_filter.mp hmem).1

theorem accounts_run {vt : ℚ} {moves : List (Move τ)} {jobs₀ : τ → Job} (hstart : ∀ t, (jobs₀ t).starts = true)
    (h : ((simpleQueue τ).guided demo).run (World.init vt, jobs₀) moves = some (os, w, jobs)) : Accounts os w jobs :=
  Machine.run_history (M := (simpleQueue τ).guided demo) (P := fun os s => Accounts os s.1 s.2) (l := [])
    (fun hP hs => by
      obtain ⟨hs, hn⟩ := Machine.guided_step_iff.mp hs
      exact accounts_step hP (step_steps hs) (goes_of_demo hn)) (accounts_init vt hstart) h

omit [DecidableEq τ] in
theorem Accounts.place (h : Accounts os w jobs) (hm : m ∈ published os) :
    m.id ∈ acked os ∨ m ∈ w.q.queue ∨ ∃ t, (jobs t).message? = some m := by
  obtain ⟨p, hp⟩ := (h.conserved.partition.mem_iff m.id).mp (h.conserved.published_mem hm)
  cases p with
  | acked => exact .inl hp
  | queue =>
    obtain ⟨m', hm', hid⟩ := List.mem_map.mp hp
    obtain rfl := h.conserved.published_inj (h.conserved.queued m' hm') hm hid
    exact .inr (.inl hm')
  | inFlight =>
    obtain ⟨t, m', hm', hid⟩ := h.tended m.id hp
    obtain rfl := h.conserved.published_inj (h.known t m' hm') hm hid
    exact .inr (.inr ⟨t, hm'⟩)

omit [DecidableEq τ] in
/-- No more messages are in flight than threads have one. -/
theorem Accounts.inFlight_le [Fintype τ] (h : Accounts os w jobs) :
    w.q.inFlight.entries.length ≤ (Finset.univ.filter fun t => (jobs t).message?.isSome).card := by
  have hsub : w.q.inFlight.keys.toFinset ⊆
      (Finset.univ.filter fun t => (jobs t).message?.isSome).image fun t =>
        ((jobs t).message?.map Message.id).getD "" := by
    intro id hid
    obtain ⟨t, m, hm, rfl⟩ := h.tended id (List.mem_toFinset.mp hid)
    refine Finset.mem_image.mpr ⟨t, Finset.mem_filter.mpr ⟨Finset.mem_univ t, ?_⟩, ?_⟩
    · rw [hm]
      rfl
    · rw [hm]
      rfl
  calc w.q.inFlight.entries.length
    _ = w.q.inFlight.keys.length := (List.length_map _).symm
    _ = w.q.inFlight.keys.toFinset.card := (List.toFinset_card_of_nodup w.q.inFlight.nodup).symm
    _ ≤ _ := (Finset.card_le_card hsub).trans Finset.card_image_le

/-- **Every message is accounted for.** The threads of the program start their functions, in any number, and their
calls of one queue interleave at will. Then every published message has been acknowledged, or waits in the queue, or is
with a consumer: with one that works on it, or with a bad one that has returned without an ack. Until a monitor requeues
something, the ack of a good consumer never raises `KeyError`. When all threads have ended, at most as many messages as
there are crashed consumers are in flight; so the others are acknowledged or in the queue. -/
theorem demo_accounts [Fintype τ] (vt : ℚ) (jobs₀ : τ → Job) (hstart : ∀ t, (jobs₀ t).starts = true)
    (moves : List (Move τ)) (os : List (Event τ)) (w : World) (jobs : τ → Job)
    (h : ((simpleQueue τ).guided demo).run (World.init vt, jobs₀) moves = some (os, w, jobs)) :
    (∀ m ∈ published os, m.id ∈ acked os ∨ m ∈ w.q.queue ∨ ∃ t, jobs t = .working m ∨ jobs t = .crashed m) ∧
    (os.any Event.isRequeue = false → ∀ t, jobs t ≠ .raised) ∧
    ((∀ t, (jobs t).ended = true) → w.q.inFlight.entries.length ≤
      (Finset.univ.filter fun t => ∃ m ∈ published os, jobs t = .crashed m).card) := by
  have ha := accounts_run hstart h
  refine ⟨fun m hm => ?_, fun hno => (ha.calm hno).2, fun hended => ha.inFlight_le.trans ?_⟩
  · rcases ha.place hm with hplace | hplace | ⟨t, ht⟩
    · exact .inl hplace
    · exact .inr (.inl hplace)
    · exact .inr (.inr ⟨t, Job.message?_eq_some_iff.mp ht⟩)
  · refine Finset.card_le_card fun t ht => Finset.mem_filter.mpr ⟨Finset.mem_univ t, ?_⟩
    obtain ⟨m, hm⟩ := Option.isSome_iff_exists.mp (Finset.mem_filter.mp ht).2
    refine ⟨m, ha.known t m hm, ?_⟩
    rcases Job.message?_eq_some_iff.mp hm with hworking | hcrashed
    · have hstopped := hended t
      rw [hworking] at hstopped
      cases hstopped
    · exact hcrashed

/-! ## The end of the program -/

/-- The messages that the thread has still to publish. -/
def Job.unsent : Job → Nat
  | .producer bodies => bodies.length
  | .goodConsumer | .working _ | .badConsumer | .crashed _ | .requeueMonitor _ | .returned | .raised => 0

/-- What the thread can still do to a queue that sees `messages` messages. A published message costs a receive and an
ack besides, and a round of a monitor can put all messages back. -/
def Job.left (messages : Nat) : Job → Nat
  | .producer bodies => 3 * bodies.length
  | .goodConsumer | .badConsumer => 1
  | .working _ => 2
  | .requeueMonitor rounds => (2 * messages + 1) * rounds
  | .crashed _ | .returned | .raised => 0

variable [Fintype τ] {messages : Nat}

/-- The messages that the producers publish in all. -/
def total (w : World) (jobs : τ → Job) : Nat := w.issued.length + ∑ t, (jobs t).unsent

def remaining (messages : Nat) (w : World) (jobs : τ → Job) : Nat :=
  ∑ t, (jobs t).left messages + 2 * w.q.queue.length

omit [DecidableEq τ] in
theorem expired_le (h : Conserved os w) {readings : List ℚ} (hlen : readings.length = w.q.inFlight.entries.length) :
    (w.q.expired readings).length ≤ total w jobs := by
  have hsub : w.q.inFlight.keys ⊆ w.issued := by
    intro id hid
    exact h.partition.mem (show id ∈ contents os w .inFlight from hid)
  calc (w.q.expired readings).length
    _ ≤ w.q.inFlight.entries.length := (SimpleQueue.expired_sublist hlen).length_le
    _ = w.q.inFlight.keys.length := (List.length_map _).symm
    _ ≤ w.issued.length := (List.subperm_of_subset w.q.inFlight.nodup hsub).length_le
    _ ≤ total w jobs := Nat.le_add_right _ _

/-- A thread goes on. -/
theorem remaining_update {job₀ : Job} {queue : Nat} (hj : jobs t = job₀)
    (hissued : w'.issued.length + job.unsent = w.issued.length + job₀.unsent) (hqueue : w'.q.queue.length = queue)
    (hleft : job.left messages + 2 * queue + 1 ≤ job₀.left messages + 2 * w.q.queue.length) :
    total w' (Function.update jobs t job) = total w jobs ∧
      remaining messages w' (Function.update jobs t job) + 1 ≤ remaining messages w jobs := by
  subst hj
  have hunsent := sum_update_univ t Job.unsent jobs job
  have hsum := sum_update_univ t (Job.left messages) jobs job
  unfold total remaining
  constructor <;> omega

/-- A thread goes on, and the queue stays as it is. -/
theorem remaining_keep {job₀ : Job} (hj : jobs t = job₀) (hissued : w'.issued = w.issued)
    (hunsent : job.unsent = job₀.unsent) (hqueue : w'.q.queue = w.q.queue)
    (hleft : job.left messages < job₀.left messages) :
    total w' (Function.update jobs t job) = total w jobs ∧
      remaining messages w' (Function.update jobs t job) + 1 ≤ remaining messages w jobs := by
  refine remaining_update hj ?_ (congrArg List.length hqueue) (by omega)
  rw [hissued, hunsent]

/-- Every critical section leaves less to do. -/
theorem remaining_step (hc : Conserved os w) (hs : Steps w o w') (hg : Goes jobs o jobs') :
    total w' jobs' = total w jobs ∧ remaining (total w jobs) w' jobs' + 1 ≤ remaining (total w jobs) w jobs := by
  cases hs with
  | published hid =>
    cases hg with
    | published hj =>
      refine remaining_update hj ?_ List.length_append ?_
      · simp only [Job.unsent, List.length_append, List.length_cons, List.length_nil]
        omega
      · simp only [Job.left, List.length_cons, List.length_nil]
        omega
  | received hq =>
    have hlen := congrArg List.length hq
    rw [List.length_cons] at hlen
    cases hg with
    | works hj | crashes hj =>
      refine remaining_update hj rfl rfl ?_
      simp only [Job.left]
      omega
  | gaveUp hq =>
    cases hg with
    | gaveUp hj =>
      rcases hj with hj | hj <;> exact remaining_keep hj rfl rfl rfl (show 0 < 1 by decide)
  | acked hid =>
    cases hg with
    | acked hj => exact remaining_keep hj rfl rfl rfl (show 1 < 2 by decide)
  | raised hid =>
    cases hg with
    | raised hj => exact remaining_keep hj rfl rfl rfl (show 0 < 2 by decide)
  | requeued hlen hd =>
    -- each of the messages put back can be received and acknowledged again
    have hexpired : (w.q.expired _).length ≤ total w jobs := expired_le hc hlen
    cases hg with
    | requeued hj =>
      refine remaining_update hj rfl List.length_append ?_
      simp only [Job.left, List.length_reverse, List.length_map, Nat.mul_succ]
      omega

omit [Fintype τ] in
/-- Until all threads have ended one of them can go on. -/
theorem demo_goes (h : ¬∀ t, (jobs t).ended = true) :
    ∃ a r, ((simpleQueue τ).guided demo).step (w, jobs) a = some r := by
  have hgo {a : Move τ} {o : Event τ} {w' : World} (hs : (simpleQueue τ).step w a = some (o, w'))
      (hn : (demo jobs a o).isSome) : ∃ a r, ((simpleQueue τ).guided demo).step (w, jobs) a = some r := by
    obtain ⟨jobs', hn⟩ := Option.isSome_iff_exists.mp hn
    exact ⟨a, _, Machine.guided_step_iff.mpr ⟨hs, hn⟩⟩
  obtain ⟨t, ht⟩ := not_forall.mp h
  have hreceive (hj : jobs t = .goodConsumer ∨ jobs t = .badConsumer) :
      ∃ a r, ((simpleQueue τ).guided demo).step (w, jobs) a = some r := by
    cases hr : w.q.receive 0 with
    | none =>
      have hs : (simpleQueue τ).step w (.receive t 0) = some (.gaveUp t, w) := by simp only [simpleQueue, hr]
      refine hgo hs ?_
      rcases hj with hj | hj <;> simp [demo, hj]
    | some r =>
      have hs : (simpleQueue τ).step w (.receive t 0) = some (.received t r.1 0, ⟨r.2, w.issued⟩) := by
        simp only [simpleQueue, hr]
      refine hgo hs ?_
      rcases hj with hj | hj <;> simp [demo, hj]
  cases hj : jobs t with
  | producer bodies =>
    cases bodies with
    | nil => exact absurd (by rw [hj]; rfl) ht
    | cons body bodies =>
      obtain ⟨id, hid⟩ := Infinite.exists_notMem_finset w.issued.toFinset
      have hid : id ∉ w.issued := fun hmem => hid (List.mem_toFinset.mpr hmem)
      refine hgo (a := .publish t id body) (if_neg hid) ?_
      simp [demo, hj, SimpleQueue.publish]
  | goodConsumer => exact hreceive (.inl hj)
  | badConsumer => exact hreceive (.inr hj)
  | working m =>
    by_cases hid : m.id ∈ w.q.inFlight.keys
    · refine hgo (a := .ack t m.id 0) (step_ack_of_mem hid) ?_
      simp [demo, hj]
    · refine hgo (a := .ack t m.id 0) (step_ack_of_not_mem hid) ?_
      simp [demo, hj]
  | requeueMonitor rounds =>
    cases rounds with
    | zero => exact absurd (by rw [hj]; rfl) ht
    | succ rounds =>
      have hlen : (List.replicate w.q.inFlight.entries.length (0 : ℚ)).length = w.q.inFlight.entries.length :=
        List.length_replicate
      obtain ⟨d, hd, -⟩ := SimpleQueue.requeueExpired_eq hlen
      have hs : ∃ w', (simpleQueue τ).step w (.requeueExpired t (List.replicate w.q.inFlight.entries.length 0)) =
          some (.requeued t (List.replicate w.q.inFlight.entries.length 0), w') := by
        simp only [simpleQueue, if_pos hlen, hd]
        exact ⟨_, rfl⟩
      obtain ⟨w', hs⟩ := hs
      refine hgo hs ?_
      simp [demo, hj]
  | crashed _ | returned | raised => exact absurd (by rw [hj]; rfl) ht

/-- A reached state of a program that publishes `messages` messages in all. -/
def Counted (messages : Nat) (s : World × (τ → Job)) : Prop :=
  (∃ os : List (Event τ), Conserved os s.1) ∧ total s.1 s.2 = messages

theorem counted_step {s s' : World × (τ → Job)} (h : Counted messages s)
    (hs : ((simpleQueue τ).guided demo).step s a = some (o, s')) :
    Counted messages s' ∧ remaining messages s'.1 s'.2 + 1 ≤ remaining messages s.1 s.2 := by
  obtain ⟨⟨os, hc⟩, rfl⟩ := h
  obtain ⟨hs, hn⟩ := Machine.guided_step_iff.mp hs
  obtain ⟨htotal, hless⟩ := remaining_step hc (step_steps hs) (goes_of_demo hn)
  exact ⟨⟨⟨_, hc.steps (step_steps hs)⟩, htotal⟩, hless⟩

/-- **The program ends.** However the threads interleave, they enter a bounded number of critical sections: three for
each message, one for each consumer that gives up or crashes, and for each round of a monitor one and two more for each
message that it can put back. From every state that they reach all of them can go on to their ends. -/
theorem demo_ends (vt : ℚ) (jobs₀ : τ → Job) (moves : List (Move τ)) (os : List (Event τ)) (w : World) (jobs : τ → Job)
    (h : ((simpleQueue τ).guided demo).run (World.init vt, jobs₀) moves = some (os, w, jobs)) :
    moves.length ≤ ∑ t, (jobs₀ t).left (∑ u, (jobs₀ u).unsent) ∧
    ((¬∀ t, (jobs t).ended = true) → ∃ a r, ((simpleQueue τ).guided demo).step (w, jobs) a = some r) ∧
    ∃ s, ((simpleQueue τ).guided demo).Reaches (w, jobs) s ∧ ∀ t, (s.2 t).ended = true := by
  have hinit : Counted (∑ u, (jobs₀ u).unsent) (World.init vt, jobs₀) := ⟨⟨[], .init vt⟩, Nat.zero_add _⟩
  have hrank := Machine.run_rank (r := fun s => remaining _ s.1 s.2) (p := fun _ => true)
    (fun hP hs => (counted_step hP hs).1) (fun hP hs => (counted_step hP hs).2) hinit h
  have hreached := Machine.run_invariant (P := Counted (∑ u, (jobs₀ u).unsent))
    (fun hP hs => (counted_step hP hs).1) hinit h
  refine ⟨?_, demo_goes, ?_⟩
  · rw [List.countP_true] at hrank
    exact (Nat.le_add_left _ _).trans hrank
  · refine Machine.exists_reaches (F := fun s : World × (τ → Job) => ∀ t, (s.2 t).ended = true)
      (r := fun s => remaining (∑ u, (jobs₀ u).unsent) s.1 s.2) (fun hP hne => ?_) le_rfl hreached
    obtain ⟨a, ⟨o, s⟩, hs⟩ := demo_goes hne
    obtain ⟨hP', hless⟩ := counted_step hP hs
    exact ⟨a, o, s, hs, hP', hless⟩

end Demo

/-- A producer with two messages, a good consumer and a bad one. -/
def twoMessages : Fin 3 → Job
  | 0 => .producer ["message 1", "message 2"]
  | 1 => .goodConsumer
  | 2 => .badConsumer

/-- The bad consumer keeps the first message, the good one acknowledges the second and waits in vain for another. -/
def twoMessagesMoves : List (Move (Fin 3)) :=
  [.publish 0 "1" "message 1", .receive 2 1, .publish 0 "2" "message 2", .receive 1 2, .ack 1 "2" 3, .receive 1 4]

theorem demo_accounts_example : ∃ os w jobs,
    ((simpleQueue (Fin 3)).guided demo).run (World.init 3, twoMessages) twoMessagesMoves = some (os, w, jobs) ∧
    (∀ t, (jobs t).ended = true) ∧ w.q.inFlight.entries.length ≤
      (Finset.univ.filter fun t => ∃ m ∈ published os, jobs t = .crashed m).card := by
  have hrun : (((simpleQueue (Fin 3)).guided demo).run (World.init 3, twoMessages) twoMessagesMoves).any
      (fun r => decide (∀ t, (r.2.2 t).ended = true)) := by decide +kernel
  obtain ⟨⟨os, w, jobs⟩, h, hended⟩ := (Option.any_eq_true _ _).mp hrun
  have hended := of_decide_eq_true hended
  exact ⟨os, w, jobs, h, hended,
    (demo_accounts 3 twoMessages (by decide) twoMessagesMoves os w jobs h).2.2 hended⟩

theorem demo_ends_example :
    twoMessagesMoves.length ≤ ∑ t, (twoMessages t).left (∑ u, (twoMessages u).unsent) := by
  have hrun : (((simpleQueue (Fin 3)).guided demo).run (World.init 3, twoMessages) twoMessagesMoves).isSome := by
    decide +kernel
  obtain ⟨⟨os, w, jobs⟩, h⟩ := Option.isSome_iff_exists.mp hrun
  exact (demo_ends 3 twoMessages twoMessagesMoves os w jobs h).1

end TheGrind.MessageQueue
