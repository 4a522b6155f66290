import TheGrind.ConnectionPool.SimplePool

/-!
# Wakeups of the SimpleConnectionPool

`return_conn` notifies one waiter. While somebody sleeps, the idle connections are covered by the threads that a
notification has woken (`Covered`); a thread with the lock may owe one. The one step that breaks this is a notification
that takes a waiter off whose timeout has elapsed: that waiter raises without looking at the pool.

* `wakeup` : the proof outline, for runs whose notifications find `Reaching`;
* `no_lost_wakeup_of_reaching` : what follows; `lost_wakeup` : a run that leaves a connection beside a sleeper.
-/

namespace TheGrind.ConnectionPool
open TheGrind.Transition TheGrind.Sync

variable {τ : Type} [DecidableEq τ] {d d' : SimplePool τ} {c c' : Condition τ} {n k : Nat}

/-- While somebody sleeps, all idle connections but `n` are covered by the woken threads. -/
def Covered (n : Nat) (d : SimplePool τ) (c : Condition τ) : Prop :=
  (∃ t, c.Asleep t) → d.pool.length ≤ c.woken.card + n

/-- The next notification does not pick a waiter whose timeout has elapsed, unless nobody else sleeps. -/
def Reaching (c : Condition τ) : Prop := ∀ t ∈ c.waiters.head?, t ∈ c.timedOut → ∀ u ∈ c.waiters, ¬c.Asleep u

instance : DecidablePred (Reaching (τ := τ)) := fun c =>
  inferInstanceAs (Decidable (∀ t ∈ c.waiters.head?, t ∈ c.timedOut → ∀ u ∈ c.waiters, ¬c.Asleep u))

omit [DecidableEq τ] in
theorem Covered.mono (h : Covered n d c) (hn : n ≤ k) : Covered k d c := fun hu => (h hu).trans (by omega)

omit [DecidableEq τ] in
theorem Covered.quiet (h : Covered n d c) (hq : Condition.Quiet c c') : Covered n d c' := by
  rintro ⟨u, hu⟩
  rw [hq.woken]
  exact h ⟨u, hq.asleep u hu⟩

omit [DecidableEq τ] in
theorem Covered.of_empty (h : d.pool = []) : Covered n d c := by
  intro _
  rw [h]
  exact Nat.zero_le _

/-- A thread that was woken and has the lock may take a connection. -/
theorem Covered.reacquire {t : τ} {b : Bool} (h : Covered 0 d c) (hc : c.reacquire t = some (b, c')) :
    Covered 1 d c' := by
  obtain ⟨-, -, hasleep, hcard, -⟩ := Condition.reacquire_eq_some hc
  rintro ⟨u, hu⟩
  have hlen := h ⟨u, hasleep u hu⟩
  omega

theorem Covered.pop {t : τ} (h : Covered 1 d c) (hne : d.pool ≠ []) : Covered 0 (pop t d).2 c := by
  intro hu
  have hlen := h hu
  have hpos := List.length_pos_iff.mpr hne
  unfold ConnectionPool.pop
  split
  · next hlast => exact absurd (List.getLast?_eq_none_iff.mp hlast) hne
  · show d.pool.dropLast.length ≤ _
    rw [List.length_dropLast]
    omega

theorem Covered.append {t : τ} {conn : String} (h : Covered 0 d c) : Covered 1 (append conn t d) c := by
  intro hu
  have hlen := h hu
  show (d.pool ++ [conn]).length ≤ _
  rw [List.length_append, List.length_singleton]
  omega

/-- A notification that reaches a sleeper covers the connection that was returned. -/
theorem Covered.notify (h : Covered 1 d c) (hr : Reaching c) : Covered 0 d c.notify := by
  rintro ⟨u, hu⟩
  have hu' : c.Asleep u := Condition.asleep_tail hu
  have hlen := h ⟨u, hu'⟩
  cases hw : c.waiters with
  | nil =>
    have hmem : u ∈ c.waiters := hu'.1
    rw [hw] at hmem
    exact absurd hmem List.not_mem_nil
  | cons t ts =>
    by_cases ht : t ∈ c.timedOut
    · exact absurd hu' (hr t (by rw [hw]; rfl) ht u hu'.1)
    · rw [Condition.card_woken_notify hw ht]
      omega

/-- Idle connections are covered; a thread that rechecks the pool or is about to notify owes one. -/
def wakeup : Outline τ Point (SimplePool τ) where
  free := Covered 0
  held _ p d c :=
    match p with
    | .check _ | .waited _ true | .notify => Covered 1 d c
    | .pop => d.pool ≠ [] ∧ Covered 1 d c
    | .wait _ => d.pool = []
    | _ => Covered 0 d c
  off _ _ _ := True

variable {may : τ → SimplePool τ → String → Bool}

theorem wakeup_sound : (wakeup (τ := τ)).Sound (program τ may) Reaching where
  free_quiet _ _ _ h hq := h.quiet hq
  held_quiet t p d c c' h hq := by
    cases p with
    | check _ | notify => exact Covered.quiet (n := 1) h hq
    | waited _ b => cases b <;> exact Covered.quiet h hq
    | pop => exact ⟨h.1, h.2.quiet hq⟩
    | wait _ => exact h
    | outside | borrow _ | raise | returnConn _ | append _ | leave => exact Covered.quiet (n := 0) h hq
  entry _ _ _ _ := trivial
  steps p := by
    cases p with
    | outside => exact trivial
    | borrow timeout => exact fun _ _ _ hfree _ => hfree.mono (Nat.zero_le 1)
    | returnConn conn => exact fun _ _ _ hfree _ => hfree
    | check timeout =>
      intro t now _ d c o d' q hheld h
      cases h
      refine ⟨?_, fun _ _ _ _ => trivial⟩
      by_cases hlen : d.pool.length = 0
      · rw [if_pos hlen]
        exact List.eq_nil_of_length_eq_zero hlen
      · rw [if_neg hlen]
        exact ⟨fun hnil => hlen (by rw [hnil]; rfl), hheld⟩
    | wait timeout =>
      refine ⟨fun t d c c' hheld _ => ⟨.of_empty hheld, trivial⟩, fun t d c c' b hfree _ hc => ?_⟩
      cases b with
      | true => exact Covered.reacquire hfree hc
      | false =>
        obtain ⟨-, -, -, -, hquiet⟩ := Condition.reacquire_eq_some hc
        exact Covered.quiet (n := 0) hfree (hquiet rfl)
    | waited timeout notified =>
      intro t now _ d c o d' q hheld h
      cases h
      cases notified <;> exact ⟨hheld, fun _ _ _ _ => trivial⟩
    | raise | leave => exact fun _ _ _ hheld => ⟨hheld, trivial⟩
    | pop =>
      intro t now _ d c o d' q hheld h
      cases h
      exact ⟨hheld.2.pop hheld.1, fun _ _ _ _ => trivial⟩
    | append conn =>
      intro t now _ d c o d' q hheld h
      cases h
      exact ⟨Covered.append hheld, fun _ _ _ _ => trivial⟩
    | notify => exact fun _ _ _ hheld hr => Covered.notify hheld hr

theorem wakeup_start (size : Nat) : wakeup.Holds (program τ may) (start τ size) where
  placed := Monitor.placed_init fun h => h
  free _ := fun ⟨_, hu⟩ => absurd hu.1 List.not_mem_nil
  knows _ := ⟨fun h => absurd h (fun h => h), fun _ => trivial⟩

/-- **When no wakeup is lost.** In every run whose notifications do not pick a timed-out waiter while another borrower
sleeps, whatever the callers return, and in every state it reaches: if the lock is free and somebody sleeps, there are
no more idle connections than threads that a notification has woken; these are in their wait, which will return true. -/
theorem no_lost_wakeup_of_reaching (may : τ → SimplePool τ → String → Bool) (size : Nat)
    (moves : List (Move τ Point Unit)) (os : List (Option (Outcome τ))) (m : Monitor τ Point (SimplePool τ))
    (h : (Monitor.machine (program τ may)).run (start τ size) moves = some (os, m))
    (hr : (Monitor.machine (program τ may)).Along (Outline.NotifiesIf (program τ may) Reaching)
      (start τ size) moves) :
    (m.cond.owner = none → (∃ t, m.cond.Asleep t) → m.data.pool.length ≤ m.cond.woken.card) ∧
    ∀ t ∈ m.cond.woken, (∃ p deadline, m.threads t = .waiting p deadline) ∧
      ∀ b c, m.cond.reacquire t = some (b, c) → b = true := by
  have hholds := wakeup_sound.run (wakeup_start size) hr h
  refine ⟨fun ho hu => hholds.free ho hu, fun t ht => ⟨?_, fun b c hc => ?_⟩⟩
  · cases hp : m.threads t with
    | running p => exact absurd ht (hholds.placed.outside t p hp).2.2
    | waiting p deadline => exact ⟨p, deadline, rfl⟩
  · by_contra hb
    obtain ⟨-, hpass, -, -, hquiet⟩ := Condition.reacquire_eq_some hc
    have hout := (Condition.outside_of_owner hpass.owner).2.2
    rw [(hquiet (Bool.eq_false_iff.mpr hb)).woken] at hout
    exact hout ht

/-- Thread 0 takes the one connection, and threads 1 and 2 go to sleep. -/
def contended : List (Move Nat Point Unit) :=
  [.call 0 (.borrow none), .run 0 (), .run 0 (), .run 0 (), .run 0 (), .call 1 (.borrow (some 5)), .run 1 (), .run 1 (),
    .run 1 (), .call 2 (.borrow none), .run 2 (), .run 2 (), .run 2 ()]

/-- Thread 0 returns the connection. -/
def returns : List (Move Nat Point Unit) := [.call 0 (.returnConn "conn_0"), .run 0 (), .run 0 (), .run 0 (), .run 0 ()]

/-- The notification of the returned connection wakes one of two sleepers. -/
theorem no_lost_wakeup_of_reaching_example :
    ∃ os m, (Monitor.machine (program Nat holding)).run (start Nat 1) (contended ++ returns) = some (os, m) ∧
      (m.cond.owner = none → (∃ t, m.cond.Asleep t) → m.data.pool.length ≤ m.cond.woken.card) := by
  have hrun : ((Monitor.machine (program Nat holding)).run (start Nat 1) (contended ++ returns)).isSome := by
    decide +kernel
  obtain ⟨⟨os, m⟩, h⟩ := Option.isSome_iff_exists.mp hrun
  exact ⟨os, m, h, (no_lost_wakeup_of_reaching holding 1 _ os m h (by decide +kernel)).1⟩

/-- Thread 0 has the one connection, threads 1 and 2 wait. The timeout of thread 1 elapses, and the notification of
`return_conn` is spent on it: thread 1 raises `TimeoutError`, and thread 2 sleeps beside the connection. -/
theorem lost_wakeup : ¬∀ (size : Nat) (moves : List (Move Nat Point Unit)) (os : List (Option (Outcome Nat)))
    (m : Monitor Nat Point (SimplePool Nat)),
    (Monitor.machine (program Nat holding)).run (start Nat size) moves = some (os, m) →
      m.cond.owner = none → (∃ t, m.cond.Asleep t) → m.data.pool.length ≤ m.cond.woken.card := by
  intro h
  have hrun : ((Monitor.machine (program Nat holding)).run (start Nat 1)
      (contended ++ (.tick 5 :: .expire 1 :: (returns ++ List.replicate 3 (.run 1 ()))))).map
        (fun r => decide (r.2.cond.owner = none ∧ r.2.cond.Asleep 2 ∧ r.2.data.pool = ["conn_0"] ∧ r.2.cond.woken = ∅ ∧
          some (.raised 1 (.timeoutError "No connection available")) ∈ r.1)) = some true := by
    decide +kernel
  obtain ⟨⟨os, m⟩, hrun, hm⟩ := Option.map_eq_some_iff.mp hrun
  obtain ⟨ho, hu, hp, hk, -⟩ := of_decide_eq_true hm
  have hle := h 1 _ os m hrun ho ⟨2, hu⟩
  rw [hp, hk] at hle
  exact absurd hle (by decide)

end TheGrind.ConnectionPool
