import TheGrind.Sync.Progress
import TheGrind.ConnectionPool.Wakeup

/-!
# Progress of the SimpleConnectionPool

When no thread can go on while a borrower sleeps, all connections are with the threads (`deadlock_exhausted`), if no
notification was spent on a waiter whose timeout had elapsed. So a return can be called, unless every connection is with
a thread that itself sleeps in a borrow.
-/

namespace TheGrind.ConnectionPool
open TheGrind.Data TheGrind.Transition TheGrind.Sync

variable {τ : Type} [DecidableEq τ] {m : Monitor τ Point (SimplePool τ)} {t : τ}

theorem able (τ : Type) [DecidableEq τ] : (program τ holding).Able := by
  intro p f hcode t now d
  cases p with
  | check _ | waited _ _ | pop | append _ =>
    cases hcode
    exact ⟨(), _, rfl⟩
  | outside | borrow _ | wait _ | raise | returnConn _ | notify | leave => cases hcode

theorem code_idle_iff (p : Point) : code (τ := τ) p = .idle ↔ p = .outside := by
  cases p with
  | outside => exact ⟨fun _ => rfl, fun _ => rfl⟩
  | borrow _ | check _ | wait _ | waited _ _ | raise | pop | returnConn _ | append _ | notify | leave =>
    exact ⟨fun hi => (nomatch hi), fun he => (nomatch he)⟩

theorem settled_run {size : Nat} {moves : List (Move τ Point Unit)} {os : List (Option (Outcome τ))}
    (h : (Monitor.machine (program τ holding)).run (start τ size) moves = some (os, m)) :
    Monitor.Settled (program τ holding) m :=
  (Monitor.settled_init (P := program τ holding) (p := .outside) fun hl => hl).run h

/-- When no thread can go on while somebody sleeps, the pool is empty and every connection is with a thread. -/
theorem exhausted_of_asleep {size : Nat} (hsettled : Monitor.Settled (program τ holding) m)
    (hcovered : Covered 0 m.data m.cond) (howned : Owned size m.data)
    (hall : ∀ t, Monitor.Idle (program τ holding) (m.threads t) ∨ m.cond.Asleep t)
    (ha : ∃ t, m.cond.Asleep t) : m.data.pool = [] ∧ ∀ conn ∈ connections size, ∃ t, conn ∈ m.data.held t := by
  have hwoken : m.cond.woken = ∅ := by
    -- a thread that was woken could go on
    refine Finset.eq_empty_of_forall_notMem fun t ht => ?_
    rcases hall t with hi | ha
    · exact (hsettled.outside t .outside ((Monitor.idle_iff code_idle_iff).mp hi)).2.2 ht
    · exact (m.cond.woken_out t ht).1 ha.1
  have hempty : m.data.pool = [] := by
    have hlen := hcovered ha
    rw [hwoken] at hlen
    exact List.eq_nil_of_length_eq_zero (Nat.le_zero.mp hlen)
  refine ⟨hempty, fun conn hconn => ?_⟩
  obtain ⟨p, hp⟩ := (howned.mem_iff conn).mp hconn
  cases p with
  | none =>
    have hpool : conn ∈ m.data.pool := hp
    rw [hempty] at hpool
    exact absurd hpool List.not_mem_nil
  | some t => exact ⟨t, hp⟩

theorem zero_mem_connections {size : Nat} (hsize : 0 < size) : "conn_" ++ toString 0 ∈ connections size :=
  List.mem_map.mpr ⟨0, List.mem_range.mpr hsize, rfl⟩

/-- **A deadlock is an exhausted pool.** In every run whose notifications do not pick a timed-out waiter while another
borrower sleeps, and in every state it reaches in which no thread can go on: the lock is free, a thread is in no call or
asleep in a borrow, and if one sleeps the pool is empty and every connection is with a thread. If the pool has
connections, and every thread that has one is in no call, one of them may be returned. -/
theorem deadlock_exhausted (size : Nat) (moves : List (Move τ Point Unit)) (os : List (Option (Outcome τ)))
    (m : Monitor τ Point (SimplePool τ))
    (h : (Monitor.machine (program τ holding)).run (start τ size) moves = some (os, m))
    (hr : (Monitor.machine (program τ holding)).Along (Outline.NotifiesIf (program τ holding) Reaching) (start τ size)
      moves)
    (hstuck : Monitor.Stuck (program τ holding) m) :
    m.cond.owner = none ∧
    (∀ t, m.threads t = .running .outside ∨ m.cond.Asleep t ∧
      ∃ timeout deadline, m.threads t = .waiting (.wait timeout) deadline) ∧
    ((∃ t, m.cond.Asleep t) → m.data.pool = [] ∧ ∀ conn ∈ connections size, ∃ t, conn ∈ m.data.held t) ∧
    ((∃ t, m.cond.Asleep t) → 0 < size → (∀ t, m.data.held t ≠ [] → m.threads t = .running .outside) →
      ∃ t conn r, (Monitor.machine (program τ holding)).step m (.call t (.returnConn conn)) = some r) := by
  have hsettled := settled_run h
  obtain ⟨hfree, hall⟩ := (hsettled.stuck_iff (able τ)).mp hstuck
  have hcovered : Covered 0 m.data m.cond := (wakeup_sound.run (wakeup_start size) hr h).free hfree
  have howned : Owned size m.data := (holds_run h).data (fun _ _ h => h) fun _ _ _ _ h => h.1
  have hexhausted : (∃ t, m.cond.Asleep t) → m.data.pool = [] ∧ ∀ conn ∈ connections size, ∃ t, conn ∈ m.data.held t :=
    exhausted_of_asleep hsettled hcovered howned hall
  refine ⟨hfree, fun t => ?_, hexhausted, fun ha hsize hout => ?_⟩
  · refine (hall t).imp (Monitor.idle_iff code_idle_iff).mp fun ha => ⟨ha, ?_⟩
    cases hp : m.threads t with
    | running p => exact absurd ha.1 (hsettled.outside t p hp).1
    | waiting p deadline =>
      obtain ⟨timeout, next, hcode⟩ := hsettled.waits t p deadline hp
      cases p <;> cases hcode
      exact ⟨_, _, rfl⟩
  · obtain ⟨t, ht⟩ := (hexhausted ha).2 _ (zero_mem_connections hsize)
    have hp := hout t (List.ne_nil_of_mem ht)
    exact ⟨t, _, _, Monitor.step_call (q := .returnConn ("conn_" ++ toString 0)) hp rfl (decide_eq_true ht)⟩

/-- Thread `false` has the one connection, and thread `true` sleeps. -/
def exhausted : List (Move Bool Point Unit) :=
  [.call false (.borrow none), .run false (), .run false (), .run false (), .run false (), .call true (.borrow none),
    .run true (), .run true (), .run true ()]

theorem deadlock_exhausted_example :
    ∃ os m, (Monitor.machine (program Bool holding)).run (start Bool 1) exhausted = some (os, m) ∧ m.data.pool = [] ∧
      ∃ t conn r, (Monitor.machine (program Bool holding)).step m (.call t (.returnConn conn)) = some r := by
  obtain ⟨⟨os, m⟩, h⟩ : ∃ r, (Monitor.machine (program Bool holding)).run (start Bool 1) exhausted = some r := ⟨_, rfl⟩
  have hout : m.threads false = .running .outside := by
    cases h
    rfl
  obtain ⟨hfree, hasleep, hheld⟩ : m.cond.owner = none ∧ m.cond.Asleep true ∧ m.data.held true = [] := by
    cases h
    decide +kernel
  have hstuck : Monitor.Stuck (program Bool holding) m := by
    refine ((settled_run h).stuck_iff (able Bool)).mpr ⟨hfree, fun t => ?_⟩
    cases t with
    | false => exact Or.inl ((Monitor.idle_iff code_idle_iff).mpr hout)
    | true => exact Or.inr hasleep
  obtain ⟨-, -, hempty, hreturn⟩ := deadlock_exhausted 1 exhausted os m h (by decide +kernel) hstuck
  refine ⟨os, m, h, (hempty ⟨true, hasleep⟩).1, hreturn ⟨true, hasleep⟩ Nat.one_pos fun t ht => ?_⟩
  cases t with
  | false => exact hout
  | true => exact absurd hheld ht

end TheGrind.ConnectionPool
