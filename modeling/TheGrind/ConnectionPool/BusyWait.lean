import TheGrind.Data.Family
import TheGrind.ConnectionPool.SimplePool

/-!
# Busy waiting

`borrow_busy_wait` tests the list and pops in two steps and takes no lock. A thread that has found a connection may pop
when the others have taken them all; `busy_wait_raises_iff` says when that can happen.
-/

namespace TheGrind.ConnectionPool
open TheGrind.Data TheGrind.Transition

/-- Where a thread is in `borrow_busy_wait`. -/
inductive Busy where
  | check
  | pop
  | returned (conn : String)
  | raised (error : Error)
  deriving DecidableEq

/-- `pool_list`, and the threads. -/
structure BusyPool (τ : Type) where
  poolList : List String
  threads : τ → Busy

def BusyPool.init (τ : Type) (poolList : List String) : BusyPool τ := ⟨poolList, fun _ => .check⟩

def BusyPool.goto {τ : Type} [DecidableEq τ] (s : BusyPool τ) (t : τ) (b : Busy) : BusyPool τ :=
  { s with threads := Function.update s.threads t b }

/-- Threads in `borrow_busy_wait`. A test that finds the list empty is made again. -/
def borrowBusyWait (τ : Type) [DecidableEq τ] : Machine (BusyPool τ) τ Unit where
  step s t :=
    match s.threads t with
    | .check => some ((), if s.poolList.length = 0 then s else s.goto t .pop)
    | .pop =>
      match s.poolList.getLast? with
      | none => some ((), s.goto t (.raised (.indexError "pop from empty list")))
      | some conn => some ((), BusyPool.goto { s with poolList := s.poolList.dropLast } t (.returned conn))
    | _ => none

variable {τ : Type} [DecidableEq τ] {s s' : BusyPool τ} {t : τ} {o : Unit}

/-- What a step does. -/
inductive BusyStep (s : BusyPool τ) (t : τ) : BusyPool τ → Prop
  | spin : s.threads t = .check → s.poolList = [] → BusyStep s t s
  | found : s.threads t = .check → s.poolList ≠ [] → BusyStep s t (s.goto t .pop)
  | raise : s.threads t = .pop → s.poolList = [] →
      BusyStep s t (s.goto t (.raised (.indexError "pop from empty list")))
  | pop {conns : List String} {conn : String} : s.threads t = .pop → s.poolList = conns ++ [conn] →
      BusyStep s t (BusyPool.goto { s with poolList := conns } t (.returned conn))

theorem busyStep_iff : (borrowBusyWait τ).step s t = some (o, s') ↔ BusyStep s t s' := by
  constructor
  · intro h
    simp only [borrowBusyWait] at h
    split at h
    · next ht =>
      split at h
      · next hlen =>
        cases h
        exact .spin ht (List.eq_nil_of_length_eq_zero hlen)
      · next hlen =>
        cases h
        exact .found ht fun hnil => hlen (by rw [hnil]; rfl)
    · next ht =>
      split at h
      · next hlast =>
        cases h
        exact .raise ht (List.getLast?_eq_none_iff.mp hlast)
      · next conn hlast =>
        cases h
        exact .pop ht (List.dropLast_append_getLast? conn hlast).symm
    · cases h
  · intro h
    cases h with
    | spin ht hnil => simp only [borrowBusyWait, ht, hnil, List.length_nil, if_true]
    | found ht hne => simp only [borrowBusyWait, ht, List.length_eq_zero_iff, if_neg hne]
    | raise ht hnil => simp only [borrowBusyWait, ht, hnil, List.getLast?_nil]
    | pop ht hlast => simp only [borrowBusyWait, ht, hlast, List.getLast?_concat, List.dropLast_concat]

theorem BusyStep.reaches (h : BusyStep s t s') : (borrowBusyWait τ).Reaches s s' :=
  (Machine.Reaches.refl s).step (busyStep_iff (o := ()) |>.mpr h)

/-- Some thread has raised an `IndexError`. -/
def Raised (s : BusyPool τ) : Prop := ∃ t e, s.threads t = .raised e

def Busy.popping : Busy → Nat
  | .pop => 1
  | _ => 0

/-- The threads that hold a connection count one. -/
def Busy.holding : Busy → Nat
  | .returned _ => 1
  | _ => 0

variable [Fintype τ]

/-- What the list and the threads say of the list at first. -/
structure Busied (poolList : List String) (s : BusyPool τ) : Prop where
  found : ∀ t, s.threads t ≠ .check → poolList ≠ []
  taken : s.poolList.length + ∑ t, (s.threads t).holding = poolList.length
  raised : ∀ t e, s.threads t = .raised e → poolList.length < Fintype.card τ

theorem busied_step {poolList : List String} (h : Busied poolList s) (hs : BusyStep s t s') : Busied poolList s' := by
  have hgoto {b : Busy} {l : List String} (hfound : b ≠ .check → poolList ≠ [])
      (htaken : l.length + b.holding = s.poolList.length + (s.threads t).holding)
      (hraised : ∀ e, b = .raised e → poolList.length < Fintype.card τ) :
      Busied poolList (BusyPool.goto { s with poolList := l } t b) := by
    refine ⟨?_, ?_, ?_⟩
    · exact (Function.forall_update_iff s.threads fun _ b => b ≠ .check → poolList ≠ []).mpr
        ⟨hfound, fun u _ => h.found u⟩
    · have hsum := sum_update_univ t Busy.holding s.threads b
      have hall := h.taken
      show l.length + ∑ u, (Function.update s.threads t b u).holding = _
      omega
    · exact (Function.forall_update_iff s.threads fun _ b => ∀ e, b = .raised e → _).mpr
        ⟨hraised, fun u _ => h.raised u⟩
  cases hs with
  | spin _ _ => exact h
  | found ht hne =>
    refine hgoto (l := s.poolList) (fun _ => ?_) (by rw [ht]; rfl) fun _ he => nomatch he
    intro hnil
    have hall := h.taken
    rw [hnil, List.length_nil] at hall
    exact hne (List.eq_nil_of_length_eq_zero (by omega))
  | raise ht hnil =>
    refine hgoto (l := s.poolList) (fun _ => h.found t (by rw [ht]; exact fun he => nomatch he)) (by rw [ht]; rfl)
      fun e _ => ?_
    -- the threads that hold a connection are others
    have hall := h.taken
    have hcard : ∑ u, (s.threads u).holding < ∑ _u : τ, 1 := by
      refine Finset.sum_lt_sum (fun u _ => ?_) ⟨t, Finset.mem_univ t, by rw [ht]; exact Nat.one_pos⟩
      cases s.threads u <;> simp [Busy.holding]
    rw [Finset.sum_const, smul_eq_mul, mul_one, Finset.card_univ] at hcard
    rw [hnil, List.length_nil] at hall
    omega
  | @pop conns conn ht hlast =>
    refine hgoto (fun _ => h.found t (by rw [ht]; exact fun he => nomatch he)) ?_ fun _ he => nomatch he
    rw [ht, hlast, List.length_append]
    rfl

omit [Fintype τ] in
/-- While there is a connection, any threads can find it. -/
theorem exists_found {poolList : List String} (hne : poolList ≠ []) (T : Finset τ) :
    ∃ s, (borrowBusyWait τ).Reaches (.init τ poolList) s ∧ s.poolList = poolList ∧
      ∀ t, s.threads t = if t ∈ T then .pop else .check := by
  induction T using Finset.induction_on with
  | empty => exact ⟨_, .refl _, rfl, fun t => (if_neg (Finset.notMem_empty t)).symm⟩
  | insert t T ht ih =>
    obtain ⟨s, hr, hpool, hthreads⟩ := ih
    have hcheck : s.threads t = .check := by rw [hthreads, if_neg ht]
    refine ⟨s.goto t .pop, hr.trans (BusyStep.found hcheck (hpool ▸ hne)).reaches, hpool, ?_⟩
    refine (Function.forall_update_iff s.threads fun u b => b = if u ∈ insert t T then .pop else .check).mpr ⟨?_, ?_⟩
    · rw [if_pos (Finset.mem_insert_self t T)]
    · intro u hu
      rw [hthreads]
      simp only [Finset.mem_insert, hu, false_or]

/-- When more threads are about to pop than there are connections, one of them can find none. -/
theorem exists_raised : ∀ {n : Nat} {s : BusyPool τ}, s.poolList.length = n → n < ∑ t, (s.threads t).popping →
    ∃ s', (borrowBusyWait τ).Reaches s s' ∧ Raised s' := by
  intro n
  induction n with
  | zero =>
    intro s hlen hpop
    obtain ⟨t, -, ht⟩ := Finset.exists_ne_zero_of_sum_ne_zero (Nat.pos_iff_ne_zero.mp hpop)
    have htpop : s.threads t = .pop := by
      revert ht
      cases s.threads t <;> simp [Busy.popping]
    refine ⟨_, (BusyStep.raise htpop (List.eq_nil_of_length_eq_zero hlen)).reaches, t, _, Function.update_self _ _ _⟩
  | succ n ih =>
    intro s hlen hpop
    obtain ⟨t, -, ht⟩ := Finset.exists_ne_zero_of_sum_ne_zero (Nat.ne_of_gt (Nat.zero_lt_of_lt hpop))
    have htpop : s.threads t = .pop := by
      revert ht
      cases s.threads t <;> simp [Busy.popping]
    obtain ⟨conns, conn, hlast⟩ := List.eq_nil_or_concat' s.poolList |>.resolve_left fun hnil => by
      rw [hnil] at hlen
      cases hlen
    have hsum := sum_update_univ t Busy.popping s.threads (.returned conn)
    rw [htpop] at hsum
    have hlen' : conns.length = n := by
      rw [hlast, List.length_append, List.length_singleton] at hlen
      omega
    obtain ⟨s', hr, hraised⟩ := ih (s := BusyPool.goto { s with poolList := conns } t (.returned conn)) hlen' (by
      change _ + 1 = _ + 0 at hsum
      show n < ∑ u, (Function.update s.threads t (.returned conn) u).popping
      omega)
    exact ⟨s', (BusyStep.pop htpop hlast).reaches.trans hr, hraised⟩

/-- **The race of busy waiting.** If each of some threads borrows once and none returns, a thread can raise `IndexError`
exactly if there is a connection, but fewer than threads. -/
theorem busy_wait_raises_iff (poolList : List String) :
    (∃ s, (borrowBusyWait τ).Reaches (.init τ poolList) s ∧ Raised s) ↔
      poolList ≠ [] ∧ poolList.length < Fintype.card τ := by
  constructor
  · rintro ⟨s, hr, t, e, ht⟩
    have hinit : Busied poolList (BusyPool.init τ poolList) :=
      ⟨fun _ hne => absurd rfl hne, by simp [BusyPool.init, Busy.holding], fun _ _ he => nomatch he⟩
    have h := hr.invariant (fun hP hs => busied_step hP (busyStep_iff.mp hs)) hinit
    exact ⟨h.found t (by rw [ht]; exact fun he => nomatch he), h.raised t e ht⟩
  · rintro ⟨hne, hlt⟩
    obtain ⟨s, hr, hpool, hthreads⟩ := exists_found (τ := τ) hne Finset.univ
    have hpop : ∑ t, (s.threads t).popping = Fintype.card τ := by
      rw [Finset.sum_congr rfl fun t _ => by rw [hthreads t, if_pos (Finset.mem_univ t)], Finset.sum_const, smul_eq_mul,
        Finset.card_univ]
      exact Nat.mul_one _
    obtain ⟨s', hr', hraised⟩ := exists_raised (s := s) rfl (by rw [hpool, hpop]; exact hlt)
    exact ⟨s', hr.trans hr', hraised⟩

end TheGrind.ConnectionPool
