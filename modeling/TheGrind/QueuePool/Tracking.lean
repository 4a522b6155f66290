import Mathlib.Data.Finset.Card
import TheGrind.Data.Family
import TheGrind.QueuePool.Rotation
import TheGrind.Sync.Bounded

/-!
# A bounded queue of connections

What the two pools have in common: a queue of connections, what each worker holds of them, which are closed, and which
one the shutdown has in hand.

* `Tracks` : how these are a rotation; there is a lemma for each thing that a pool does;
* `unclosed` : how many connections are open;
* `Workers` : the workers of the two programs are at their stages; there is a lemma for each thing that a worker does;
* `work` : the steps that they have left.
-/

namespace TheGrind.QueuePool
open TheGrind.Data TheGrind.Sync TheGrind.Transition

/-- A connection that a get returns, as it is then. -/
structure Conn where
  number : Nat
  closed : Bool
  deriving DecidableEq, Repr

/-- The connections that are closed are the retired ones that the shutdown is done with. -/
structure Tracks {τ : Type} (size : Nat) (pool : Bounded Nat) (held : τ → List Nat) (closed : Nat → Bool)
    (hand : Option Nat) (r : Rotation τ) : Prop where
  whole : r.Whole size
  capacity : pool.capacity = size
  idle : r.idle = pool.items
  held : r.held = held
  closed : ∀ conn, closed conn = true ↔ conn ∈ r.retired ∧ hand ≠ some conn
  hand : ∀ conn, hand = some conn → conn ∈ r.retired

namespace Tracks
variable {τ : Type} {size : Nat} {pool pool' : Bounded Nat} {held : τ → List Nat} {closed : Nat → Bool}
  {hand : Option Nat} {r : Rotation τ} {t : τ} {conn : Nat}

theorem init (hitems : pool.items = List.range size) (hcapacity : pool.capacity = size) :
    Tracks size pool (fun _ : τ => []) (fun _ => false) none (.init τ size) where
  whole := whole_init size
  capacity := hcapacity
  idle := hitems.symm
  held := rfl
  closed conn := by simp [Rotation.init]
  hand conn h := by cases h

/-- A connection that a worker holds is open, and the pool has room for it. -/
theorem of_held (h : Tracks size pool held closed hand r) (hconn : conn ∈ held t) :
    closed conn = false ∧ conn < size ∧ pool.items.length < pool.capacity := by
  have hmem : conn ∈ r.held t := h.held ▸ hconn
  have hretired : conn ∉ r.retired := h.whole.not_mem (p := .worker t) (q := .retired) hmem (by simp)
  have hlt := h.whole.idle_lt hmem
  rw [h.idle, ← h.capacity] at hlt
  refine ⟨?_, h.whole.lt (p := .worker t) hmem, hlt⟩
  by_contra hclosed
  exact hretired ((h.closed conn).mp (by simpa using hclosed)).1

/-- So is an idle one. -/
theorem of_idle (h : Tracks size pool held closed hand r) (hconn : conn ∈ pool.items) :
    closed conn = false ∧ conn < size := by
  have hmem : conn ∈ r.idle := h.idle ▸ hconn
  have hretired : conn ∉ r.retired := h.whole.not_mem (p := .idle) (q := .retired) hmem (by simp)
  refine ⟨?_, h.whole.lt (p := .idle) hmem⟩
  by_contra hclosed
  exact hretired ((h.closed conn).mp (by simpa using hclosed)).1

/-- And the one that the shutdown has in hand. -/
theorem of_hand (h : Tracks size pool held closed (some conn) r) : closed conn = false ∧ conn < size := by
  have hretired := h.hand conn rfl
  refine ⟨?_, h.whole.lt (p := .retired) hretired⟩
  by_contra hclosed
  exact ((h.closed conn).mp (by simpa using hclosed)).2 rfl

/-- With nothing idle, held or in hand, every connection is closed. -/
theorem all_closed (h : Tracks size pool held closed none r) (hidle : pool.items = []) (hheld : ∀ t, held t = []) :
    ∀ conn < size, closed conn = true := by
  intro conn hconn
  obtain ⟨p, hp⟩ := (Partition.mem_iff h.whole conn).mp hconn
  cases p with
  | idle =>
    have hmem : conn ∈ r.idle := hp
    rw [h.idle, hidle] at hmem
    cases hmem
  | worker t =>
    have hmem : conn ∈ r.held t := hp
    rw [h.held, hheld] at hmem
    cases hmem
  | retired => exact (h.closed conn).mpr ⟨hp, by simp⟩

variable [DecidableEq τ]

theorem got (h : Tracks size pool held closed hand r) (htake : pool.take = some (conn, pool')) (t : τ) :
    ∃ r', (rotation τ).step r (.got t conn) = some (.got t conn, r') ∧
      Tracks size pool' (Function.update held t (conn :: held t)) closed hand r' := by
  obtain ⟨hitems, hcapacity⟩ := Bounded.take_eq_some_iff.mp htake
  have hstep := rotation_got (t := t) (h.idle.trans hitems)
  refine ⟨_, hstep, whole_step h.whole hstep, hcapacity.trans h.capacity, rfl, ?_, h.closed, h.hand⟩
  rw [← h.held]
  rfl

theorem released (h : Tracks size pool held closed hand r) (hconn : conn ∈ held t)
    (hput : pool.put conn = some pool') :
    ∃ r', (rotation τ).step r (.released t conn) = some (.released t conn, r') ∧
      Tracks size pool' (Function.update held t ((held t).erase conn)) closed hand r' := by
  obtain ⟨-, hitems, hcapacity⟩ := Bounded.put_eq_some_iff.mp hput
  have hmem : conn ∈ r.held t := h.held ▸ hconn
  have hstep := rotation_released hmem
  refine ⟨_, hstep, whole_step h.whole hstep, hcapacity.trans h.capacity, ?_, ?_, h.closed, h.hand⟩
  · rw [hitems, ← h.idle]
    rfl
  · rw [← h.held]
    rfl

/-- The shutdown takes a connection. -/
theorem popped (h : Tracks size pool held closed none r) (htake : pool.take = some (conn, pool')) :
    ∃ r', (rotation τ).step r (.retired conn) = some (.retired conn, r') ∧
      Tracks size pool' held closed (some conn) r' := by
  obtain ⟨hitems, hcapacity⟩ := Bounded.take_eq_some_iff.mp htake
  have hstep := rotation_retired (h.idle.trans hitems)
  have hmem : conn ∈ pool.items := by
    rw [hitems]
    exact List.mem_cons_self
  have hopen := (h.of_idle hmem).1
  refine ⟨_, hstep, whole_step h.whole hstep, hcapacity.trans h.capacity, rfl, h.held, fun c => ?_, fun c hc => ?_⟩
  · rw [h.closed c]
    constructor
    · rintro ⟨hc, -⟩
      refine ⟨List.mem_append_left _ hc, fun he => ?_⟩
      obtain rfl := Option.some.inj he
      have hclosed := (h.closed conn).mpr ⟨hc, by simp⟩
      exact Bool.false_ne_true (hopen.symm.trans hclosed)
    · rintro ⟨hc, hne⟩
      refine ⟨(List.mem_append.mp hc).resolve_right fun he => ?_, by simp⟩
      exact hne (congrArg some (List.mem_singleton.mp he).symm)
  · obtain rfl := Option.some.inj hc
    exact List.mem_append_right _ (List.mem_singleton_self _)

omit [DecidableEq τ] in
/-- The shutdown closes the connection that it has in hand. -/
theorem close (h : Tracks size pool held closed (some conn) r) :
    Tracks size pool held (Function.update closed conn true) none r where
  whole := h.whole
  capacity := h.capacity
  idle := h.idle
  held := h.held
  closed c := by
    by_cases hc : c = conn
    · subst hc
      rw [Function.update_self]
      simp [h.hand c rfl]
    · rw [Function.update_of_ne hc, h.closed c]
      simp [Ne.symm hc]
  hand c hc := by cases hc

end Tracks

/-- A step that retires no connection, after steps that did not. -/
theorem kept_snoc {τ ω : Type} {turn? : ω → Option (Turn τ)} {os : List (Option ω)} {o : Option ω}
    (hkept : ∀ b ∈ os.filterMap (·.bind turn?), b.retired? = none) (ho : ∀ b ∈ o.bind turn?, b.retired? = none) :
    ∀ b ∈ (os ++ [o]).filterMap (·.bind turn?), b.retired? = none := by
  intro b hb
  rw [List.filterMap_append] at hb
  rcases List.mem_append.mp hb with hb | hb
  · exact hkept b hb
  · obtain ⟨o', ho', hb⟩ := List.mem_filterMap.mp hb
    rw [List.mem_singleton.mp ho'] at hb
    exact ho b hb

/-- How many connections are open. -/
def unclosed (size : Nat) (closed : Nat → Bool) : Nat :=
  ((Finset.range size).filter fun conn => closed conn = false).card

theorem unclosed_le (size : Nat) (closed : Nat → Bool) : unclosed size closed ≤ size :=
  (Finset.card_filter_le _ _).trans (Finset.card_range size).le

theorem unclosed_update {size conn : Nat} {closed : Nat → Bool} (hopen : closed conn = false) (hlt : conn < size) :
    unclosed size (Function.update closed conn true) + 1 = unclosed size closed := by
  unfold unclosed
  have hmem : conn ∈ (Finset.range size).filter fun conn => closed conn = false :=
    Finset.mem_filter.mpr ⟨Finset.mem_range.mpr hlt, hopen⟩
  rw [← Finset.card_erase_add_one hmem]
  congr 2
  ext c
  rw [Finset.mem_filter, Finset.mem_erase, Finset.mem_filter]
  by_cases hc : c = conn
  · subst hc
    simp
  · rw [Function.update_of_ne hc]
    simp [hc]

/-! ## The workers of the programs -/

/-- Where a worker of the programs is: it gets a connection, executes on it and releases it. -/
inductive Stage where
  | start
  | getting
  | got (conn : Nat)
  | executed (conn : Nat)
  | done
  deriving DecidableEq

/-- The steps of a worker that are left. -/
def Stage.left : Stage → Nat
  | .start => 4
  | .getting => 3
  | .got _ => 2
  | .executed _ => 1
  | .done => 0

/-- What a worker has at its stage: whether it waits for a connection, and what it holds. -/
def Stage.Has {ω : Type} (stage : Stage) (waiting : Option ω) (held : List Nat) : Prop :=
  match stage with
  | .start | .done => waiting = none ∧ held = []
  | .getting => waiting ≠ none ∧ held = []
  | .got conn | .executed conn => waiting = none ∧ held = [conn]

/-- The workers have what their stages say. They are done when the shutdown begins, and nothing is closed before it. -/
structure Workers {τ ω : Type} (waiting : τ → Option ω) (held : τ → List Nat) (closed : Nat → Bool) (begun : Prop)
    (stages : τ → Stage) : Prop where
  has : ∀ t, (stages t).Has (waiting t) (held t)
  joined : begun → ∀ t, stages t = .done
  unclosed : ¬begun → ∀ conn, closed conn = false

namespace Workers
variable {τ ω : Type} {waiting waiting' : τ → Option ω} {held held' : τ → List Nat} {closed : Nat → Bool} {begun : Prop}
  {stages : τ → Stage} {t : τ} {stage : Stage} {conn : Nat}

theorem init (hb : ¬begun) :
    Workers (fun _ : τ => (none : Option ω)) (fun _ => []) (fun _ => false) begun fun _ => .start where
  has _ := ⟨rfl, rfl⟩
  joined h := absurd h hb
  unclosed _ _ := rfl

/-- What a worker has that is at a known stage. -/
theorem at_stage (h : Workers waiting held closed begun stages) (ht : stages t = stage) :
    stage.Has (waiting t) (held t) := ht ▸ h.has t

/-- A worker that has got a connection holds it, and waits for none. -/
theorem holds (h : Workers waiting held closed begun stages) (ht : stages t = .got conn ∨ stages t = .executed conn) :
    (waiting t).isNone ∧ conn ∈ held t := by
  have hhas : waiting t = none ∧ held t = [conn] := by
    rcases ht with ht | ht
    · exact h.at_stage ht
    · exact h.at_stage ht
  exact ⟨by rw [hhas.1]; rfl, by rw [hhas.2]; exact List.mem_cons_self⟩

/-- While somebody works, the shutdown has not begun. -/
theorem not_begun (h : Workers waiting held closed begun stages) (ht : stages t ≠ .done) : ¬begun :=
  fun hb => ht (h.joined hb t)

/-- Somebody has a connection, or has not asked for one yet, or all are done; otherwise those that are left wait, and
nobody holds a connection. -/
theorem phases (h : Workers waiting held closed begun stages) :
    (∃ t conn, stages t = .got conn) ∨ (∃ t conn, stages t = .executed conn) ∨ (∃ t, stages t = .start) ∨
      (∀ t, stages t = .done) ∨ (∃ t, stages t = .getting) ∧ ∀ t, held t = [] := by
  by_cases hgot : ∃ t conn, stages t = .got conn
  · exact Or.inl hgot
  by_cases hexecuted : ∃ t conn, stages t = .executed conn
  · exact Or.inr (Or.inl hexecuted)
  by_cases hstart : ∃ t, stages t = .start
  · exact Or.inr (Or.inr (Or.inl hstart))
  by_cases hall : ∀ t, stages t = .done
  · exact Or.inr (Or.inr (Or.inr (Or.inl hall)))
  refine Or.inr (Or.inr (Or.inr (Or.inr ⟨?_, fun t => ?_⟩)))
  · obtain ⟨t, ht⟩ := not_forall.mp hall
    refine ⟨t, ?_⟩
    cases hst : stages t with
    | start => exact absurd ⟨t, hst⟩ hstart
    | getting => rfl
    | got conn => exact absurd ⟨t, conn, hst⟩ hgot
    | executed conn => exact absurd ⟨t, conn, hst⟩ hexecuted
    | done => exact absurd hst ht
  · cases hst : stages t with
    | got conn => exact absurd ⟨t, conn, hst⟩ hgot
    | executed conn => exact absurd ⟨t, conn, hst⟩ hexecuted
    | start | getting | done => exact (h.at_stage hst).2

/-- Once the workers are done, the shutdown can begin, and go on. -/
theorem shutdown (h : Workers waiting held closed begun stages) (hall : ∀ t, stages t = .done) {closed' : Nat → Bool}
    {begun' : Prop} (hb : begun') : Workers waiting held closed' begun' stages where
  has := h.has
  joined _ := hall
  unclosed hnot := absurd hb hnot

variable [DecidableEq τ]

/-- A worker goes on to another stage, and has there what it should have. -/
theorem goto (h : Workers waiting held closed begun stages) (ht : stages t ≠ .done)
    (hstage : stage.Has (waiting' t) (held' t)) (hw : ∀ u, u ≠ t → waiting' u = waiting u)
    (hh : ∀ u, u ≠ t → held' u = held u) :
    Workers waiting' held' closed begun (Function.update stages t stage) where
  has := by
    refine (Function.forall_update_iff stages fun u x => x.Has (waiting' u) (held' u)).mpr ⟨hstage, fun u hu => ?_⟩
    rw [hw u hu, hh u hu]
    exact h.has u
  joined hb := absurd hb (h.not_begun ht)
  unclosed := h.unclosed

theorem waits (h : Workers waiting held closed begun stages) (ht : stages t = .start) (w : ω) :
    Workers (Function.update waiting t (some w)) held closed begun (Function.update stages t .getting) := by
  refine h.goto (by simp [ht]) ⟨?_, (h.at_stage ht).2⟩ (fun u hu => Function.update_of_ne hu _ _) fun _ _ => rfl
  rw [Function.update_self]
  exact Option.some_ne_none w

/-- The call raises before it waits. -/
theorem refused (h : Workers waiting held closed begun stages) (ht : stages t = .start) :
    Workers waiting held closed begun (Function.update stages t .done) :=
  h.goto (by simp [ht]) (h.at_stage ht :) (fun _ _ => rfl) fun _ _ => rfl

theorem got (h : Workers waiting held closed begun stages) (ht : stages t = .getting) (conn : Nat) :
    Workers (Function.update waiting t none) (Function.update held t (conn :: held t)) closed begun
      (Function.update stages t (.got conn)) := by
  refine h.goto (by simp [ht]) ⟨Function.update_self _ _ _, ?_⟩ (fun u hu => Function.update_of_ne hu _ _)
    fun u hu => Function.update_of_ne hu _ _
  rw [Function.update_self, (h.at_stage ht).2]

theorem timedOut (h : Workers waiting held closed begun stages) (ht : stages t = .getting) :
    Workers (Function.update waiting t none) held closed begun (Function.update stages t .done) :=
  h.goto (by simp [ht]) ⟨Function.update_self _ _ _, (h.at_stage ht).2⟩ (fun u hu => Function.update_of_ne hu _ _)
    fun _ _ => rfl

theorem executed (h : Workers waiting held closed begun stages) (ht : stages t = .got conn) :
    Workers waiting held closed begun (Function.update stages t (.executed conn)) :=
  h.goto (by simp [ht]) (h.at_stage ht :) (fun _ _ => rfl) fun _ _ => rfl

theorem released (h : Workers waiting held closed begun stages) (ht : stages t = .executed conn) :
    Workers waiting (Function.update held t ((held t).erase conn)) closed begun (Function.update stages t .done) := by
  refine h.goto (by simp [ht]) ⟨(h.at_stage ht).1, ?_⟩ (fun _ _ => rfl) fun u hu => Function.update_of_ne hu _ _
  rw [Function.update_self, (h.at_stage ht).2]
  simp

end Workers

section Work
variable {τ : Type} [Fintype τ] {stages : τ → Stage} {t : τ} {stage stage' : Stage}

/-- The steps that the workers have left. -/
def work (stages : τ → Stage) : Nat := ∑ t, (stages t).left

theorem work_start : work (fun _ : τ => .start) = 4 * Fintype.card τ := by
  unfold work
  rw [Finset.sum_const_nat fun _ _ => rfl, Finset.card_univ, Nat.mul_comm]
  rfl

/-- A worker that goes on has fewer. -/
theorem work_goto [DecidableEq τ] (ht : stages t = stage) (hlt : stage'.left < stage.left) :
    work (Function.update stages t stage') + 1 ≤ work stages := by
  have hsum := sum_update_univ t Stage.left stages stage'
  rw [ht] at hsum
  unfold work
  omega

end Work

end TheGrind.QueuePool
