import Mathlib.Data.List.Range
import Mathlib.Data.List.Perm.Subperm
import TheGrind.Data.Partition
import TheGrind.Transition.Machine

/-!
# Rotation

What a pool is for, whatever it keeps its connections in: a connection is idle, or held by one worker, or retired, and
the idle ones are taken in the order in which they came. `rotation` is the machine of the turns that connections take.

* `Rotation.contents` : the places, which partition the connections of every run (`partition_run`);
* `fifo_run` : the connections at the start and those released since are those taken and those idle, in order;
* `rotation_handed` : what the next gets hand out is a matter of the releases alone.
-/

namespace TheGrind.QueuePool
open TheGrind.Data TheGrind.Transition

/-- The `size` connections of a pool are numbered in the order in which they were created. -/
structure Rotation (τ : Type) where
  idle : List Nat
  held : τ → List Nat
  retired : List Nat

def Rotation.init (τ : Type) (size : Nat) : Rotation τ := ⟨List.range size, fun _ => [], []⟩

/-- A connection is handed to a worker, comes back from it, or is taken out for good. -/
inductive Turn (τ : Type) where
  | got (t : τ) (conn : Nat)
  | released (t : τ) (conn : Nat)
  | retired (conn : Nat)
  deriving DecidableEq

variable {τ : Type} [DecidableEq τ]

namespace Rotation

def got (r : Rotation τ) (t : τ) (conn : Nat) (idle : List Nat) : Rotation τ :=
  { r with idle := idle, held := Function.update r.held t (conn :: r.held t) }

def released (r : Rotation τ) (t : τ) (conn : Nat) : Rotation τ :=
  { r with idle := r.idle ++ [conn], held := Function.update r.held t ((r.held t).erase conn) }

end Rotation

/-- Only the first of the idle connections is taken, and a worker releases what it holds. -/
def rotation (τ : Type) [DecidableEq τ] : Machine (Rotation τ) (Turn τ) (Turn τ) where
  step r a :=
    match a with
    | .got t conn => if r.idle.head? = some conn then some (a, r.got t conn r.idle.tail) else none
    | .released t conn => if conn ∈ r.held t then some (a, r.released t conn) else none
    | .retired conn =>
      if r.idle.head? = some conn then some (a, { r with idle := r.idle.tail, retired := r.retired ++ [conn] })
      else none

section Steps
variable {r r' : Rotation τ} {t : τ} {conn : Nat} {a o : Turn τ} {rest : List Nat}

theorem rotation_got (h : r.idle = conn :: rest) :
    (rotation τ).step r (.got t conn) = some (.got t conn, r.got t conn rest) := by
  simp [rotation, h]

theorem rotation_released (h : conn ∈ r.held t) :
    (rotation τ).step r (.released t conn) = some (.released t conn, r.released t conn) := by
  simp [rotation, h]

theorem rotation_retired (h : r.idle = conn :: rest) : (rotation τ).step r (.retired conn) =
    some (.retired conn, { r with idle := rest, retired := r.retired ++ [conn] }) := by
  simp [rotation, h]

theorem rotation_cases (h : (rotation τ).step r a = some (o, r')) : o = a ∧
    ((∃ t conn rest, a = .got t conn ∧ r.idle = conn :: rest ∧ r' = r.got t conn rest) ∨
      (∃ t conn, a = .released t conn ∧ conn ∈ r.held t ∧ r' = r.released t conn) ∨
      ∃ conn rest, a = .retired conn ∧ r.idle = conn :: rest ∧
        r' = { r with idle := rest, retired := r.retired ++ [conn] }) := by
  cases a with
  | got t conn =>
    simp only [rotation] at h
    split at h
    · next hhead =>
      cases h
      obtain ⟨rest, hidle⟩ := List.head?_eq_some_iff.mp hhead
      exact ⟨rfl, Or.inl ⟨t, conn, rest, rfl, hidle, by rw [hidle]; rfl⟩⟩
    · cases h
  | released t conn =>
    simp only [rotation] at h
    split at h
    · next hmem =>
      cases h
      exact ⟨rfl, Or.inr (Or.inl ⟨t, conn, rfl, hmem, rfl⟩)⟩
    · cases h
  | retired conn =>
    simp only [rotation] at h
    split at h
    · next hhead =>
      cases h
      obtain ⟨rest, hidle⟩ := List.head?_eq_some_iff.mp hhead
      exact ⟨rfl, Or.inr (Or.inr ⟨conn, rest, rfl, hidle, by rw [hidle]; rfl⟩)⟩
    · cases h

/-- A step of a pool that is no turn. -/
theorem rotation_rests {P : Rotation τ → Prop} (h : P r) : ∃ bs r', (rotation τ).run r bs = some ([], r') ∧ P r' :=
  ⟨[], r, rfl, h⟩

/-- A step of a pool that is one turn. -/
theorem rotation_turns {P : Rotation τ → Prop} (hs : (rotation τ).step r a = some (a, r')) (h : P r') :
    ∃ bs r', (rotation τ).run r bs = some ([a], r') ∧ P r' :=
  ⟨[a], r', (Machine.run_singleton_iff _).mpr ⟨a, hs, rfl⟩, h⟩

end Steps

/-! ## Every connection has one place -/

inductive Place (τ : Type) where
  | idle
  | worker (t : τ)
  | retired
  deriving DecidableEq

def Rotation.contents (r : Rotation τ) : Place τ → List Nat
  | .idle => r.idle
  | .worker t => r.held t
  | .retired => r.retired

/-- The `size` connections are spread over the places. -/
def Rotation.Whole (size : Nat) (r : Rotation τ) : Prop := Partition {conn | conn < size} r.contents

section Places
variable {size : Nat} {r r' : Rotation τ} {a o : Turn τ}

omit [DecidableEq τ] in
theorem whole_init (size : Nat) : (Rotation.init τ size).Whole size := by
  have hset : {conn | conn < size} = {conn | conn ∈ (Rotation.init τ size).contents .idle} := by
    ext conn
    exact List.mem_range.symm
  unfold Rotation.Whole
  rw [hset]
  refine Partition.init (C := (Rotation.init τ size).contents) .idle List.nodup_range fun p hp => ?_
  cases p with
  | idle => exact absurd rfl hp
  | worker t | retired => rfl

theorem whole_step (h : r.Whole size) (hs : (rotation τ).step r a = some (o, r')) : r'.Whole size := by
  obtain ⟨-, ⟨t, conn, rest, -, hidle, rfl⟩ | ⟨t, conn, -, hmem, rfl⟩ | ⟨conn, rest, -, hidle, rfl⟩⟩ :=
    rotation_cases hs
  · apply h.move_one (c := conn) (p := .idle) (q := .worker t) (by simp)
    · show r.idle.Perm (conn :: rest)
      rw [hidle]
    · show (Function.update r.held t (conn :: r.held t) t).Perm _
      rw [Function.update_self]
      exact List.Perm.refl _
    · intro p hp hq
      cases p with
      | idle => exact absurd rfl hp
      | worker t' => exact Function.update_of_ne (fun he => hq (congrArg Place.worker he)) _ _
      | retired => rfl
  · apply h.move_one (c := conn) (p := .worker t) (q := .idle) (by simp)
    · show (r.held t).Perm (conn :: Function.update r.held t ((r.held t).erase conn) t)
      rw [Function.update_self]
      exact List.perm_cons_erase hmem
    · exact List.perm_append_singleton _ _
    · intro p hp hq
      cases p with
      | idle => exact absurd rfl hq
      | worker t' => exact Function.update_of_ne (fun he => hp (congrArg Place.worker he)) _ _
      | retired => rfl
  · apply h.move_one (c := conn) (p := .idle) (q := .retired) (by simp)
    · show r.idle.Perm (conn :: rest)
      rw [hidle]
    · exact List.perm_append_singleton _ _
    · intro p hp hq
      cases p with
      | idle => exact absurd rfl hp
      | worker t => rfl
      | retired => exact absurd rfl hq

omit [DecidableEq τ] in
theorem Rotation.Whole.lt {p : Place τ} {conn : Nat} (h : r.Whole size) (hc : conn ∈ r.contents p) : conn < size :=
  Partition.mem (T := {conn | conn < size}) h hc

omit [DecidableEq τ] in
/-- While a worker holds a connection, the idle ones leave room for it. -/
theorem Rotation.Whole.idle_lt {t : τ} {conn : Nat} (h : r.Whole size) (hmem : conn ∈ r.held t) :
    r.idle.length < size := by
  have hnodup : (conn :: r.idle).Nodup := List.nodup_cons.mpr
    ⟨h.not_mem (p := .worker t) (q := .idle) hmem (by simp), h.nodup .idle⟩
  have hsub : conn :: r.idle ⊆ List.range size := by
    intro c hc
    rw [List.mem_range]
    rcases List.mem_cons.mp hc with rfl | hc
    · exact h.lt (p := .worker t) hmem
    · exact h.lt (p := .idle) hc
  have hle := (hnodup.subperm hsub).length_le
  rwa [List.length_range] at hle

end Places

/-! ## First in, first out -/

section Order
variable {size : Nat} {r r' : Rotation τ} {a o : Turn τ} {as bs turns turns' : List (Turn τ)}

def Turn.got? : Turn τ → Option Nat
  | .got _ conn => some conn
  | _ => none

def Turn.released? : Turn τ → Option Nat
  | .released _ conn => some conn
  | _ => none

def Turn.retired? : Turn τ → Option Nat
  | .retired conn => some conn
  | _ => none

/-- The connections that workers were handed, in this order. -/
def handed (turns : List (Turn τ)) : List Nat := turns.filterMap Turn.got?

/-- The connections that came back, in this order. -/
def returned (turns : List (Turn τ)) : List Nat := turns.filterMap Turn.released?

/-- The connections that left the idle ones, in this order. -/
def taken (turns : List (Turn τ)) : List Nat := turns.filterMap fun a => a.got?.or a.retired?

omit [DecidableEq τ] in
theorem taken_eq_handed (h : ∀ a ∈ turns, a.retired? = none) : taken turns = handed turns := by
  unfold taken handed
  apply List.filterMap_congr
  intro a ha
  rw [h a ha, Option.or_none]

theorem fifo_step (h : List.range size ++ returned turns = taken turns ++ r.idle)
    (hs : (rotation τ).step r a = some (o, r')) :
    List.range size ++ returned (turns ++ [o]) = taken (turns ++ [o]) ++ r'.idle := by
  unfold returned taken at h ⊢
  rw [List.filterMap_append, List.filterMap_append, ← List.append_assoc, h]
  obtain ⟨rfl, ⟨t, conn, rest, rfl, hidle, rfl⟩ | ⟨t, conn, rfl, hmem, rfl⟩ | ⟨conn, rest, rfl, hidle, rfl⟩⟩ :=
    rotation_cases hs
  · simp [Rotation.got, Turn.got?, Turn.released?, hidle]
  · simp [Rotation.released, Turn.got?, Turn.released?, Turn.retired?]
  · simp [Turn.got?, Turn.released?, Turn.retired?, hidle]

/-- What was there at the start and what came back is what was taken and what is idle, in order. -/
theorem fifo_run (h : (rotation τ).run (.init τ size) as = some (turns, r)) :
    List.range size ++ returned turns = taken turns ++ r.idle :=
  Machine.run_history (M := rotation τ) (P := fun turns r => List.range size ++ returned turns = taken turns ++ r.idle)
    fifo_step (l := []) (List.append_nil _) h

theorem retired_step (h : r.retired = turns.filterMap Turn.retired?) (hs : (rotation τ).step r a = some (o, r')) :
    r'.retired = (turns ++ [o]).filterMap Turn.retired? := by
  rw [List.filterMap_append, ← h]
  obtain ⟨rfl, ⟨t, conn, rest, rfl, -, rfl⟩ | ⟨t, conn, rfl, -, rfl⟩ | ⟨conn, rest, rfl, -, rfl⟩⟩ := rotation_cases hs
  · exact (List.append_nil _).symm
  · exact (List.append_nil _).symm
  · rfl

theorem whole_run (h : (rotation τ).run (.init τ size) as = some (turns, r)) : r.Whole size :=
  Machine.run_invariant (M := rotation τ) (P := Rotation.Whole size) whole_step (whole_init size) h

theorem retired_run (h : (rotation τ).run (.init τ size) as = some (turns, r)) :
    r.retired = turns.filterMap Turn.retired? :=
  Machine.run_history (M := rotation τ) (P := fun turns r => r.retired = turns.filterMap Turn.retired?) retired_step
    (l := []) rfl h

/-- The connections of a pool that is not closed: each is idle or held by one worker, once, there are no others, and
those handed out and those idle are, in order, the ones at the start and the ones that came back. -/
structure Conserved (size : Nat) (idle : List Nat) (held : τ → List Nat) (turns : List (Turn τ)) : Prop where
  once : ∀ conn < size, (idle.count conn = 1 ∧ ∀ t, conn ∉ held t) ∨
    (conn ∉ idle ∧ ∃ t, (held t).count conn = 1 ∧ ∀ t', t' ≠ t → conn ∉ held t')
  created : (∀ conn ∈ idle, conn < size) ∧ ∀ t, ∀ conn ∈ held t, conn < size
  fifo : List.range size ++ returned turns = handed turns ++ idle

theorem conserved_run (h : (rotation τ).run (.init τ size) as = some (turns, r))
    (hkept : ∀ a ∈ turns, a.retired? = none) : Conserved size r.idle r.held turns := by
  have hwhole := whole_run h
  have hretired : r.retired = [] := by
    rw [retired_run h, List.filterMap_eq_nil_iff]
    exact hkept
  have hcreated : (∀ conn ∈ r.idle, conn < size) ∧ ∀ t, ∀ conn ∈ r.held t, conn < size :=
    ⟨fun _ hc => hwhole.lt (p := .idle) hc, fun t _ hc => hwhole.lt (p := .worker t) hc⟩
  refine ⟨fun conn hconn => ?_, hcreated, ?_⟩
  · obtain ⟨p, hp⟩ := (Partition.mem_iff hwhole conn).mp hconn
    cases p with
    | idle =>
      exact Or.inl ⟨List.count_eq_one_of_mem (hwhole.nodup .idle) hp, fun t =>
        hwhole.not_mem (p := .idle) (q := .worker t) hp (by simp)⟩
    | worker t =>
      exact Or.inr ⟨hwhole.not_mem (p := .worker t) (q := .idle) hp (by simp), t,
        List.count_eq_one_of_mem (hwhole.nodup (.worker t)) hp, fun t' ht' =>
        hwhole.not_mem (p := .worker t) (q := .worker t') hp fun he => ht' (Place.worker.inj he)⟩
    | retired =>
      have hnil : conn ∈ r.retired := hp
      rw [hretired] at hnil
      cases hnil
  · rw [← taken_eq_handed hkept]
    exact fifo_run h

/-- A completed operation: a worker got a connection, or released the `slot`-th of those it held, the latest first. -/
inductive Operation (τ : Type) where
  | get (t : τ)
  | release (t : τ) (slot : Nat)
  | retire
  deriving DecidableEq

def Rotation.operation (r : Rotation τ) : Turn τ → Operation τ
  | .got t _ => .get t
  | .released t conn => .release t ((r.held t).idxOf conn)
  | .retired _ => .retire

/-- The operations of a run of turns. -/
def operations (r : Rotation τ) : List (Turn τ) → List (Operation τ)
  | [] => []
  | a :: turns => r.operation a :: ((rotation τ).step r a).elim [] fun x => operations x.2 turns

/-- An operation determines the turn that a connection takes by it. -/
theorem rotation_turn {b o' : Turn τ} {r'' : Rotation τ} (hs : (rotation τ).step r a = some (o, r'))
    (hs' : (rotation τ).step r b = some (o', r'')) (h : r.operation a = r.operation b) : a = b := by
  obtain ⟨-, ha⟩ := rotation_cases hs
  obtain ⟨-, hb⟩ := rotation_cases hs'
  rcases ha with ⟨t, conn, rest, rfl, hidle, -⟩ | ⟨t, conn, rfl, hmem, -⟩ | ⟨conn, rest, rfl, hidle, -⟩ <;>
    rcases hb with ⟨t', conn', rest', rfl, hidle', -⟩ | ⟨t', conn', rfl, hmem', -⟩ | ⟨conn', rest', rfl, hidle', -⟩
  · obtain rfl := Operation.get.inj h
    obtain ⟨rfl, -⟩ := List.cons.inj (hidle.symm.trans hidle')
    rfl
  · cases h
  · cases h
  · cases h
  · obtain ⟨rfl, hslot⟩ := Operation.release.inj h
    rw [(List.idxOf_inj hmem).mp hslot]
  · cases h
  · cases h
  · cases h
  · obtain ⟨rfl, -⟩ := List.cons.inj (hidle.symm.trans hidle')
    rfl

/-- **One rotation.** Runs with the same operations hand out the same connections. -/
theorem rotation_deterministic : ∀ {as bs turns turns' : List (Turn τ)} {r r₁ r₂ : Rotation τ},
    (rotation τ).run r as = some (turns, r₁) → (rotation τ).run r bs = some (turns', r₂) →
    operations r turns = operations r turns' → turns = turns' := by
  intro as
  induction as with
  | nil =>
    intro bs turns turns' r r₁ r₂ h h' hops
    cases h
    cases bs with
    | nil =>
      cases h'
      rfl
    | cons b bs =>
      obtain ⟨o, os, m, -, -, rfl⟩ := (Machine.run_cons_iff _).mp h'
      cases hops
  | cons a as ih =>
    intro bs turns turns' r r₁ r₂ h h' hops
    obtain ⟨o, os, m, hs, hr, rfl⟩ := (Machine.run_cons_iff _).mp h
    obtain ⟨rfl, -⟩ := rotation_cases hs
    cases bs with
    | nil =>
      cases h'
      cases hops
    | cons b bs =>
      obtain ⟨o', os', m', hs', hr', rfl⟩ := (Machine.run_cons_iff _).mp h'
      obtain ⟨rfl, -⟩ := rotation_cases hs'
      unfold operations at hops
      rw [hs, hs'] at hops
      obtain ⟨hop, hops⟩ := List.cons.inj hops
      obtain rfl := rotation_turn hs hs' hop
      obtain ⟨-, rfl⟩ := Prod.mk.inj (Option.some.inj (hs.symm.trans hs'))
      rw [ih hr hr' hops]

end Order

end TheGrind.QueuePool
