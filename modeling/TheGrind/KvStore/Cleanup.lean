import TheGrind.Transition.Machine
import TheGrind.KvStore.Handlers

/-!
# The backlog of the cleanup

Iterations of `cleanup_loop` on a table that nobody else writes. The subquery has no order, so a batch may be spent on
rows that died after the ones that wait longest; still, enough batches take every row that was dead at the first
reading. A batch that is not full leaves no dead row (`not_dead_of_not_full`), and full batches use up the rows that are
dead at the last reading (`deadCount_of_full`): one of the two happens (`drained_run`).
-/

namespace TheGrind.KvStore
open TheGrind.Transition

/-- One turn of `cleanup_loop`: an iteration at a reading that picked these addresses, or one whose `except` caught an
error of the pool, of the connection or of the statement. -/
inductive CleanupMove where
  | iterate (now : Int) (picked : List Nat)
  | fail
  deriving DecidableEq, Repr

/-- `cleanup_loop` alone with the table; the output is the number of rows that it deleted. -/
def cleanupLoop (batch : Nat) : Machine Store CleanupMove (Option Nat) where
  step s
    | .iterate now picked =>
      if Batch batch (s.selectDead now) picked then
        let r := cleanupOnce s picked
        some (some r.1, r.2)
      else none
    | .fail => some (none, s)

def CleanupMove.reading? : CleanupMove → Option Int
  | .iterate now _ => some now
  | .fail => none

/-- The clock readings of the iterations that succeeded, in order. -/
def cleanupReadings (moves : List CleanupMove) : List Int := moves.filterMap CleanupMove.reading?

/-- How many rows are dead at a reading. -/
def Store.deadCount (s : Store) (now : Int) : Nat := (s.rows.filter (dead now)).length

variable {batch : Nat} {s s' : Store} {now t₁ t : Int} {picked : List Nat} {o : Option Nat}

theorem length_selectDead (s : Store) (now : Int) : (s.selectDead now).length = s.deadCount now := by
  unfold Store.selectDead Store.deadCount
  rw [List.length_map]

/-! ## One iteration -/

/-- Distinct addresses of rows are the addresses of as many rows. -/
theorem length_filter_ctid (hn : picked.Nodup) (hsub : picked ⊆ s.rows.map Row.ctid) :
    (s.rows.filter (·.ctid ∈ picked)).length = picked.length := by
  have hperm : ((s.rows.filter (·.ctid ∈ picked)).map Row.ctid).Perm picked := by
    apply (List.perm_ext_iff_of_nodup (s.ctid_unique.sublist (List.filter_sublist.map _)) hn).mpr
    intro c
    simp only [List.mem_map, List.mem_filter, decide_eq_true_eq]
    constructor
    · rintro ⟨r, ⟨-, hr⟩, rfl⟩
      exact hr
    · intro hc
      obtain ⟨r, hr, rfl⟩ := List.mem_map.mp (hsub hc)
      exact ⟨r, ⟨hr, hc⟩, rfl⟩
  rw [← hperm.length_eq, List.length_map]

theorem subset_ctids (h : Batch batch (s.selectDead now) picked) : picked ⊆ s.rows.map Row.ctid := by
  intro c hc
  obtain ⟨r, hr, rfl⟩ := List.mem_map.mp (h.1.2.1 hc)
  exact List.mem_map_of_mem (List.mem_filter.mp hr).1

/-- What a step of the loop does: nothing, or it takes the rows at the addresses of a batch. -/
theorem cleanupLoop_step {a : CleanupMove} (h : (cleanupLoop batch).step s a = some (o, s')) :
    (a = .fail ∧ s' = s) ∨ ∃ now picked, a = .iterate now picked ∧ Batch batch (s.selectDead now) picked ∧
      o = some picked.length ∧ s' = (s.deleteCtids picked).2 := by
  cases a with
  | fail =>
    cases h
    exact Or.inl ⟨rfl, rfl⟩
  | iterate now picked =>
    simp only [cleanupLoop] at h
    split at h
    · next hb =>
      cases h
      refine Or.inr ⟨now, picked, rfl, hb, ?_, rfl⟩
      rw [← length_filter_ctid hb.1.1 (subset_ctids hb)]
      rfl
    · cases h

/-- A batch takes its number of rows. -/
theorem length_deleteCtids (h : Batch batch (s.selectDead now) picked) :
    (s.deleteCtids picked).2.rows.length + picked.length = s.rows.length := by
  have hsplit := List.length_eq_length_filter_add (l := s.rows) (fun r => decide (r.ctid ∈ picked))
  rw [length_filter_ctid h.1.1 (subset_ctids h)] at hsplit
  have hrest : (s.deleteCtids picked).2.rows = s.rows.filter fun r => !decide (r.ctid ∈ picked) := by
    simp only [Store.deleteCtids, decide_not]
  rw [hrest]
  omega

/-- A batch is taken from the rows that are dead at any later reading. -/
theorem deadCount_deleteCtids (h : Batch batch (s.selectDead now) picked) (hle : now ≤ t) :
    (s.deleteCtids picked).2.deadCount t + picked.length = s.deadCount t := by
  have hsplit := List.length_eq_length_filter_add (l := s.rows.filter (dead t)) (fun r => decide (r.ctid ∈ picked))
  have hin : (s.rows.filter (dead t)).filter (fun r => decide (r.ctid ∈ picked)) =
      s.rows.filter (·.ctid ∈ picked) := by
    rw [List.filter_filter]
    apply List.filter_congr
    intro r hr
    by_cases hc : r.ctid ∈ picked
    · simp [hc, dead_mono hle (h.1.dead hr hc)]
    · simp [hc]
  have hout : (s.rows.filter (dead t)).filter (fun r => !decide (r.ctid ∈ picked)) =
      (s.deleteCtids picked).2.rows.filter (dead t) := by
    simp only [Store.deleteCtids, List.filter_filter, decide_not, Bool.and_comm]
  rw [hin, hout, length_filter_ctid h.1.1 (subset_ctids h)] at hsplit
  unfold Store.deadCount
  omega

theorem deadCount_of_full (h : Batch batch (s.selectDead now) picked) (hle : now ≤ t)
    (hfull : batch ≤ s.deadCount now) : (s.deleteCtids picked).2.deadCount t + batch = s.deadCount t := by
  have hlen : picked.length = batch := by
    rw [h.2, length_selectDead]
    omega
  rw [← hlen]
  exact deadCount_deleteCtids h hle

/-- A batch that is not full has taken every dead row. -/
theorem not_dead_of_not_full (h : Batch batch (s.selectDead now) picked) (hfull : s.deadCount now < batch) :
    ∀ r ∈ (s.deleteCtids picked).2.rows, dead now r = false := by
  intro r hr
  obtain ⟨hmem, hout⟩ := Store.mem_deleteCtids.mp hr
  have hlen : (s.selectDead now).length ≤ picked.length := by
    rw [h.2, length_selectDead]
    omega
  have hperm : picked.Perm (s.selectDead now) := (List.subperm_of_subset h.1.1 h.1.2.1).perm_of_length_le hlen
  by_contra hd
  apply hout
  apply hperm.mem_iff.mpr
  exact List.mem_map_of_mem (List.mem_filter.mpr ⟨hmem, by simpa using hd⟩)

/-! ## Many iterations -/

/-- Rows that are live at every reading stay, and no row comes. -/
theorem rows_run {moves : List CleanupMove} {os : List (Option Nat)} :
    ∀ {s s' : Store}, (cleanupLoop batch).run s moves = some (os, s') →
      (∀ r ∈ s'.rows, r ∈ s.rows) ∧
        ∀ r ∈ s.rows, (∀ now ∈ cleanupReadings moves, dead now r = false) → r ∈ s'.rows := by
  induction moves generalizing os with
  | nil =>
    intro s s' h
    cases h
    exact ⟨fun _ hr => hr, fun _ hr _ => hr⟩
  | cons a moves ih =>
    intro s s' h
    obtain ⟨o, os', m, hs, hrun, rfl⟩ := (Machine.run_cons_iff _).mp h
    obtain ⟨hsub, hkeep⟩ := ih hrun
    rcases cleanupLoop_step hs with ⟨rfl, rfl⟩ | ⟨now, picked, rfl, hb, -, rfl⟩
    · exact ⟨hsub, hkeep⟩
    · refine ⟨fun r hr => (Store.mem_deleteCtids.mp (hsub r hr)).1, fun r hr hlive => ?_⟩
      apply hkeep r
      · refine Store.mem_deleteCtids.mpr ⟨hr, fun hc => ?_⟩
        have hd := hb.1.dead hr hc
        rw [hlive now List.mem_cons_self] at hd
        cases hd
      · exact fun now' hn => hlive now' (List.mem_cons_of_mem _ hn)

/-- Either some batch was not full, and no row of the first reading is left, or all were full. -/
theorem drained_run {moves : List CleanupMove} {os : List (Option Nat)} :
    ∀ {s s' : Store}, (cleanupLoop batch).run s moves = some (os, s') →
      (∀ now ∈ cleanupReadings moves, t₁ ≤ now ∧ now ≤ t) →
      (∀ r ∈ s'.rows, dead t₁ r = false) ∨
        s'.deadCount t + (cleanupReadings moves).length * batch = s.deadCount t := by
  induction moves generalizing os with
  | nil =>
    intro s s' h _
    cases h
    right
    simp [cleanupReadings]
  | cons a moves ih =>
    intro s s' h hbounds
    obtain ⟨o, os', m, hs, hrun, rfl⟩ := (Machine.run_cons_iff _).mp h
    rcases cleanupLoop_step hs with ⟨rfl, rfl⟩ | ⟨now, picked, rfl, hb, -, rfl⟩
    · exact ih hrun hbounds
    · obtain ⟨hge, hle⟩ := hbounds now List.mem_cons_self
      have hlen : (cleanupReadings (.iterate now picked :: moves)).length = (cleanupReadings moves).length + 1 := rfl
      by_cases hfull : batch ≤ s.deadCount now
      · rcases ih hrun (fun now' hn => hbounds now' (List.mem_cons_of_mem _ hn)) with hnone | hcount
        · exact Or.inl hnone
        · right
          have hone := deadCount_of_full hb hle hfull
          rw [hlen, Nat.add_mul]
          omega
      · left
        intro r hr
        have hnow := not_dead_of_not_full hb (by omega) r ((rows_run hrun).1 r hr)
        by_contra hd
        rw [dead_mono hge (by simpa using hd)] at hnow
        cases hnow

theorem le_of_sorted {l : List Int} {a b : Int} (h : l.Pairwise (· ≤ ·)) (ha : l.head? = some a)
    (hb : l.getLast? = some b) : ∀ t ∈ l, a ≤ t ∧ t ≤ b := by
  intro t ht
  constructor
  · obtain ⟨rest, rfl⟩ := List.head?_eq_some_iff.mp ha
    rcases List.mem_cons.mp ht with rfl | ht
    · exact le_refl _
    · exact (List.pairwise_cons.mp h).1 t ht
  · obtain ⟨rest, rfl⟩ := List.getLast?_eq_some_iff.mp hb
    rcases List.mem_append.mp ht with ht | ht
    · exact (List.pairwise_append.mp h).2.2 t ht b (List.mem_singleton_self b)
    · rw [List.mem_singleton.mp ht]

/-- **The cleanup drains its backlog and nothing else.** An iteration deletes the dead rows of its reading, up to the
batch size. Over a run with readings from `t₁` to `t` and no other writer, the rows that are live at `t` stay as they
are, and if the batches have room for the rows that are dead at `t`, no row is left that was dead at `t₁`. -/
theorem cleanup_drains (batch : Nat) :
    (∀ (s s' : Store) (now : Int) (picked : List Nat) (o : Option Nat),
      (cleanupLoop batch).step s (.iterate now picked) = some (o, s') →
      o = some (min batch (s.deadCount now)) ∧ s'.rows.length + min batch (s.deadCount now) = s.rows.length ∧
        (∀ r ∈ s'.rows, r ∈ s.rows) ∧ ∀ r ∈ s.rows, r ∈ s'.rows ∨ dead now r = true) ∧
    (∀ (s s' : Store) (moves : List CleanupMove) (os : List (Option Nat)) (t₁ t : Int),
      (cleanupLoop batch).run s moves = some (os, s') → (cleanupReadings moves).Pairwise (· ≤ ·) →
      (cleanupReadings moves).head? = some t₁ → (cleanupReadings moves).getLast? = some t →
      (∀ r ∈ s.rows, r.expireAt = 0 ∨ t < r.expireAt → r ∈ s'.rows) ∧
        (s.deadCount t ≤ (cleanupReadings moves).length * batch →
          ∀ r ∈ s'.rows, ¬(r.expireAt ≠ 0 ∧ r.expireAt ≤ t₁))) := by
  constructor
  · intro s s' now picked o h
    rcases cleanupLoop_step h with ⟨he, -⟩ | ⟨now, picked, he, hb, rfl, rfl⟩
    · cases he
    · cases he
      have hlen : picked.length = min batch (s.deadCount now) := by rw [hb.2, length_selectDead]
      rw [← hlen]
      refine ⟨rfl, length_deleteCtids hb, fun r hr => (Store.mem_deleteCtids.mp hr).1, fun r hr => ?_⟩
      by_cases hc : r.ctid ∈ picked
      · exact Or.inr (hb.1.dead hr hc)
      · exact Or.inl (Store.mem_deleteCtids.mpr ⟨hr, hc⟩)
  · intro s s' moves os t₁ t hrun hsorted hhead hlast
    have hbounds := le_of_sorted hsorted hhead hlast
    refine ⟨fun r hr hlive => (rows_run hrun).2 r hr fun now hn => ?_, fun hroom r hr hdead => ?_⟩
    · have hle := (hbounds now hn).2
      simp only [dead, decide_eq_false_iff_not]
      omega
    · rcases drained_run hrun hbounds with hnone | hcount
      · have hlive := hnone r hr
        simp only [dead, decide_eq_false_iff_not] at hlive
        exact hlive hdead
      · have hempty : s'.deadCount t = 0 := by omega
        have hle := (hbounds t₁ (List.mem_of_head? hhead)).2
        have hmem : r ∈ s'.rows.filter (dead t) := List.mem_filter.mpr ⟨hr, dead_mono hle (decide_eq_true hdead)⟩
        rw [List.eq_nil_of_length_eq_zero hempty] at hmem
        exact absurd hmem List.not_mem_nil

/-- Four rows, of which one stays. -/
def backlog : Store :=
  (((Store.empty.write ⟨"a", by decide⟩ "1" 3).write ⟨"b", by decide⟩ "2" (-1)).write ⟨"c", by decide⟩ "3" 7).write
    ⟨"d", by decide⟩ "4" 0

/-- Three rows die, and batches of two take them in two iterations. -/
theorem cleanup_drains_example :
    (cleanupLoop 2).step backlog (.iterate 5 [0, 1]) =
      some (some (min 2 (backlog.deadCount 5)), (cleanupOnce backlog [0, 1]).2) ∧
      ∃ os s, (cleanupLoop 2).run backlog [.iterate 5 [0, 1], .fail, .iterate 8 [2]] = some (os, s) ∧
        (∀ r ∈ backlog.rows, r.expireAt = 0 ∨ 8 < r.expireAt → r ∈ s.rows) ∧
          ∀ r ∈ s.rows, ¬(r.expireAt ≠ 0 ∧ r.expireAt ≤ 5) := by
  obtain ⟨hstep, hdrain⟩ := cleanup_drains 2
  have h₁ : (cleanupLoop 2).step backlog (.iterate 5 [0, 1]) = some (some 2, (cleanupOnce backlog [0, 1]).2) := rfl
  refine ⟨?_, _, _, rfl, ?_⟩
  · rw [← (hstep _ _ _ _ _ h₁).1]
    exact h₁
  · obtain ⟨hkeep, hnone⟩ := hdrain backlog _ [.iterate 5 [0, 1], .fail, .iterate 8 [2]] _ 5 8 rfl (by decide) rfl rfl
    exact ⟨hkeep, hnone (by decide)⟩

end TheGrind.KvStore
