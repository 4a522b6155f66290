import TheGrind.Transition.Machine

/-!
# Event loops

An event loop asks which of the sources it watches are ready and then handles the ready ones of that batch, one after
another. Its inputs are what the environment decides: which sources are ready, in which order, whether the poll raises,
and what handling the next one yields. An exception that a poll raises or a handler lets through ends the loop.

* `EventLoop.machine` : the loop as a machine; a step's output is what the handler added to the log;
* `Sound.run` : the invariant rule, with a condition on every pending item of the batch;
* `Refines.run` : two loops, one handler at a time related by an abstraction function, take the same runs;
  `Refines.sound_of` : what holds of the more abstract one holds of the other;
* `log_run` : the log of a run, item by item;
* `State.exit` : the function around the loop, when its duration is over.
-/

namespace TheGrind.Transition

section Result
variable {ε σ σ' α : Type} {f : σ → σ'} {r : EStateM.Result ε σ α}

theorem run_throw (e : ε) (s : σ) : (throw e : EStateM ε σ α).run s = .error e s := rfl

theorem run_tryCatch (x : EStateM ε σ α) (h : ε → EStateM ε σ α) (s : σ) :
    (tryCatch x h).run s = match x.run s with | .ok a t => .ok a t | .error e t => (h e).run t := by
  show EStateM.tryCatch x h s = match x s with | .ok a t => .ok a t | .error e t => h e t
  unfold EStateM.tryCatch
  cases x s <;> rfl

/-- The state a computation ends in, raised or not. -/
def finalState : EStateM.Result ε σ α → σ
  | .ok _ s => s
  | .error _ s => s

/-- The exception a computation lets through. -/
def raised : EStateM.Result ε σ α → Option ε
  | .ok _ _ => none
  | .error e _ => some e

/-- The same result in the state that `f` makes of it. -/
def mapState (f : σ → σ') : EStateM.Result ε σ α → EStateM.Result ε σ' α
  | .ok a s => .ok a (f s)
  | .error e s => .error e (f s)

@[simp] theorem finalState_mapState : finalState (mapState f r) = f (finalState r) := by cases r <;> rfl

@[simp] theorem raised_mapState : raised (mapState f r) = raised r := by cases r <;> rfl

end Result

/-- A loop over states `σ` that watches sources `ς`. Polling makes the ready sources into items `κ`; handling an item
takes what the item yields, `υ`. -/
structure EventLoop (σ ς κ υ ε ω : Type) where
  watches : σ → ς → Bool
  poll : List ς → σ → List κ × σ
  source : κ → ς
  admits : σ → κ → υ → Bool
  handle : κ → υ → EStateM ε σ Unit
  log : σ → List ω

namespace EventLoop

/-- What the environment decides: the sources that are ready, or what the poll raises, and what the next item yields. -/
inductive Input (ς υ ε : Type)
  | poll (ready : List ς)
  | fails (e : ε)
  | event (y : υ)
  deriving DecidableEq

/-- A poll that returns, or an item that yields what `p` allows. -/
def Input.within {ς υ ε : Type} (p : υ → Bool) : Input ς υ ε → Bool
  | .poll _ => true
  | .fails _ => false
  | .event y => p y

theorem Input.within_mono {ς υ ε : Type} {p q : υ → Bool} (h : ∀ y, p y → q y) {a : Input ς υ ε} (ha : a.within p) :
    a.within q := by
  cases a with
  | poll _ => rfl
  | fails _ => exact absurd ha Bool.false_ne_true
  | event y => exact h y ha

/-- The loop's locals, the items it has still to handle, and the exception that ended it. -/
structure State (σ κ ε : Type) where
  locals : σ
  batch : List κ
  escaped : Option ε

/-- The start of the loop. -/
def State.start {σ κ ε : Type} (s : σ) : State σ κ ε := ⟨s, [], none⟩

section Machine
variable {σ ς κ υ ε ω : Type} [DecidableEq ς] (L : EventLoop σ ς κ υ ε ω)

def step (s : State σ κ ε) : Input ς υ ε → Option (List ω × State σ κ ε)
  | .poll ready =>
    if s.escaped.isNone ∧ s.batch.isEmpty ∧ ready.Nodup ∧ ∀ x ∈ ready, L.watches s.locals x then
      some ([], ⟨(L.poll ready s.locals).2, (L.poll ready s.locals).1, none⟩)
    else none
  | .fails e => if s.escaped.isNone ∧ s.batch.isEmpty then some ([], ⟨s.locals, [], some e⟩) else none
  | .event y =>
    match s.batch with
    | [] => none
    | k :: ks =>
      if s.escaped.isNone ∧ L.admits s.locals k y then
        let r := (L.handle k y).run s.locals
        some ((L.log (finalState r)).drop (L.log s.locals).length, ⟨finalState r, ks, raised r⟩)
      else none

/-- The loop as a machine. An input that the environment cannot give is not taken. -/
def machine : Machine (State σ κ ε) (Input ς υ ε) (List ω) := ⟨L.step⟩

theorem machine_step (s : State σ κ ε) (a : Input ς υ ε) : L.machine.step s a = L.step s a := rfl

variable {L}

theorem step_poll_iff {s t : State σ κ ε} {ready : List ς} {o : List ω} :
    L.machine.step s (.poll ready) = some (o, t) ↔
      (s.escaped = none ∧ s.batch = [] ∧ ready.Nodup ∧ ∀ x ∈ ready, L.watches s.locals x) ∧
        o = [] ∧ t = ⟨(L.poll ready s.locals).2, (L.poll ready s.locals).1, none⟩ := by
  rw [machine_step, step, Option.ite_none_right_eq_some, Option.isNone_iff_eq_none, List.isEmpty_iff, Option.some_inj,
    Prod.mk.injEq, eq_comm (a := []), eq_comm (b := t)]

theorem step_fails_iff {s t : State σ κ ε} {e : ε} {o : List ω} :
    L.machine.step s (.fails e : Input ς υ ε) = some (o, t) ↔
      (s.escaped = none ∧ s.batch = []) ∧ o = [] ∧ t = ⟨s.locals, [], some e⟩ := by
  rw [machine_step, step, Option.ite_none_right_eq_some, Option.isNone_iff_eq_none, List.isEmpty_iff, Option.some_inj,
    Prod.mk.injEq, eq_comm (a := []), eq_comm (b := t)]

theorem step_event_iff {s t : State σ κ ε} {y : υ} {o : List ω} :
    L.machine.step s (.event y) = some (o, t) ↔
      ∃ k ks, (s.escaped = none ∧ s.batch = k :: ks ∧ L.admits s.locals k y) ∧
        o = (L.log (finalState ((L.handle k y).run s.locals))).drop (L.log s.locals).length ∧
        t = ⟨finalState ((L.handle k y).run s.locals), ks, raised ((L.handle k y).run s.locals)⟩ := by
  rw [machine_step, step]
  cases s.batch with
  | nil => simp
  | cons k ks =>
    simp only [Option.ite_none_right_eq_some, Option.isNone_iff_eq_none, Option.some_inj, Prod.mk.injEq,
      List.cons.injEq]
    constructor
    · rintro ⟨⟨he, ha⟩, ho, ht⟩
      exact ⟨k, ks, ⟨he, ⟨rfl, rfl⟩, ha⟩, ho.symm, ht.symm⟩
    · rintro ⟨k', ks', ⟨he, ⟨rfl, rfl⟩, ha⟩, ho, ht⟩
      exact ⟨⟨he, ha⟩, ho.symm, ht.symm⟩

end Machine

section Sound
variable {σ ς κ υ ε ω : Type} [DecidableEq ς] {L : EventLoop σ ς κ υ ε ω}

/-- `I` is kept by the loop and `J` by every item that waits while another one is handled. -/
structure Sound (L : EventLoop σ ς κ υ ε ω) (I : σ → Prop) (J : σ → κ → Prop) : Prop where
  poll : ∀ {s ready}, I s → (∀ x ∈ ready, L.watches s x) →
    I (L.poll ready s).2 ∧ (L.poll ready s).1.map L.source = ready ∧ ∀ k ∈ (L.poll ready s).1, J (L.poll ready s).2 k
  handle : ∀ {s k y}, I s → J s k → L.admits s k y →
    I (finalState ((L.handle k y).run s)) ∧
      ∀ k', L.source k' ≠ L.source k → J s k' → J (finalState ((L.handle k y).run s)) k'

/-- `I` holds, and `J` of the pending items, whose sources are distinct. -/
structure Holds (L : EventLoop σ ς κ υ ε ω) (I : σ → Prop) (J : σ → κ → Prop) (s : State σ κ ε) : Prop where
  inv : I s.locals
  pending : ∀ k ∈ s.batch, J s.locals k
  nodup : (s.batch.map L.source).Nodup

variable {I : σ → Prop} {J : σ → κ → Prop}

omit [DecidableEq ς] in
theorem Holds.start {s : σ} (h : I s) : L.Holds I J (State.start (ε := ε) s) :=
  ⟨h, fun _ hk => absurd hk List.not_mem_nil, List.nodup_nil⟩

theorem Sound.step (hL : L.Sound I J) {s t : State σ κ ε} {a : Input ς υ ε} {o : List ω} (h : L.Holds I J s)
    (hs : L.machine.step s a = some (o, t)) : L.Holds I J t := by
  cases a with
  | poll ready =>
    obtain ⟨⟨-, -, hn, hw⟩, -, rfl⟩ := step_poll_iff.mp hs
    obtain ⟨hI, hsource, hJ⟩ := hL.poll h.inv hw
    exact ⟨hI, hJ, by rw [hsource]; exact hn⟩
  | fails e =>
    obtain ⟨-, -, rfl⟩ := step_fails_iff.mp hs
    exact ⟨h.inv, fun _ hk => absurd hk List.not_mem_nil, List.nodup_nil⟩
  | event y =>
    obtain ⟨k, ks, ⟨-, hb, ha⟩, -, rfl⟩ := step_event_iff.mp hs
    have hpending := h.pending
    have hnodup := h.nodup
    rw [hb] at hpending hnodup
    obtain ⟨hk, hks⟩ := List.nodup_cons.mp hnodup
    obtain ⟨hI, hJ⟩ := hL.handle h.inv (hpending k List.mem_cons_self) ha
    refine ⟨hI, fun k' hk' => hJ k' ?_ (hpending k' (List.mem_cons_of_mem _ hk')), hks⟩
    intro he
    exact hk (he ▸ List.mem_map_of_mem hk')

/-- **The invariant rule** of event loops. -/
theorem Sound.run (hL : L.Sound I J) {s t : State σ κ ε} {as : List (Input ς υ ε)} {os : List (List ω)}
    (h : L.Holds I J s) (hr : L.machine.run s as = some (os, t)) : L.Holds I J t :=
  Machine.run_invariant hL.step h hr

end Sound

section Refines
variable {σ σ' ς κ κ' υ ε ω : Type} [DecidableEq ς] {L : EventLoop σ ς κ υ ε ω} {L' : EventLoop σ' ς κ' υ ε ω}

/-- The state of the more abstract loop. -/
def State.abs (f : σ → σ') (key : κ → κ') (s : State σ κ ε) : State σ' κ' ε :=
  ⟨f s.locals, s.batch.map key, s.escaped⟩

/-- `L` refines `L'` along `f` on states and `key` on items, wherever the invariant of `L` holds. -/
structure Refines (L : EventLoop σ ς κ υ ε ω) (L' : EventLoop σ' ς κ' υ ε ω) (f : σ → σ') (key : κ → κ')
    (I : σ → Prop) (J : σ → κ → Prop) : Prop where
  sound : L.Sound I J
  log : ∀ s, L'.log (f s) = L.log s
  watches : ∀ s x, L'.watches (f s) x = L.watches s x
  admits : ∀ {s k}, I s → J s k → ∀ y, L'.admits (f s) (key k) y = L.admits s k y
  poll : ∀ {s ready}, I s → (∀ x ∈ ready, L.watches s x) →
    L'.poll ready (f s) = ((L.poll ready s).1.map key, f (L.poll ready s).2)
  handle : ∀ {s k y}, I s → J s k → L.admits s k y → (L'.handle (key k) y).run (f s) = mapState f ((L.handle k y).run s)

variable {f : σ → σ'} {key : κ → κ'} {I : σ → Prop} {J : σ → κ → Prop}

theorem Refines.step (h : Refines L L' f key I J) {s : State σ κ ε} (hs : L.Holds I J s) (a : Input ς υ ε) :
    L'.machine.step (s.abs f key) a = (L.machine.step s a).map (Prod.map id (State.abs f key)) := by
  have hpending := hs.pending
  obtain ⟨locals, batch, escaped⟩ := s
  cases a with
  | poll ready =>
    simp only [machine_step, EventLoop.step, State.abs, h.watches, List.isEmpty_map]
    split
    · rename_i hif
      rw [h.poll hs.inv hif.2.2.2]
      rfl
    · rfl
  | fails e =>
    simp only [machine_step, EventLoop.step, State.abs, List.isEmpty_map]
    split <;> rfl
  | event y =>
    rw [machine_step, machine_step]
    cases batch with
    | nil => rfl
    | cons k ks =>
      have hk : J locals k := hpending k List.mem_cons_self
      simp only [EventLoop.step, State.abs, List.map_cons, h.admits hs.inv hk]
      split
      · rename_i hif
        have hhandle : (L'.handle (key k) y).run (f locals) = mapState f ((L.handle k y).run locals) :=
          h.handle hs.inv hk hif.2
        rw [hhandle, finalState_mapState, raised_mapState, h.log, h.log]
        rfl
      · rfl

/-- **Refinement of runs**: both loops take the same inputs, with the same outputs, to corresponding states. -/
theorem Refines.run (h : Refines L L' f key I J) {as : List (Input ς υ ε)} : ∀ {s : State σ κ ε}, L.Holds I J s →
    L'.machine.run (s.abs f key) as = (L.machine.run s as).map (Prod.map id (State.abs f key)) :=
  Machine.run_map h.sound.step h.step

omit [DecidableEq ς] in
/-- What holds of the more abstract loop holds of the other one. -/
theorem Refines.sound_of (h : Refines L L' f key I J) (hkey : ∀ k, L'.source (key k) = L.source k) {I' : σ' → Prop}
    {J' : σ' → κ' → Prop} (h' : L'.Sound I' J') :
    L.Sound (fun s => I s ∧ I' (f s)) fun s k => J s k ∧ J' (f s) (key k) where
  poll := by
    intro s ready hI hw
    obtain ⟨hI₁, hsource, hJ₁⟩ := h.sound.poll hI.1 hw
    obtain ⟨hI₂, -, hJ₂⟩ := h'.poll hI.2 fun x hx => (h.watches s x).trans (hw x hx)
    rw [h.poll hI.1 hw] at hI₂ hJ₂
    exact ⟨⟨hI₁, hI₂⟩, hsource, fun k hk => ⟨hJ₁ k hk, hJ₂ _ (List.mem_map_of_mem hk)⟩⟩
  handle := by
    intro s k y hI hJ ha
    obtain ⟨hI₁, hJ₁⟩ := h.sound.handle hI.1 hJ.1 ha
    obtain ⟨hI₂, hJ₂⟩ := h'.handle hI.2 hJ.2 ((h.admits hI.1 hJ.1 y).trans ha)
    rw [h.handle hI.1 hJ.1 ha, finalState_mapState] at hI₂ hJ₂
    refine ⟨⟨hI₁, hI₂⟩, fun k' hne hk' => ⟨hJ₁ k' hne hk'.1, hJ₂ _ ?_ hk'.2⟩⟩
    rwa [hkey, hkey]

end Refines

/-! ## What has been handled -/

/-- The items that a script handles, each as its source and what it yields; the sources in `ready` are pending. -/
def handledFrom {ς υ ε : Type} : List ς → List (Input ς υ ε) → List (ς × υ)
  | _, [] => []
  | _, .poll ready :: as => handledFrom ready as
  | _, .fails _ :: as => handledFrom [] as
  | [], .event _ :: as => handledFrom [] as
  | x :: ready, .event y :: as => (x, y) :: handledFrom ready as

section Log
variable {σ ς κ υ ε ω : Type} [DecidableEq ς] {L : EventLoop σ ς κ υ ε ω} {I : σ → Prop} {J : σ → κ → Prop}
  {f : ς → υ → List ω}

/-- **The log of a run** is what handling each item adds to it, if that depends on the source and its yield alone. -/
theorem log_run (hL : L.Sound I J) (hpoll : ∀ ready s, L.log (L.poll ready s).2 = L.log s)
    (hhandle : ∀ {s k y}, I s → J s k → L.admits s k y →
      L.log (finalState ((L.handle k y).run s)) = L.log s ++ f (L.source k) y) :
    ∀ {as : List (Input ς υ ε)} {s t : State σ κ ε} {os : List (List ω)}, L.Holds I J s →
      L.machine.run s as = some (os, t) →
      L.log t.locals = L.log s.locals ++ (handledFrom (s.batch.map L.source) as).flatMap fun e => f e.1 e.2 := by
  intro as
  induction as with
  | nil =>
    intro s t os _ h
    cases h
    exact (List.append_nil _).symm
  | cons a as ih =>
    intro s t os hs h
    obtain ⟨o, m, os', hstep, hrun, -⟩ := (Machine.run_cons_iff _).mp h
    rw [ih (hL.step hs hstep) hrun]
    cases a with
    | poll ready =>
      obtain ⟨⟨-, -, -, hw⟩, -, rfl⟩ := step_poll_iff.mp hstep
      obtain ⟨-, hsource, -⟩ := hL.poll hs.inv hw
      rw [hpoll, hsource, handledFrom]
    | fails e =>
      obtain ⟨⟨-, hb⟩, -, rfl⟩ := step_fails_iff.mp hstep
      rw [hb, handledFrom]
      rfl
    | event y =>
      obtain ⟨k, ks, ⟨-, hb, ha⟩, -, rfl⟩ := step_event_iff.mp hstep
      rw [hhandle hs.inv (hs.pending k (hb ▸ List.mem_cons_self)) ha, hb, List.map_cons, handledFrom,
        List.flatMap_cons, List.append_assoc]

end Log

/-! ## The end of the loop -/

/-- What the function leaves when its duration is over: the loop has handled its last batch, and `cleanup` runs. -/
def State.exit {σ κ ε : Type} (cleanup : EStateM ε σ Unit) (s : State σ κ ε) : Option σ :=
  if s.escaped.isNone ∧ s.batch.isEmpty then
    match cleanup.run s.locals with
    | .ok _ t => some t
    | .error _ _ => none
  else none

theorem exit_eq_some {σ κ ε : Type} {cleanup : EStateM ε σ Unit} {s : State σ κ ε} {t : σ}
    (h : s.exit cleanup = some t) : s.escaped = none ∧ s.batch = [] ∧ cleanup.run s.locals = .ok () t := by
  unfold State.exit at h
  split at h
  · next hif =>
    refine ⟨Option.isNone_iff_eq_none.mp hif.1, List.isEmpty_iff.mp hif.2, ?_⟩
    split at h
    · next hrun =>
      cases h
      exact hrun
    · cases h
  · cases h

end EventLoop

end TheGrind.Transition
