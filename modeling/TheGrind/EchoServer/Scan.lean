import TheGrind.EchoServer.Release

/-!
# What the polls cost

Every call of `select()` looks at all sockets, the selector only at those that are ready. Both servers count their
calls; `run_select_server` adds up the sockets looked at, `run_selectors_server` keeps the number registered.

* `scanned` : the sockets that each poll that returns looks at, read off the clients connected;
* `reported` : those that are ready;
* `scan_cost` : what the counters of the servers are, after every run.
-/

namespace TheGrind.EchoServer
open TheGrind.Data TheGrind.Transition TheGrind.Transition.EventLoop

section Scan
variable {ς α : Type} [DecidableEq ς] {server : ς} {script : List (Input ς (Yield ς α) Exn)}

/-- The sockets that each poll that returns looks at, from a network on: the listening one and those of the clients
connected. -/
def scannedFrom : Network ς → List (Input ς (Yield ς α) Exn) → List Nat
  | _, [] => []
  | n, .poll ready :: l => (n.connected.card + 1) :: scannedFrom (n.next (.poll ready : Input ς (Yield ς α) Exn)) l
  | n, .fails e :: l => scannedFrom (n.next (.fails e : Input ς (Yield ς α) Exn)) l
  | n, .event y :: l => scannedFrom (n.next (.event y)) l

def scanned (script : List (Input ς (Yield ς α) Exn)) : List Nat := scannedFrom ⟨[], ∅⟩ script

/-- The sockets that each poll reports. -/
def reported (script : List (Input ς (Yield ς α) Exn)) : List Nat :=
  script.filterMap fun
    | .poll ready => some ready.length
    | .fails _ | .event _ => none

theorem scannedFrom_snoc : ∀ (l : List (Input ς (Yield ς α) Exn)) (n : Network ς) (a : Input ς (Yield ς α) Exn),
    scannedFrom n (l ++ [a]) = scannedFrom n l ++ scannedFrom (l.foldl Network.next n) [a] := by
  intro l
  induction l with
  | nil => exact fun _ _ => rfl
  | cons b l ih =>
    intro n a
    cases b with
    | poll ready =>
      show _ :: scannedFrom _ (l ++ [a]) = _
      rw [ih]
      rfl
    | fails e => exact ih _ a
    | event y => exact ih _ a

theorem scanned_poll (l : List (Input ς (Yield ς α) Exn)) (ready : List ς) :
    scanned (l ++ [.poll ready]) = scanned l ++ [(network l).connected.card + 1] := scannedFrom_snoc l _ _

theorem scanned_fails (l : List (Input ς (Yield ς α) Exn)) (e : Exn) : scanned (l ++ [.fails e]) = scanned l := by
  rw [scanned, scannedFrom_snoc]
  exact List.append_nil _

theorem scanned_event (l : List (Input ς (Yield ς α) Exn)) (y : Yield ς α) :
    scanned (l ++ [.event y]) = scanned l := by
  rw [scanned, scannedFrom_snoc]
  exact List.append_nil _

omit [DecidableEq ς] in
theorem reported_poll (l : List (Input ς (Yield ς α) Exn)) (ready : List ς) :
    reported (l ++ [.poll ready]) = reported l ++ [ready.length] := List.filterMap_append

omit [DecidableEq ς] in
theorem reported_fails (l : List (Input ς (Yield ς α) Exn)) (e : Exn) : reported (l ++ [.fails e]) = reported l := by
  rw [reported, List.filterMap_append]
  exact List.append_nil _

omit [DecidableEq ς] in
theorem reported_event (l : List (Input ς (Yield ς α) Exn)) (y : Yield ς α) :
    reported (l ++ [.event y]) = reported l := by
  rw [reported, List.filterMap_append]
  exact List.append_nil _

/-- The echo server, and what it has counted. -/
def Counting (server : ς) (l : List (Input ς (Yield ς α) Exn)) (w : State (Echo ς) ς Exn) : Prop :=
  (echoServer α server).Holds (Echo.Inv server) (fun p sock => sock ∈ p.locals) w ∧ Counted server l w

theorem counting_init : Counting server ([] : List (Input ς (Yield ς α) Exn)) (.start (Echo.init server)) :=
  ⟨echoServer_init, fun _ => ⟨rfl, Tally.init⟩⟩

theorem counting_step {l : List (Input ς (Yield ς α) Exn)} {s t : State (Echo ς) ς Exn} {a : Input ς (Yield ς α) Exn}
    {o : List (Action ς)} (h : Counting server l s) (hstep : (echoServer α server).machine.step s a = some (o, t)) :
    Counting server (l ++ [a]) t :=
  ⟨echoServer_sound.step h.1 hstep, counted_step h.1 h.2 hstep⟩

/-- While no exception has escaped, the listening socket and the clients connected are watched. -/
theorem Counting.card {l : List (Input ς (Yield ς α) Exn)} {w : State (Echo ς) ς Exn} (h : Counting server l w)
    (he : w.escaped = none) : w.locals.locals.card = (network l).connected.card + 1 := by
  have htally := (h.2 he).2
  rw [htally.watched, Finset.card_insert_of_notMem htally.listening]

/-- No poll reports more than it looks at. -/
theorem runEchoServer_reported {os : List (List (Action ς))} {w : State (Echo ς) ς Exn}
    (hr : runEchoServer server script = some (os, w)) : List.Forall₂ (· ≤ ·) (reported script) (scanned script) := by
  refine (Machine.run_inputs (l := []) (P := fun l w => Counting server l w ∧
    List.Forall₂ (· ≤ ·) (reported l) (scanned l)) ?_ ⟨counting_init, List.Forall₂.nil⟩ hr).2
  intro l s a o t hP hstep
  refine ⟨counting_step hP.1 hstep, ?_⟩
  cases a with
  | poll ready =>
    obtain ⟨⟨he, -, hn, hw⟩, -, -⟩ := step_poll_iff.mp hstep
    have hle : ready.length ≤ s.locals.locals.card := by
      rw [← List.toFinset_card_of_nodup hn]
      exact Finset.card_le_card fun x hx => of_decide_eq_true (hw x (List.mem_toFinset.mp hx))
    rw [hP.1.card he] at hle
    rw [reported_poll, scanned_poll]
    exact List.rel_append hP.2 (List.Forall₂.cons hle List.Forall₂.nil)
  | fails e =>
    rw [reported_fails, scanned_fails]
    exact hP.2
  | event y =>
    rw [reported_event, scanned_event]
    exact hP.2

section Meter
variable {τ κ : Type} {L : EventLoop (Process ς τ) ς κ (Yield ς α) Exn (Action ς)} {watched : τ → Finset ς}
  {key : κ → ς} {I : Process ς τ → Prop} {J : Process ς τ → κ → Prop}

/-- What a server that refines the echo server keeps at every step, given what the echo server has counted. -/
theorem run_counting (h : Refines L (echoServer α server) (Process.map watched) key I J) {p : Process ς τ}
    (hp : L.Holds I J (.start p)) (hinit : p.map watched = Echo.init server)
    {Q : List (Input ς (Yield ς α) Exn) → State (Process ς τ) κ Exn → Prop}
    (hstep : ∀ {l s a o t}, L.Holds I J s → Counting server l (s.abs (Process.map watched) key) →
      L.machine.step s a = some (o, t) → Q l s → Q (l ++ [a]) t)
    (hQ : Q [] (.start p)) {os : List (List (Action ς))} {t : State (Process ς τ) κ Exn}
    (hr : L.machine.run (.start p) script = some (os, t)) :
    Counting server script (t.abs (Process.map watched) key) ∧ Q script t := by
  have hstart : Counting server ([] : List (Input ς (Yield ς α) Exn))
      ((State.start p : State (Process ς τ) κ Exn).abs (Process.map watched) key) := by
    have habs : (State.start p : State (Process ς τ) κ Exn).abs (Process.map watched) key =
        .start (Echo.init server) := by
      rw [← hinit]
      rfl
    rw [habs]
    exact counting_init
  refine (Machine.run_inputs (l := []) (P := fun l s => L.Holds I J s ∧
    Counting server l (s.abs (Process.map watched) key) ∧ Q l s) ?_ ⟨hp, hstart, hQ⟩ hr).2
  intro l s a o t hP hs
  have hecho : (echoServer α server).machine.step (s.abs (Process.map watched) key) a =
      some (o, t.abs (Process.map watched) key) := by
    rw [h.step hP.1 a, hs]
    rfl
  exact ⟨h.sound.step hP.1 hs, counting_step hP.2.1 hecho, hstep hP.1 hP.2.1 hs hP.2.2⟩

end Meter

/-! ## The counters of the servers -/

/-- Handling an event leaves the counters of the polls alone. -/
theorem SelectServer.counters_react (sock : ς) (y : Yield ς α) (p : Process ς (SelectServer ς)) :
    (finalState ((react SelectServer.add SelectServer.drop sock y).run p)).locals.totalSelectCalls =
        p.locals.totalSelectCalls ∧
      (finalState ((react SelectServer.add SelectServer.drop sock y).run p)).locals.totalSocketsChecked =
        p.locals.totalSocketsChecked :=
  react_finalState (P := fun q : Process ς (SelectServer ς) => q.locals.totalSelectCalls = p.locals.totalSelectCalls ∧
    q.locals.totalSocketsChecked = p.locals.totalSocketsChecked) (fun _ _ _ => ⟨rfl, rfl⟩) (fun _ _ => ⟨rfl, rfl⟩)
    fun _ _ _ => ⟨rfl, rfl⟩

theorem SelectorsServer.counters_react (sock : ς) (y : Yield ς α) (p : Process ς (SelectorsServer ς α)) :
    (finalState ((react SelectorsServer.add SelectorsServer.drop sock y).run p)).locals.totalSelectCalls =
      p.locals.totalSelectCalls :=
  react_finalState
    (P := fun q : Process ς (SelectorsServer ς α) => q.locals.totalSelectCalls = p.locals.totalSelectCalls)
    (fun _ _ _ => rfl) (fun _ _ => rfl) fun _ _ _ => rfl

theorem runSelectServer_counters {os : List (List (Action ς))} {t : State (Process ς (SelectServer ς)) ς Exn}
    (hr : runSelectServer server script = some (os, t)) :
    t.locals.locals.totalSelectCalls = (scanned script).length ∧
      t.locals.locals.totalSocketsChecked = (scanned script).sum := by
  refine (run_counting selectServer_refines selectServer_init rfl (Q := fun l s =>
    s.locals.locals.totalSelectCalls = (scanned l).length ∧ s.locals.locals.totalSocketsChecked = (scanned l).sum)
    ?_ ⟨rfl, rfl⟩ hr).2
  intro l s a o t hs hc hstep hQ
  cases a with
  | poll ready =>
    obtain ⟨⟨he, -, -, -⟩, -, rfl⟩ := step_poll_iff.mp hstep
    have hcard := hc.card he
    have hlen : s.locals.locals.allSockets.length = (network l).connected.card + 1 :=
      (List.toFinset_card_of_nodup hs.inv).symm.trans hcard
    rw [scanned_poll, List.length_append, List.sum_append]
    refine ⟨congrArg (· + 1) hQ.1, ?_⟩
    show s.locals.locals.totalSocketsChecked + s.locals.locals.allSockets.length = _
    rw [hQ.2, hlen]
    rfl
  | fails e =>
    obtain ⟨-, -, rfl⟩ := step_fails_iff.mp hstep
    rw [scanned_fails]
    exact hQ
  | event y =>
    obtain ⟨sock, socks, ⟨-, hb, ha⟩, -, rfl⟩ := step_event_iff.mp hstep
    rw [scanned_event]
    have hhandle : ((selectServer α server).handle sock y).run s.locals = _ :=
      SelectServer.handle_eq (hs.pending sock (hb ▸ List.mem_cons_self)) ha
    rw [hhandle]
    obtain ⟨hcalls, hchecked⟩ := SelectServer.counters_react sock y s.locals
    exact ⟨hcalls.trans hQ.1, hchecked.trans hQ.2⟩

theorem runSelectorsServer_counters {os : List (List (Action ς))}
    {t : State (Process ς (SelectorsServer ς α)) (SelectorKey ς α) Exn}
    (hr : runSelectorsServer server script = some (os, t)) :
    t.locals.locals.totalSelectCalls = (scanned script).length ∧
      (t.escaped = none → t.locals.locals.registeredCount = (network script).connected.card + 1) := by
  have hinv := (selectorsServer_refines.sound.run selectorsServer_init hr).inv
  have h := run_counting selectorsServer_refines selectorsServer_init rfl (Q := fun l s =>
    s.locals.locals.totalSelectCalls = (scanned l).length) (fun {l s a o t} hs hc hstep hQ => by
      cases a with
      | poll ready =>
        obtain ⟨-, -, rfl⟩ := step_poll_iff.mp hstep
        rw [scanned_poll, List.length_append]
        exact congrArg (· + 1) hQ
      | fails e =>
        obtain ⟨-, -, rfl⟩ := step_fails_iff.mp hstep
        rw [scanned_fails]
        exact hQ
      | event y =>
        obtain ⟨k, ks, ⟨-, hb, ha⟩, -, rfl⟩ := step_event_iff.mp hstep
        rw [scanned_event]
        have hhandle : ((selectorsServer server).handle k y).run s.locals = _ :=
          SelectorsServer.handle_eq hs.inv (hs.pending k (hb ▸ List.mem_cons_self)) ha
        rw [hhandle]
        exact (SelectorsServer.counters_react k.fileobj y s.locals).trans hQ) rfl hr
  refine ⟨h.2, fun he => ?_⟩
  have hcard : t.locals.locals.sel.keys.toFinset.card = (network script).connected.card + 1 := h.1.card he
  have hlen : t.locals.locals.sel.keys.length = (network script).connected.card + 1 :=
    (List.toFinset_card_of_nodup t.locals.locals.sel.nodup).symm.trans hcard
  rw [hinv.count, hlen]
  rfl

/-- **What the polls cost.** After every run, `run_select_server` has counted its calls of `select()` that returned and,
for each, all sockets: the listening one and those of the clients connected. `run_selectors_server` has counted its
calls, and while no exception has escaped it has registered exactly these sockets. No call reports more sockets than are
connected. -/
theorem scan_cost (server : ς) (script : List (Input ς (Yield ς α) Exn)) :
    (∀ os s, runSelectServer server script = some (os, s) →
      s.locals.locals.totalSelectCalls = (scanned script).length ∧
      s.locals.locals.totalSocketsChecked = (scanned script).sum ∧
      List.Forall₂ (· ≤ ·) (reported script) (scanned script)) ∧
    ∀ os s, runSelectorsServer server script = some (os, s) →
      s.locals.locals.totalSelectCalls = (scanned script).length ∧
      (s.escaped = none → s.locals.locals.registeredCount = (network script).connected.card + 1) ∧
      List.Forall₂ (· ≤ ·) (reported script) (scanned script) := by
  constructor
  · intro os s hr
    have hecho : runEchoServer server script = _ := runSelectServer_refines.trans (congrArg _ hr)
    obtain ⟨hcalls, hchecked⟩ := runSelectServer_counters hr
    exact ⟨hcalls, hchecked, runEchoServer_reported hecho⟩
  · intro os s hr
    have hecho : runEchoServer server script = _ := runSelectorsServer_refines.trans (congrArg _ hr)
    obtain ⟨hcalls, hregistered⟩ := runSelectorsServer_counters hr
    exact ⟨hcalls, hregistered, runEchoServer_reported hecho⟩

/-- Two clients connect and the first one hangs up: the four polls look at one, two, three and two sockets. -/
theorem scan_cost_example :
    let script : List (Input Nat (Yield Nat Nat) Exn) :=
      [.poll [0], .event (.accepts 1 70), .poll [0], .event (.accepts 2 71), .poll [1],
        .event (.receives ByteArray.empty .completes), .poll []]
    ∃ os s os' s', runSelectServer 0 script = some (os, s) ∧ runSelectorsServer 0 script = some (os', s') ∧
      s.locals.locals.totalSocketsChecked = 8 ∧ s'.locals.locals.totalSelectCalls = 4 := by
  intro script
  have hselect : (runSelectServer 0 script).isSome := by decide +kernel
  have hselectors : (runSelectorsServer 0 script).isSome := by decide +kernel
  obtain ⟨⟨os, s⟩, hs⟩ := Option.isSome_iff_exists.mp hselect
  obtain ⟨⟨os', s'⟩, hs'⟩ := Option.isSome_iff_exists.mp hselectors
  have hcost := scan_cost 0 script
  have hscanned : scanned script = [1, 2, 3, 2] := by decide +kernel
  rw [hscanned] at hcost
  exact ⟨os, s, os', s', hs, hs', (hcost.1 os s hs).2.1, (hcost.2 os' s' hs').1⟩

end Scan

end TheGrind.EchoServer
