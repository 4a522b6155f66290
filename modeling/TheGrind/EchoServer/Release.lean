import TheGrind.EchoServer.Refinement

/-!
# Which sockets the servers close

A socket is closed when its client is gone, or at the end of the function. `run_select_server` ends by closing every
socket it still watches; `run_selectors_server` ends by closing the selector, which closes none of the sockets
registered with it, and the listening socket.

* `Network` : which sockets are ready and which clients are connected, read off the script alone;
* `Tally` : the echo server has closed each socket once, but for those of the clients connected, and the listening one;
* `sockets_released_iff` : `run_select_server` always closes each socket once, `run_selectors_server` exactly when no
  client is connected at its end.
-/

namespace TheGrind.EchoServer
open TheGrind.Data TheGrind.Transition TheGrind.Transition.EventLoop

/-! ## The end of the functions -/

namespace SelectServer
variable {ς : Type}

/-- `for sock in all_sockets: sock.close()` -/
def cleanup : Py ς (SelectServer ς) Unit := do
  let p ← get
  p.locals.allSockets.forM close

theorem forM_close : ∀ (socks : List ς) (p : Process ς (SelectServer ς)),
    (socks.forM close).run p = .ok () { p with transcript := p.transcript ++ socks.map .closed } := by
  intro socks
  induction socks with
  | nil =>
    intro p
    simp
  | cons sock socks ih =>
    intro p
    show (socks.forM close).run { p with transcript := p.transcript ++ [.closed sock] } = _
    rw [ih, List.append_assoc]
    rfl

end SelectServer

/-- `run_select_server`, to its return at the end of its duration. -/
def finishSelectServer {ς α : Type} [DecidableEq ς] (server : ς) (script : List (Input ς (Yield ς α) Exn)) :
    Option (Process ς (SelectServer ς)) :=
  (runSelectServer server script).bind fun r => r.2.exit SelectServer.cleanup

/-- `sel.close()` and `server.close()` -/
def SelectorsServer.cleanup {ς α : Type} (server : ς) : Py ς (SelectorsServer ς α) Unit := do
  modify fun p => { p with locals.sel := Dict.empty }
  close server

/-- `run_selectors_server`, to its return at the end of its duration. -/
def finishSelectorsServer {ς α : Type} [DecidableEq ς] (server : ς) (script : List (Input ς (Yield ς α) Exn)) :
    Option (Process ς (SelectorsServer ς α)) :=
  (runSelectorsServer server script).bind fun r => r.2.exit (SelectorsServer.cleanup server)

/-! ## The clients connected -/

section Network
variable {ς α : Type}

/-- The client is gone: there is nothing more to read, or one of the two errors says so. -/
def Yield.gone : Yield ς α → Bool
  | .accepts _ _ | .refuses _ => false
  | .receives data .completes => data.size = 0
  | .receives data (.raises _ e) => data.size = 0 || e.isDisconnect
  | .raises e => e.isDisconnect

/-- A client whose event is harmless leaves exactly when it is gone. -/
theorem outcome_fate {sock : ς} {y : Yield ς α} (hy : y.harmless) (hclient : y.ofClient) :
    (y.outcome sock).2 = if y.gone then .leaves else .stays := by
  cases y with
  | accepts client addr => exact absurd hclient Bool.false_ne_true
  | refuses e => exact absurd hclient Bool.false_ne_true
  | raises e =>
    have he : e.isDisconnect = true := hy
    simp [Yield.outcome, Fate.ofExn, Yield.gone, he]
  | receives data send =>
    by_cases hempty : data.size = 0
    · cases send <;> simp [Yield.outcome, Yield.gone, hempty]
    · have hdecodes : (String.fromUTF8? data).isSome ∧ send.caught := by
        simpa [Yield.harmless, hempty] using hy
      obtain ⟨text, htext⟩ := Option.isSome_iff_exists.mp hdecodes.1
      have hempty' : data ≠ ByteArray.empty := fun he => hempty (he ▸ rfl)
      cases send with
      | completes => simp [Yield.outcome, Yield.gone, hempty', htext]
      | raises n e =>
        have he : e.isDisconnect = true := hdecodes.2
        simp [Yield.outcome, Yield.gone, Fate.ofExn, hempty', htext, he]

/-- The clients that a script accepts. -/
def accepted (script : List (Input ς (Yield ς α) Exn)) : List ς :=
  script.filterMap fun
    | .event (.accepts client _) => some client
    | _ => none

theorem accepted_append (l : List (Input ς (Yield ς α) Exn)) (a : Input ς (Yield ς α) Exn) :
    accepted (l ++ [a]) = accepted l ++ accepted [a] := List.filterMap_append

theorem accepted_client {y : Yield ς α} (hclient : y.ofClient) : accepted [Input.event y] = [] := by
  cases y with
  | accepts client addr => exact absurd hclient Bool.false_ne_true
  | refuses e => exact absurd hclient Bool.false_ne_true
  | receives data send => rfl
  | raises e => rfl

/-- The sockets that are ready and not yet handled, and the clients connected. -/
structure Network (ς : Type) where
  ready : List ς
  connected : Finset ς

variable [DecidableEq ς]

def Network.next (n : Network ς) : Input ς (Yield ς α) Exn → Network ς
  | .poll ready => { n with ready }
  | .fails _ => n
  | .event y => match n.ready, y with
    | [], _ => n
    | _ :: ready, .accepts client _ => ⟨ready, insert client n.connected⟩
    | sock :: ready, y => ⟨ready, if y.gone then n.connected.erase sock else n.connected⟩

/-- The network after a script: a client is connected from its `accept` until it is gone. -/
def network (script : List (Input ς (Yield ς α) Exn)) : Network ς := script.foldl Network.next ⟨[], ∅⟩

theorem network_append (l : List (Input ς (Yield ς α) Exn)) (a : Input ς (Yield ς α) Exn) :
    network (l ++ [a]) = (network l).next a := List.foldl_append

theorem next_accept {n : Network ς} {sock client : ς} {ready : List ς} {addr : α} (hn : n.ready = sock :: ready) :
    n.next (.event (.accepts client addr)) = ⟨ready, insert client n.connected⟩ := by
  obtain ⟨r, c⟩ := n
  obtain rfl : r = sock :: ready := hn
  rfl

theorem next_client {n : Network ς} {sock : ς} {ready : List ς} {y : Yield ς α} (hn : n.ready = sock :: ready)
    (hclient : y.ofClient) :
    n.next (.event y) = ⟨ready, if y.gone then n.connected.erase sock else n.connected⟩ := by
  obtain ⟨r, c⟩ := n
  obtain rfl : r = sock :: ready := hn
  cases y with
  | accepts client addr => exact absurd hclient Bool.false_ne_true
  | refuses e => exact absurd hclient Bool.false_ne_true
  | receives data send => rfl
  | raises e => rfl

end Network

/-! ## What the echo server has closed -/

section Tally
variable {ς α : Type} [DecidableEq ς] {server : ς} {connected : Finset ς} {clients : List ς} {p : Echo ς}

/-- The clients connected are watched, with the listening socket, and all sockets there have been, the listening one and
those of the clients accepted, have been closed once, but for the ones that are watched. -/
structure Tally (server : ς) (connected : Finset ς) (clients : List ς) (p : Echo ς) : Prop where
  watched : p.locals = insert server connected
  listening : server ∉ connected
  accepted : ∀ x ∈ connected, x ∈ clients
  closed : ∀ x, x = server ∨ x ∈ clients → p.transcript.count (.closed x) = if x ∈ p.locals then 0 else 1

theorem Tally.init : Tally server ∅ [] (Echo.init server) where
  watched := rfl
  listening := Finset.notMem_empty server
  accepted := fun x hx => absurd hx (Finset.notMem_empty x)
  closed := by
    intro x hx
    rcases hx with rfl | hx
    · simp [Echo.init]
    · exact absurd hx List.not_mem_nil

theorem Tally.accept (h : Tally server connected clients p) {client : ς} (hnew : client ∉ p.locals)
    (hopen : ¬p.Closed client) :
    Tally server (insert client connected) (clients ++ [client]) ⟨insert client p.locals, p.transcript⟩ where
  watched := by
    rw [h.watched]
    exact Finset.insert_comm client server connected
  listening := by
    intro hserver
    rcases Finset.mem_insert.mp hserver with rfl | hserver
    · exact hnew (h.watched ▸ Finset.mem_insert_self server connected)
    · exact h.listening hserver
  accepted := by
    intro x hx
    rcases Finset.mem_insert.mp hx with rfl | hx
    · exact List.mem_append_right _ (List.mem_singleton_self x)
    · exact List.mem_append_left _ (h.accepted x hx)
  closed := by
    intro x hx
    show p.transcript.count (.closed x) = if x ∈ insert client p.locals then 0 else 1
    by_cases hxc : x = client
    · rw [hxc, if_pos (Finset.mem_insert_self client _)]
      exact List.count_eq_zero.mpr hopen
    · have hx' : x = server ∨ x ∈ clients := by simpa [hxc] using hx
      rw [h.closed x hx']
      simp [hxc]

/-- A client of whom something else than its end is handled. -/
theorem Tally.stay (h : Tally server connected clients p) {sent : List (Action ς)} (hsent : ∀ x, .closed x ∉ sent) :
    Tally server connected clients ⟨p.locals, p.transcript ++ sent⟩ where
  watched := h.watched
  listening := h.listening
  accepted := h.accepted
  closed := by
    intro x hx
    show List.count (Action.closed x) (p.transcript ++ sent) = _
    rw [List.count_append, List.count_eq_zero.mpr (hsent x), Nat.add_zero]
    exact h.closed x hx

theorem Tally.leave (h : Tally server connected clients p) {sock : ς} {sent : List (Action ς)}
    (hsent : ∀ x, .closed x ∉ sent) (hsock : sock ∈ p.locals) (hne : sock ≠ server) :
    Tally server (connected.erase sock) clients ⟨p.locals.erase sock, p.transcript ++ sent ++ [.closed sock]⟩ where
  watched := by
    rw [h.watched]
    exact Finset.erase_insert_of_ne hne.symm
  listening := fun hserver => h.listening (Finset.mem_of_mem_erase hserver)
  accepted := fun x hx => h.accepted x (Finset.mem_of_mem_erase hx)
  closed := by
    intro x hx
    show List.count (Action.closed x) (p.transcript ++ sent ++ [.closed sock]) =
      if x ∈ p.locals.erase sock then 0 else 1
    rw [List.count_append, List.count_append, List.count_eq_zero.mpr (hsent x), h.closed x hx]
    by_cases hxs : x = sock
    · simp [hxs, hsock]
    · have hne : ¬(Action.closed sock = .closed x) := fun he => hxs (Action.closed.inj he).symm
      simp [hxs, hne, Finset.mem_erase]

/-- A harmless event of a client. -/
theorem Tally.client (h : Tally server connected clients p) {sock : ς} {y : Yield ς α} (hy : y.harmless)
    (hclient : y.ofClient) (hsock : sock ∈ p.locals) (hserver : sock ≠ server) :
    Tally server (if y.gone then connected.erase sock else connected) clients
      (finalState ((react Echo.add Echo.drop sock y).run p)) := by
  have hsent : ∀ x, .closed x ∉ (y.outcome sock).1 := not_closed_mem_outcome
  have hfate : (y.outcome sock).2 = if y.gone then .leaves else .stays := outcome_fate hy hclient
  rw [react_of_client hclient]
  rcases hout : y.outcome sock with ⟨sent, fate⟩
  rw [hout] at hsent hfate
  obtain rfl := hfate
  by_cases hgone : y.gone
  · rw [if_pos hgone, if_pos hgone]
    exact h.leave hsent hsock hserver
  · rw [if_neg hgone, if_neg hgone]
    exact h.stay hsent

/-- What is still to be handled after a script, and the tally, unless an exception has escaped. -/
def Counted (server : ς) (script : List (Input ς (Yield ς α) Exn)) (w : State (Echo ς) ς Exn) : Prop :=
  w.escaped = none → w.batch = (network script).ready ∧
    Tally server (network script).connected (accepted script) w.locals

theorem counted_step {l : List (Input ς (Yield ς α) Exn)} {s t : State (Echo ς) ς Exn} {a : Input ς (Yield ς α) Exn}
    {o : List (Action ς)} (hs : (echoServer α server).Holds (Echo.Inv server) (fun p sock => sock ∈ p.locals) s)
    (hc : Counted server l s) (hstep : (echoServer α server).machine.step s a = some (o, t)) :
    Counted server (l ++ [a]) t := by
  intro hescaped
  rw [network_append, accepted_append]
  cases a with
  | poll ready =>
    obtain ⟨⟨he, -, -, -⟩, -, rfl⟩ := step_poll_iff.mp hstep
    exact ⟨rfl, (List.append_nil (accepted l)).symm ▸ (hc he).2⟩
  | fails e =>
    obtain ⟨-, -, rfl⟩ := step_fails_iff.mp hstep
    cases hescaped
  | event y =>
    obtain ⟨sock, socks, ⟨he, hb, ha⟩, -, rfl⟩ := step_event_iff.mp hstep
    obtain ⟨hready, htally⟩ := hc he
    rw [hb] at hready
    rcases y.accepts_or with ⟨client, addr, rfl⟩ | ⟨e, rfl⟩ | hclient
    · obtain ⟨-, hnew, hopen⟩ := admits_accepts addr ha
      rw [next_accept hready.symm]
      exact ⟨rfl, htally.accept (of_decide_eq_false hnew) hopen⟩
    · cases hescaped
    · rw [next_client hready.symm hclient, accepted_client hclient, List.append_nil]
      have hsock : sock ∈ s.locals.locals := hs.pending sock (hb ▸ List.mem_cons_self)
      exact ⟨rfl, htally.client (raised_react_iff.mp hescaped) hclient hsock (admits_client ha hclient)⟩

/-- **The tally** of a run in which no exception has escaped. -/
theorem runEchoServer_tally {script : List (Input ς (Yield ς α) Exn)} {os : List (List (Action ς))}
    {w : State (Echo ς) ς Exn} (hr : runEchoServer server script = some (os, w)) (hrunning : w.escaped = none) :
    Tally server (network script).connected (accepted script) w.locals := by
  have hcounted := Machine.run_inputs (l := [])
    (P := fun l w => (echoServer α server).Holds (Echo.Inv server) (fun p sock => sock ∈ p.locals) w ∧
      Counted server l w)
    (fun hP hstep => ⟨echoServer_sound.step hP.1 hstep, counted_step hP.1 hP.2 hstep⟩)
    ⟨echoServer_init, fun _ => ⟨rfl, Tally.init⟩⟩ hr
  exact (hcounted.2 hrunning).2

end Tally

/-! ## What the servers have closed -/

section Released
variable {ς α τ : Type} [DecidableEq ς] {server : ς}

/-- The listening socket and every client's have been closed, each once. -/
def Released (server : ς) (script : List (Input ς (Yield ς α) Exn)) (p : Process ς τ) : Prop :=
  ∀ x, x = server ∨ x ∈ accepted script → p.transcript.count (.closed x) = 1

instance (script : List (Input ς (Yield ς α) Exn)) (p : Process ς τ) : Decidable (Released server script p) :=
  decidable_of_iff (∀ x ∈ server :: accepted script, p.transcript.count (.closed x) = 1) (by
    simp only [List.mem_cons, Released])

theorem select_released {script : List (Input ς (Yield ς α) Exn)} {p : Process ς (SelectServer ς)}
    (h : finishSelectServer server script = some p) : Released server script p := by
  obtain ⟨⟨os, s⟩, hr, hexit⟩ := Option.bind_eq_some_iff.mp h
  obtain ⟨hrunning, -, hcleanup⟩ := exit_eq_some hexit
  obtain rfl : { s.locals with transcript := s.locals.transcript ++ s.locals.locals.allSockets.map .closed } = p := by
    have hclose := SelectServer.forM_close s.locals.locals.allSockets s.locals
    exact (EStateM.Result.ok.inj (hclose.symm.trans hcleanup)).2
  have hecho : runEchoServer server script = _ := runSelectServer_refines.trans (congrArg _ hr)
  have htally := runEchoServer_tally hecho hrunning
  have hnodup : s.locals.locals.allSockets.Nodup := (selectServer_refines.sound.run selectServer_init hr).inv
  intro x hx
  have hclosed : s.locals.transcript.count (.closed x) = if x ∈ s.locals.locals.allSockets.toFinset then 0 else 1 :=
    htally.closed x hx
  show List.count (Action.closed x) (s.locals.transcript ++ s.locals.locals.allSockets.map .closed) = 1
  have hinj : Function.Injective (Action.closed : ς → Action ς) := fun _ _ he => Action.closed.inj he
  rw [List.count_append, hclosed, List.count_map_of_injective _ _ hinj]
  by_cases hmem : x ∈ s.locals.locals.allSockets
  · rw [if_pos (List.mem_toFinset.mpr hmem), List.count_eq_one_of_mem hnodup hmem]
  · rw [if_neg (mt List.mem_toFinset.mp hmem), List.count_eq_zero.mpr hmem]

theorem selectors_released_iff {script : List (Input ς (Yield ς α) Exn)} {p : Process ς (SelectorsServer ς α)}
    (h : finishSelectorsServer server script = some p) : Released server script p ↔ (network script).connected = ∅ := by
  obtain ⟨⟨os, s⟩, hr, hexit⟩ := Option.bind_eq_some_iff.mp h
  obtain ⟨hrunning, -, hcleanup⟩ := exit_eq_some hexit
  obtain rfl : ⟨{ s.locals.locals with sel := Dict.empty }, s.locals.transcript ++ [.closed server]⟩ = p :=
    (EStateM.Result.ok.inj hcleanup).2
  have hecho : runEchoServer server script = _ := runSelectorsServer_refines.trans (congrArg _ hr)
  have htally := runEchoServer_tally hecho hrunning
  have hwatched : s.locals.locals.sel.keys.toFinset = insert server (network script).connected := htally.watched
  have hcount : ∀ x, x = server ∨ x ∈ accepted script →
      List.count (Action.closed x) (s.locals.transcript ++ [.closed server]) =
        if x ∈ (network script).connected then 0 else 1 := by
    intro x hx
    have hclosed : s.locals.transcript.count (.closed x) = if x ∈ s.locals.locals.sel.keys.toFinset then 0 else 1 :=
      htally.closed x hx
    rw [List.count_append, hclosed, hwatched]
    by_cases hxs : x = server
    · simp [hxs, htally.listening]
    · have hne : ¬(Action.closed server = .closed x) := fun he => hxs (Action.closed.inj he).symm
      simp [hxs, hne]
  constructor
  · intro hreleased
    refine Finset.eq_empty_of_forall_notMem fun x hx => ?_
    have hone := hreleased x (.inr (htally.accepted x hx))
    rw [hcount x (.inr (htally.accepted x hx)), if_pos hx] at hone
    exact absurd hone (by decide)
  · intro hempty x hx
    rw [hcount x hx, hempty, if_neg (Finset.notMem_empty x)]

/-- **Which sockets the servers close**: when it returns, `run_select_server` has closed the listening socket and every
client's, each once; `run_selectors_server` has exactly when no client is still connected. -/
theorem sockets_released_iff (server : ς) (script : List (Input ς (Yield ς α) Exn)) :
    (∀ p, finishSelectServer server script = some p → Released server script p) ∧
      ∀ p, finishSelectorsServer server script = some p →
        (Released server script p ↔ (network script).connected = ∅) :=
  ⟨fun _ => select_released, fun _ => selectors_released_iff⟩

/-- Two clients: one speaks and leaves, one is reset. -/
theorem sockets_released_iff_example :
    let script : List (Input Nat (Yield Nat Nat) Exn) :=
      [.poll [0], .event (.accepts 1 70), .poll [1, 0], .event (.receives "hi\n".toUTF8 .completes),
        .event (.accepts 2 71), .poll [2, 1], .event (.raises .connectionResetError),
        .event (.receives ByteArray.empty .completes)]
    ∃ p q, finishSelectServer 0 script = some p ∧ finishSelectorsServer 0 script = some q ∧
      Released 0 script p ∧ Released 0 script q := by
  intro script
  have hselect : (finishSelectServer 0 script).isSome := by decide +kernel
  have hselectors : (finishSelectorsServer 0 script).isSome := by decide +kernel
  have hgone : (network script).connected = ∅ := by decide +kernel
  obtain ⟨p, hp⟩ := Option.isSome_iff_exists.mp hselect
  obtain ⟨q, hq⟩ := Option.isSome_iff_exists.mp hselectors
  obtain ⟨hreleased, hiff⟩ := sockets_released_iff 0 script
  exact ⟨p, q, hp, hq, hreleased p hp, (hiff q hq).mpr hgone⟩

/-- A client is still connected when `run_selectors_server` returns: nothing has closed its socket. -/
theorem connected_never_closed :
    ¬∀ (script : List (Input Nat (Yield Nat Nat) Exn)) p, (∀ a ∈ script, a.within Yield.proper) →
      finishSelectorsServer 0 script = some p → Released 0 script p := by
  intro hclaim
  let script : List (Input Nat (Yield Nat Nat) Exn) := [.poll [0], .event (.accepts 1 70)]
  have hproper : ∀ a ∈ script, a.within Yield.proper := by decide
  have hreturns : (finishSelectorsServer 0 script).isSome := by decide +kernel
  obtain ⟨p, hp⟩ := Option.isSome_iff_exists.mp hreturns
  have hreleased := hclaim script p hproper hp
  have hconnected : (network script).connected ≠ ∅ := by decide +kernel
  exact hconnected ((selectors_released_iff hp).mp hreleased)

end Released

end TheGrind.EchoServer
