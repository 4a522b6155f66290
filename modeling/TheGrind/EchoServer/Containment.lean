import TheGrind.EchoServer.Refinement

/-!
# One client and the others

The `except` clause of both servers is there so that one client's failure is that client's alone. It misses the
exception of `decode`, and the network cuts the bytes where it likes, also inside a character. No `try` stands around
the poll and the `accept`: `select.select` raises once a watched descriptor is `FD_SETSIZE` or more, and `accept` when
the client is gone already or no descriptor is left.

* `Contained` : a poll or an event lets no exception escape, and the other watched sockets stay watched and open;
* `contained_iff` : an input is contained exactly when it is a poll that returns or a harmless event;
* `one_client_contained_iff` : every input of a run is contained exactly when all of them are that, and then the loop
  goes on.
-/

namespace TheGrind.EchoServer
open TheGrind.Data TheGrind.Transition TheGrind.Transition.EventLoop

section Contained
variable {ς α τ κ : Type} [DecidableEq ς]

/-- The poll or the event lets no exception escape, and of the sockets watched all but the one that the event is about
stay so, and open. -/
def Contained (L : EventLoop (Process ς τ) ς κ (Yield ς α) Exn (Action ς)) (s : State (Process ς τ) κ Exn)
    (a : Input ς (Yield ς α) Exn) : Prop :=
  ∀ o t, L.machine.step s a = some (o, t) → t.escaped = none ∧
    ∀ x, L.watches s.locals x → x ∉ s.batch.head?.map L.source → L.watches t.locals x ∧ ¬t.locals.Closed x

/-- The loop is not over: the listening socket is watched and open, and whatever comes next is handled. -/
structure Serving (server : ς) (L : EventLoop (Process ς τ) ς κ (Yield ς α) Exn (Action ς))
    (s : State (Process ς τ) κ Exn) : Prop where
  listening : L.watches s.locals server ∧ ¬s.locals.Closed server
  polls : ∀ {ready : List ς}, s.batch = [] → ready.Nodup → (∀ x ∈ ready, L.watches s.locals x) →
    (L.machine.step s (.poll ready)).isSome
  handles : ∀ {k ks y}, s.batch = k :: ks → L.admits s.locals k y → (L.machine.step s (.event y)).isSome

variable {server : ς} {L : EventLoop (Process ς τ) ς κ (Yield ς α) Exn (Action ς)} {watched : τ → Finset ς}
  {I : Process ς τ → Prop} {J : Process ς τ → κ → Prop}

theorem serving_of_running {s : State (Process ς τ) κ Exn} (he : s.escaped = none)
    (hserver : L.watches s.locals server ∧ ¬s.locals.Closed server) : Serving server L s where
  listening := hserver
  polls hb hn hw := Option.isSome_iff_exists.mpr ⟨_, step_poll_iff.mpr ⟨⟨he, hb, hn, hw⟩, rfl, rfl⟩⟩
  handles hb ha := Option.isSome_iff_exists.mpr ⟨_, step_event_iff.mpr ⟨_, _, ⟨he, hb, ha⟩, rfl, rfl⟩⟩

theorem not_contained_fails {s t : State (Process ς τ) κ Exn} {e : Exn} {o : List (Action ς)}
    (hstep : L.machine.step s (.fails e) = some (o, t)) : ¬Contained L s (.fails e) := by
  intro hcontained
  obtain ⟨hescaped, -⟩ := hcontained o t hstep
  obtain ⟨-, -, rfl⟩ := step_fails_iff.mp hstep
  cases hescaped

section Refined

/-- The invariant of `L`, and that of the echo server which it refines. -/
def Orderly (server : ς) (L : EventLoop (Process ς τ) ς κ (Yield ς α) Exn (Action ς)) (watched : τ → Finset ς)
    (I : Process ς τ → Prop) (J : Process ς τ → κ → Prop) (s : State (Process ς τ) κ Exn) : Prop :=
  L.Holds (fun p => I p ∧ Echo.Inv server (p.map watched)) (fun p k => J p k ∧ L.source k ∈ watched p.locals) s

variable (h : Refines L (echoServer α server) (Process.map watched) L.source I J)
include h

theorem watches_iff {p : Process ς τ} {x : ς} : L.watches p x ↔ x ∈ watched p.locals := by
  rw [← h.watches]
  exact decide_eq_true_iff

theorem orderly_step {s t : State (Process ς τ) κ Exn} {a : Input ς (Yield ς α) Exn} {o : List (Action ς)}
    (hs : Orderly server L watched I J s) (hstep : L.machine.step s a = some (o, t)) :
    Orderly server L watched I J t :=
  (h.sound_of (fun _ => rfl) echoServer_sound).step hs hstep

theorem contained_poll {s : State (Process ς τ) κ Exn} (hs : Orderly server L watched I J s) (ready : List ς) :
    Contained L s (.poll ready) := by
  intro o t hstep
  obtain ⟨⟨-, -, -, hw⟩, -, rfl⟩ := step_poll_iff.mp hstep
  refine ⟨rfl, fun x hx _ => ?_⟩
  have hpoll := h.poll hs.inv.1 hw
  obtain ⟨-, hmap⟩ := Prod.mk.inj hpoll
  obtain ⟨hwatched, htranscript⟩ := Process.mk.inj hmap
  rw [watches_iff h] at hx ⊢
  refine ⟨hwatched ▸ hx, fun hclosed => hs.inv.2.opened x hx ?_⟩
  show Action.closed x ∈ s.locals.transcript
  rw [htranscript]
  exact hclosed

/-- An event is contained exactly when it is harmless. -/
theorem contained_event_iff {s t : State (Process ς τ) κ Exn} {y : Yield ς α} {o : List (Action ς)}
    (hs : Orderly server L watched I J s) (hstep : L.machine.step s (.event y) = some (o, t)) :
    Contained L s (.event y) ↔ y.harmless := by
  obtain ⟨k, ks, ⟨-, hb, ha⟩, rfl, rfl⟩ := step_event_iff.mp hstep
  obtain ⟨hJ, hsource⟩ := hs.pending k (hb ▸ List.mem_cons_self)
  have hadmits : (echoServer α server).admits (s.locals.map watched) (L.source k) y :=
    (h.admits hs.inv.1 hJ y).trans ha
  have hhandle : (react Echo.add Echo.drop (L.source k) y).run (s.locals.map watched) = mapState _ _ :=
    h.handle hs.inv.1 hJ ha
  have hraised : raised ((L.handle k y).run s.locals) = none ↔ y.harmless := by
    rw [← raised_mapState (f := Process.map watched), ← hhandle, raised_react_iff]
  rw [← hraised]
  constructor
  · exact fun hcontained => (hcontained _ _ hstep).1
  · intro hr o' t' hstep'
    obtain ⟨-, rfl⟩ := Prod.mk.inj (Option.some.inj (hstep.symm.trans hstep'))
    refine ⟨hr, fun x hx hne => ?_⟩
    -- what handling `k` does to the others is what the echo server does
    obtain ⟨hinv, hothers⟩ := echoServer_sound.handle hs.inv.2 hsource hadmits
    have hfinal : finalState (((echoServer α server).handle (L.source k) y).run (s.locals.map watched)) =
        (finalState ((L.handle k y).run s.locals)).map watched := by
      rw [← finalState_mapState (f := Process.map watched)]
      exact congrArg finalState hhandle
    rw [hfinal] at hinv hothers
    rw [hb] at hne
    have hxk : x ≠ L.source k := fun he => hne (Option.mem_def.mpr (congrArg some he.symm))
    have hx' : x ∈ watched (finalState ((L.handle k y).run s.locals)).locals :=
      hothers x hxk ((watches_iff h).mp hx)
    exact ⟨(watches_iff h).mpr hx', hinv.opened x hx'⟩

/-- **What is contained**: a poll exactly when it returns, and an event exactly when it is harmless. -/
theorem contained_iff {s t : State (Process ς τ) κ Exn} {a : Input ς (Yield ς α) Exn} {o : List (Action ς)}
    (hs : Orderly server L watched I J s) (hstep : L.machine.step s a = some (o, t)) :
    Contained L s a ↔ a.within Yield.harmless := by
  cases a with
  | poll ready => exact iff_of_true (contained_poll h hs ready) rfl
  | fails e => exact iff_of_false (not_contained_fails hstep) Bool.false_ne_true
  | event y => exact contained_event_iff h hs hstep

/-- A run of a server that refines the echo server, from its start. -/
theorem run_contained_iff {p : Process ς τ} (hp : I p) (hinit : p.map watched = Echo.init server)
    {script : List (Input ς (Yield ς α) Exn)} {os : List (List (Action ς))} {t : State (Process ς τ) κ Exn}
    (hr : L.machine.run (.start p) script = some (os, t)) :
    (L.machine.Along (Contained L) (.start p) script ↔ ∀ a ∈ script, a.within Yield.harmless) ∧
      ((∀ a ∈ script, a.within Yield.harmless) → Serving server L t) := by
  have hecho : runEchoServer server script = some (os, t.abs (Process.map watched) L.source) := by
    have hrun : (echoServer α server).machine.run (.start (p.map watched)) script = _ := h.run (Holds.start hp)
    rw [hr, hinit] at hrun
    exact hrun
  constructor
  · have hstart : Orderly server L watched I J (.start p) :=
      Holds.start ⟨hp, hinit ▸ (echoServer_init (α := α)).inv⟩
    rw [Machine.along_congr (R := fun _ a => a.within Yield.harmless) (orderly_step h) (contained_iff h) hstart hr,
      Machine.along_iff_forall hr]
  · intro hscript
    have hsound : Echo.Inv server (t.locals.map watched) := runEchoServer_sound hecho
    have hrunning : t.escaped = none := runEchoServer_running hscript hecho
    exact serving_of_running hrunning ⟨(watches_iff h).mpr hsound.listening, hsound.opened server hsound.listening⟩

end Refined

end Contained

section Servers
variable {ς α : Type} [DecidableEq ς]

/-- **One client and the others.** In a run of either server every poll and every event is contained exactly when no
exception but the two that are caught comes up: the polls return, `accept` yields a client, each chunk is empty or UTF-8
by itself, and `recv` and `sendall` raise no other. Then the loop goes on. -/
theorem one_client_contained_iff (server : ς) {script : List (Input ς (Yield ς α) Exn)} :
    (∀ os t, runSelectServer server script = some (os, t) →
      ((selectServer α server).machine.Along (Contained (selectServer α server)) (.start (SelectServer.init server))
          script ↔ ∀ a ∈ script, a.within Yield.harmless) ∧
        ((∀ a ∈ script, a.within Yield.harmless) → Serving server (selectServer α server) t)) ∧
    ∀ os t, runSelectorsServer server script = some (os, t) →
      ((selectorsServer server).machine.Along (Contained (selectorsServer server))
          (.start (SelectorsServer.init server)) script ↔ ∀ a ∈ script, a.within Yield.harmless) ∧
        ((∀ a ∈ script, a.within Yield.harmless) → Serving server (selectorsServer server) t) := by
  constructor
  · exact fun os t hr => run_contained_iff selectServer_refines (List.nodup_singleton server) rfl hr
  · exact fun os t hr => run_contained_iff selectorsServer_refines selectorsServer_init.inv rfl hr

/-- A client that speaks, one that is reset, and one that is gone when it is answered. -/
theorem one_client_contained_iff_example :
    let script : List (Input Nat (Yield Nat Nat) Exn) :=
      [.poll [0], .event (.accepts 1 70), .poll [0], .event (.accepts 2 71), .poll [0], .event (.accepts 3 72),
        .poll [1, 2, 3], .event (.receives "é".toUTF8 .completes), .event (.raises .connectionResetError),
        .event (.receives "yo".toUTF8 (.raises 3 .brokenPipeError))]
    ∃ os s t, runSelectServer 0 script = some (os, s) ∧ runSelectorsServer 0 script = some (os, t) ∧
      (selectServer Nat 0).machine.Along (Contained (selectServer Nat 0)) (.start (SelectServer.init 0)) script ∧
      (selectorsServer 0).machine.Along (Contained (selectorsServer 0)) (.start (SelectorsServer.init 0)) script ∧
      Serving 0 (selectServer Nat 0) s ∧ Serving 0 (selectorsServer 0) t := by
  intro script
  have hscript : ∀ a ∈ script, a.within Yield.harmless := by decide +kernel
  have hselect : ((runSelectServer 0 script).map Prod.fst).isSome := by decide +kernel
  obtain ⟨os, hos⟩ := Option.isSome_iff_exists.mp hselect
  have hos' : (runSelectorsServer 0 script).map Prod.fst = some os := by
    rw [← hos]
    decide +kernel
  obtain ⟨s, hs⟩ := Machine.exists_run _ hos
  obtain ⟨t, ht⟩ := Machine.exists_run _ hos'
  obtain ⟨hcontained, hserving⟩ := (one_client_contained_iff (0 : Nat)).1 os s hs
  obtain ⟨hcontained', hserving'⟩ := (one_client_contained_iff (0 : Nat)).2 os t ht
  exact ⟨os, s, t, hs, ht, hcontained.mpr hscript, hcontained'.mpr hscript, hserving hscript, hserving' hscript⟩

/-- What a network does to a server: clients that connect, any chunk that `recv(1024)` returns, and clients that are
reset, or gone when they are answered. -/
def Yield.ordinary : Yield ς α → Bool
  | .accepts _ _ => true
  | .refuses _ => false
  | .receives data send => data.size ≤ 1024 && send.caught
  | .raises e => e.isDisconnect

/-- Two clients are connected, and the first half of an `é` arrives: an exception takes down either server. -/
theorem split_char_escapes :
    ¬(∀ (script : List (Input Nat (Yield Nat Nat) Exn)) os t, (∀ a ∈ script, a.within Yield.ordinary) →
      runSelectServer 0 script = some (os, t) →
        (selectServer Nat 0).machine.Along (Contained (selectServer Nat 0)) (.start (SelectServer.init 0)) script) ∧
    ¬∀ (script : List (Input Nat (Yield Nat Nat) Exn)) os t, (∀ a ∈ script, a.within Yield.ordinary) →
      runSelectorsServer 0 script = some (os, t) →
        (selectorsServer 0).machine.Along (Contained (selectorsServer 0)) (.start (SelectorsServer.init 0)) script := by
  let half : Yield Nat Nat := .receives ("é".toUTF8.extract 0 1) .completes
  let script : List (Input Nat (Yield Nat Nat) Exn) :=
    [.poll [0], .event (.accepts 1 70), .poll [0], .event (.accepts 2 71), .poll [1], .event half]
  have hscript : ∀ a ∈ script, a.within Yield.ordinary := by decide +kernel
  have hhalf : ¬∀ a ∈ script, a.within Yield.harmless := by decide +kernel
  constructor
  · intro hclaim
    have hrun : (runSelectServer 0 script).isSome := by decide +kernel
    obtain ⟨⟨os, t⟩, hr⟩ := Option.isSome_iff_exists.mp hrun
    obtain ⟨hiff, -⟩ := run_contained_iff selectServer_refines (List.nodup_singleton 0) rfl hr
    exact hhalf (hiff.mp (hclaim script os t hscript hr))
  · intro hclaim
    have hrun : (runSelectorsServer 0 script).isSome := by decide +kernel
    obtain ⟨⟨os, t⟩, hr⟩ := Option.isSome_iff_exists.mp hrun
    obtain ⟨hiff, -⟩ := run_contained_iff selectorsServer_refines selectorsServer_init.inv rfl hr
    exact hhalf (hiff.mp (hclaim script os t hscript hr))

end Servers

end TheGrind.EchoServer
