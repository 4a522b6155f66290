import TheGrind.EchoServer.Echo

/-!
# Both servers do the same job

`Keeper` says how a server keeps the set of its watched sockets: the list `allSockets`, or the selector's dictionary
with a counter. Whatever keeps the set this way refines `echoServer`.

* `selectServer_refines`, `selectorsServer_refines` : both servers refine `echoServer`;
* `same_job` : they take the same scripts, with the same sends and closes at every event.
-/

namespace TheGrind.EchoServer
open TheGrind.Data TheGrind.Transition TheGrind.Transition.EventLoop

section Keeper
variable {ς α τ κ : Type} [DecidableEq ς]

/-- `L` keeps the sockets it watches in locals of type `τ`, whose set is `watched`. -/
structure Keeper (server : ς) (L : EventLoop (Process ς τ) ς κ (Yield ς α) Exn (Action ς)) (watched : τ → Finset ς)
    (add : ς → α → τ → τ) (drop : ς → τ → τ) (I : τ → Prop) (J : τ → κ → Prop) : Prop where
  log : L.log = Process.transcript
  watches : ∀ p x, L.watches p x = decide (x ∈ watched p.locals)
  admits : ∀ p k y, L.admits p k y = TheGrind.EchoServer.admits server L.watches p (L.source k) y
  poll : ∀ {p ready}, I p.locals → (∀ x ∈ ready, L.watches p x) →
    I (L.poll ready p).2.locals ∧ (L.poll ready p).1.map L.source = ready ∧
      (∀ k ∈ (L.poll ready p).1, J (L.poll ready p).2.locals k) ∧
      watched (L.poll ready p).2.locals = watched p.locals ∧ (L.poll ready p).2.transcript = p.transcript
  handle : ∀ {p k y}, I p.locals → J p.locals k → L.admits p k y →
    (L.handle k y).run p = (react add drop (L.source k) y).run p
  add : ∀ {l client addr}, I l → client ∉ watched l →
    I (add client addr l) ∧ watched (add client addr l) = insert client (watched l) ∧
      ∀ k, J l k → J (add client addr l) k
  drop : ∀ {l sock}, I l → sock ∈ watched l → sock ≠ server →
    I (drop sock l) ∧ watched (drop sock l) = (watched l).erase sock ∧
      ∀ k, L.source k ≠ sock → J l k → J (drop sock l) k
  source : ∀ {l k}, I l → J l k → L.source k ∈ watched l

variable {server : ς} {L : EventLoop (Process ς τ) ς κ (Yield ς α) Exn (Action ς)} {watched : τ → Finset ς}
  {add : ς → α → τ → τ} {drop : ς → τ → τ} {I : τ → Prop} {J : τ → κ → Prop}

theorem Keeper.sound (h : Keeper server L watched add drop I J) :
    L.Sound (fun p => I p.locals) fun p => J p.locals where
  poll := by
    intro p ready hI hw
    obtain ⟨hI', hsource, hJ, -, -⟩ := h.poll hI hw
    exact ⟨hI', hsource, hJ⟩
  handle := by
    intro p k y hI hJ ha
    rw [h.handle hI hJ ha]
    rw [h.admits] at ha
    apply react_finalState (P := fun q => I q.locals ∧ ∀ k', L.source k' ≠ L.source k → J p.locals k' → J q.locals k')
    · intro client addr hy
      subst hy
      obtain ⟨-, hnew, -⟩ := admits_accepts addr ha
      rw [h.watches, decide_eq_false_iff_not] at hnew
      obtain ⟨hI', -, hJ'⟩ := h.add hI hnew
      exact ⟨hI', fun k' _ => hJ' k'⟩
    · exact fun sent _ => ⟨hI, fun k' _ hk' => hk'⟩
    · intro hy sent _
      obtain ⟨hI', -, hJ'⟩ := h.drop hI (h.source hI hJ) (admits_client ha hy)
      exact ⟨hI', hJ'⟩

/-- **What keeps the set of its watched sockets refines the echo server.** -/
theorem Keeper.refines (h : Keeper server L watched add drop I J) :
    Refines L (echoServer α server) (Process.map watched) L.source (fun p => I p.locals) fun p => J p.locals where
  sound := h.sound
  log := by
    intro p
    rw [h.log]
    rfl
  watches := by
    intro p x
    rw [h.watches]
    rfl
  admits := by
    intro p k _ _ y
    have hw : ∀ x, Echo.watches (p.map watched) x = L.watches p x := fun x => (h.watches p x).symm
    rw [h.admits]
    show TheGrind.EchoServer.admits server Echo.watches (p.map watched) (L.source k) y = _
    cases y with
    | accepts client addr =>
      simp only [TheGrind.EchoServer.admits, hw]
      rfl
    | refuses e => rfl
    | receives data send => rfl
    | raises e => rfl
  poll := by
    intro p ready hI hw
    obtain ⟨-, hsource, -, hwatched, hlog⟩ := h.poll hI hw
    show (ready, p.map watched) = _
    rw [hsource, Process.map, Process.map, hwatched, hlog]
  handle := by
    intro p k y hI hJ ha
    have hhandle := h.handle hI hJ ha
    rw [h.admits] at ha
    rw [hhandle]
    apply react_map
    · intro client addr hy
      subst hy
      obtain ⟨-, hnew, -⟩ := admits_accepts addr ha
      rw [h.watches, decide_eq_false_iff_not] at hnew
      exact (h.add hI hnew).2.1
    · intro hy
      exact (h.drop hI (h.source hI hJ) (admits_client ha hy)).2.1

end Keeper

/-! ## `run_select_server` -/

section Select
variable {ς α : Type} [DecidableEq ς] {server : ς}

namespace SelectServer

def add (client : ς) (_addr : α) (l : SelectServer ς) : SelectServer ς :=
  { l with allSockets := l.allSockets ++ [client] }

def drop (sock : ς) (l : SelectServer ς) : SelectServer ς := { l with allSockets := l.allSockets.erase sock }

theorem remove_close {l : SelectServer ς} {sock : ς} (h : sock ∈ l.allSockets) (log : List (Action ς)) :
    (do remove sock; close sock : Py ς (SelectServer ς) Unit).run ⟨l, log⟩ =
      .ok () ⟨drop sock l, log ++ [.closed sock]⟩ := by
  simp [remove, close, act, h, drop]

theorem handle_eq {p : Process ς (SelectServer ς)} {sock : ς} {y : Yield ς α} (h : sock ∈ p.locals.allSockets)
    (ha : admits server watches p sock y) : (handle server sock y).run p = (react add drop sock y).run p := by
  rcases y.accepts_or with ⟨client, addr, rfl⟩ | ⟨e, rfl⟩ | hclient
  · obtain ⟨rfl, -, -⟩ := admits_accepts addr ha
    simp [handle, accept, append]
    rfl
  · obtain rfl := admits_refuses ha
    simp [handle, accept, run_throw]
    rfl
  · rw [react_of_client hclient, handle, if_neg (admits_client ha hclient)]
    exact serveClient_eq (remove_close h) y

end SelectServer

theorem selectServer_keeper :
    Keeper server (selectServer α server) (fun l => l.allSockets.toFinset) SelectServer.add SelectServer.drop
      (fun l => l.allSockets.Nodup) fun l sock => sock ∈ l.allSockets where
  log := rfl
  watches := by
    intro p x
    show decide _ = decide _
    simp only [List.mem_toFinset]
  admits := fun _ _ _ => rfl
  poll := by
    intro p ready hI hw
    exact ⟨hI, List.map_id ready, fun x hx => of_decide_eq_true (hw x hx), rfl, rfl⟩
  handle := fun _ hJ ha => SelectServer.handle_eq hJ ha
  add := by
    intro l client addr hI hnew
    rw [List.mem_toFinset] at hnew
    refine ⟨hI.append (List.nodup_singleton _) (List.disjoint_singleton.mpr hnew), ?_, ?_⟩
    · show (l.allSockets ++ [client]).toFinset = _
      ext x
      rw [List.mem_toFinset, List.mem_append, List.mem_singleton, Finset.mem_insert, List.mem_toFinset, or_comm]
    · exact fun k hk => List.mem_append_left _ hk
  drop := by
    intro l sock hI hsock hne
    refine ⟨hI.erase sock, ?_, ?_⟩
    · ext x
      simp [SelectServer.drop, hI.mem_erase_iff]
    · exact fun k hk hmem => (List.mem_erase_of_ne hk).mpr hmem
  source := fun _ hJ => List.mem_toFinset.mpr hJ

end Select

/-! ## `run_selectors_server` -/

section Selectors
variable {ς α : Type} [DecidableEq ς] {server : ς}

namespace SelectorsServer

def add (client : ς) (addr : α) (l : SelectorsServer ς α) : SelectorsServer ς α :=
  { l with sel := l.sel.set client (.addr addr), registeredCount := l.registeredCount + 1 }

def drop (sock : ς) (l : SelectorsServer ς α) : SelectorsServer ς α :=
  { l with sel := l.sel.erase sock, registeredCount := l.registeredCount + -1 }

/-- The counter is right, and the listening socket is registered, with the data `"server"`, the others with another. -/
structure Inv (server : ς) (l : SelectorsServer ς α) : Prop where
  count : l.registeredCount = l.sel.keys.length
  listening : server ∈ l.sel.keys
  data : ∀ e ∈ l.sel.entries, e.2 = .server ↔ e.1 = server

theorem unregister_close {l : SelectorsServer ς α} {sock : ς} (h : sock ∈ l.sel.keys) (log : List (Action ς)) :
    (do unregister sock; count (-1); close sock : Py ς (SelectorsServer ς α) Unit).run ⟨l, log⟩ =
      .ok () ⟨drop sock l, log ++ [.closed sock]⟩ := by
  simp [unregister, count, close, act, Dict.del_of_mem h, drop]

theorem handle_eq {p : Process ς (SelectorsServer ς α)} {k : SelectorKey ς α} {y : Yield ς α}
    (hI : Inv server p.locals) (hk : (k.fileobj, k.data) ∈ p.locals.sel.entries)
    (ha : admits server watches p k.fileobj y) : (handle k y).run p = (react add drop k.fileobj y).run p := by
  have hdata := hI.data _ hk
  obtain ⟨sock, data⟩ := k
  rcases y.accepts_or with ⟨client, addr, rfl⟩ | ⟨e, rfl⟩ | hclient
  · obtain ⟨rfl, hnew, -⟩ := admits_accepts addr ha
    obtain rfl : data = .server := hdata.mpr rfl
    rw [watches, decide_eq_false_iff_not] at hnew
    simp [handle, accept, register, count, hnew]
    rfl
  · obtain rfl := admits_refuses ha
    obtain rfl : data = .server := hdata.mpr rfl
    simp [handle, accept, run_throw]
    rfl
  · rw [react_of_client hclient]
    cases data with
    | server => exact absurd (hdata.mp rfl) (admits_client ha hclient)
    | addr a => exact serveClient_eq (unregister_close (Dict.mem_keys_of_mem hk)) y

section Inv
variable {l : SelectorsServer ς α} {client sock : ς} {addr : α}

theorem keys_add (h : client ∉ l.sel.keys) : (add client addr l).sel.keys = l.sel.keys ++ [client] :=
  Dict.keys_set_of_not_mem h

theorem entries_add (h : client ∉ l.sel.keys) :
    (add client addr l).sel.entries = l.sel.entries ++ [(client, .addr addr)] :=
  Dict.entries_set_of_not_mem h

theorem keys_drop : (drop sock l).sel.keys = l.sel.keys.filter (· ≠ sock) := Dict.keys_erase

theorem Inv.add (h : Inv server l) (hnew : client ∉ l.sel.keys) : Inv server (add client addr l) where
  count := by
    rw [keys_add hnew, List.length_append]
    show l.registeredCount + 1 = _
    rw [h.count]
    rfl
  listening := by
    rw [keys_add hnew]
    exact List.mem_append_left _ h.listening
  data := by
    rw [entries_add hnew]
    intro e he
    rcases List.mem_append.mp he with he | he
    · exact h.data e he
    · obtain rfl := List.mem_singleton.mp he
      have hne : client ≠ server := fun he => hnew (he ▸ h.listening)
      exact iff_of_false (fun hd : KeyData.addr addr = .server => nomatch hd) hne

theorem Inv.drop (h : Inv server l) (hsock : sock ∈ l.sel.keys) (hne : sock ≠ server) : Inv server (drop sock l) where
  count := by
    have hlength := (Dict.keys_perm_erase hsock).length_eq
    show l.registeredCount + -1 = ((l.sel.erase sock).keys.length : Int)
    rw [h.count, hlength, List.length_cons]
    omega
  listening := by
    rw [keys_drop, List.mem_filter]
    exact ⟨h.listening, decide_eq_true hne.symm⟩
  data e he := h.data e (Dict.mem_erase.mp he).1

end Inv

/-- Every watched socket that is ready is reported, with the data it is registered with. -/
theorem select_eq {p : Process ς (SelectorsServer ς α)} {ready : List ς} (h : ∀ x ∈ ready, x ∈ p.locals.sel.keys) :
    (select ready p).1.map SelectorKey.fileobj = ready ∧
      ∀ k ∈ (select ready p).1, (k.fileobj, k.data) ∈ p.locals.sel.entries := by
  constructor
  · have hsome : ∀ x ∈ ready, ((p.locals.sel.get? x).map (SelectorKey.mk x)).map SelectorKey.fileobj = some x := by
      intro x hx
      obtain ⟨data, hdata⟩ := Option.ne_none_iff_exists'.mp fun hn => Dict.get?_eq_none_iff.mp hn (h x hx)
      rw [hdata]
      rfl
    show (ready.filterMap _).map _ = ready
    rw [List.map_filterMap, List.filterMap_congr hsome, List.filterMap_some]
  · intro k hk
    obtain ⟨sock, -, hsock⟩ := List.mem_filterMap.mp hk
    obtain ⟨data, hdata, rfl⟩ := Option.map_eq_some_iff.mp hsock
    exact Dict.get?_eq_some_iff.mp hdata

end SelectorsServer

theorem selectorsServer_keeper :
    Keeper server (selectorsServer server : EventLoop _ _ _ (Yield ς α) _ _) (fun l => l.sel.keys.toFinset)
      SelectorsServer.add SelectorsServer.drop (SelectorsServer.Inv server)
      fun l k => (k.fileobj, k.data) ∈ l.sel.entries where
  log := rfl
  watches := by
    intro p x
    show decide _ = decide _
    simp only [List.mem_toFinset]
  admits := fun _ _ _ => rfl
  poll := by
    intro p ready hI hw
    obtain ⟨hsource, hJ⟩ := SelectorsServer.select_eq fun x hx => of_decide_eq_true (hw x hx)
    exact ⟨⟨hI.count, hI.listening, hI.data⟩, hsource, hJ, rfl, rfl⟩
  handle := fun hI hJ ha => SelectorsServer.handle_eq hI hJ ha
  add := by
    intro l client addr hI hnew
    rw [List.mem_toFinset] at hnew
    refine ⟨hI.add hnew, ?_, fun k hk => ?_⟩
    · ext x
      rw [List.mem_toFinset, SelectorsServer.keys_add hnew, List.mem_append, List.mem_singleton, Finset.mem_insert,
        List.mem_toFinset, or_comm]
    · rw [SelectorsServer.entries_add hnew]
      exact List.mem_append_left _ hk
  drop := by
    intro l sock hI hsock hne
    rw [List.mem_toFinset] at hsock
    refine ⟨hI.drop hsock hne, ?_, fun k hk hmem => Dict.mem_erase.mpr ⟨hmem, hk⟩⟩
    ext x
    simp [SelectorsServer.keys_drop, and_comm]
  source := fun _ hJ => List.mem_toFinset.mpr (Dict.mem_keys_of_mem hJ)

end Selectors

/-! ## The same job -/

section Same
variable {ς α : Type} [DecidableEq ς] {server : ς}

theorem selectServer_refines : Refines (selectServer α server) (echoServer α server)
    (Process.map fun l => l.allSockets.toFinset) id (fun p => p.locals.allSockets.Nodup)
    fun p sock => sock ∈ p.locals.allSockets :=
  selectServer_keeper.refines

theorem selectorsServer_refines : Refines (selectorsServer server) (echoServer α server)
    (Process.map fun l => l.sel.keys.toFinset) SelectorKey.fileobj (fun p => SelectorsServer.Inv server p.locals)
    fun p k => (k.fileobj, k.data) ∈ p.locals.sel.entries :=
  selectorsServer_keeper.refines

def runEchoServer (server : ς) (script : List (Input ς (Yield ς α) Exn)) :
    Option (List (List (Action ς)) × State (Echo ς) ς Exn) :=
  (echoServer α server).machine.run (.start (Echo.init server)) script

variable {script : List (Input ς (Yield ς α) Exn)}

theorem selectServer_init : (selectServer α server).Holds (fun p => p.locals.allSockets.Nodup)
    (fun p sock => sock ∈ p.locals.allSockets) (.start (SelectServer.init server)) :=
  Holds.start (List.nodup_singleton server)

theorem selectorsServer_init : (selectorsServer (α := α) server).Holds (fun p => SelectorsServer.Inv server p.locals)
    (fun p k => (k.fileobj, k.data) ∈ p.locals.sel.entries) (.start (SelectorsServer.init server)) := by
  apply Holds.start
  refine ⟨rfl, List.mem_singleton.mpr rfl, ?_⟩
  intro e he
  obtain rfl := List.mem_singleton.mp he
  exact ⟨fun _ => rfl, fun _ => rfl⟩

theorem runSelectServer_refines : runEchoServer server script =
    (runSelectServer server script).map (Prod.map id (State.abs (Process.map fun l => l.allSockets.toFinset) id)) :=
  selectServer_refines.run selectServer_init

theorem runSelectorsServer_refines : runEchoServer server script =
    (runSelectorsServer server script).map
      (Prod.map id (State.abs (Process.map fun l => l.sel.keys.toFinset) SelectorKey.fileobj)) :=
  selectorsServer_refines.run selectorsServer_init

theorem echoServer_init : (echoServer α server).Holds (Echo.Inv server) (fun p sock => sock ∈ p.locals)
    (.start (Echo.init server)) := by
  apply Holds.start
  refine ⟨Finset.mem_singleton_self server, fun x _ hclosed => ?_⟩
  exact absurd hclosed List.not_mem_nil

theorem runEchoServer_sound {os : List (List (Action ς))} {w : State (Echo ς) ς Exn}
    (hr : runEchoServer server script = some (os, w)) : Echo.Inv server w.locals :=
  (echoServer_sound.run echoServer_init hr).inv

theorem runEchoServer_running {os : List (List (Action ς))} {w : State (Echo ς) ς Exn}
    (hscript : ∀ a ∈ script, a.within Yield.harmless) (hr : runEchoServer server script = some (os, w)) :
    w.escaped = none := by
  have halong : (echoServer α server).machine.Along (fun _ a => a.within Yield.harmless)
      (.start (Echo.init server)) script := Machine.along_of_forall fun a ha _ => hscript a ha
  refine Machine.run_invariant_along (P := fun w => w.escaped = none) ?_ rfl halong hr
  intro s a o t hs hQ hstep
  cases a with
  | poll ready =>
    obtain ⟨-, -, rfl⟩ := step_poll_iff.mp hstep
    rfl
  | fails e => exact absurd hQ Bool.false_ne_true
  | event y =>
    obtain ⟨k, ks, -, -, rfl⟩ := step_event_iff.mp hstep
    exact raised_react_iff.mpr hQ

/-- What holds of the two servers after the same events. -/
structure Agree (s : State (Process ς (SelectServer ς)) ς Exn)
    (t : State (Process ς (SelectorsServer ς α)) (SelectorKey ς α) Exn) : Prop where
  running : s.escaped = none ∧ t.escaped = none
  transcript : s.locals.transcript = t.locals.transcript
  watched : ∀ x, x ∈ s.locals.locals.allSockets ↔ x ∈ t.locals.locals.sel.keys
  once : s.locals.locals.allSockets.Nodup ∧ t.locals.locals.sel.keys.Nodup
  opened : ∀ x ∈ s.locals.locals.allSockets, ¬s.locals.Closed x ∧ ¬t.locals.Closed x
  count : t.locals.locals.registeredCount = t.locals.locals.sel.keys.length

/-- **The select() server and the selectors server do the same job.** They take the same scripts, with the same sends
and closes at every event, and watch the same open sockets after it, each once. A proper script has polls that return,
clients that are accepted, and no exceptions but those that are caught. -/
theorem same_job (server : ς) {script : List (Input ς (Yield ς α) Exn)}
    (hscript : ∀ a ∈ script, a.within Yield.proper) :
    (runSelectServer server script).map Prod.fst = (runSelectorsServer server script).map Prod.fst ∧
      ∀ os os' s t, runSelectServer server script = some (os, s) →
        runSelectorsServer server script = some (os', t) → Agree s t := by
  have hecho : runEchoServer server script = (runSelectServer server script).map _ := runSelectServer_refines
  have hecho' : runEchoServer server script = (runSelectorsServer server script).map _ := runSelectorsServer_refines
  constructor
  · have h := congrArg (Option.map Prod.fst) hecho
    rw [hecho', Option.map_map, Option.map_map] at h
    exact h.symm
  · intro os os' s t hs ht
    rw [hs] at hecho
    rw [ht, hecho] at hecho'
    obtain ⟨-, habs⟩ := Prod.mk.inj (Option.some.inj hecho')
    obtain ⟨hlocals, -, -⟩ := State.mk.inj habs
    obtain ⟨hwatched, htranscript⟩ := Process.mk.inj hlocals
    have hmem : ∀ x, x ∈ s.locals.locals.allSockets ↔ x ∈ t.locals.locals.sel.keys := by
      intro x
      rw [← List.mem_toFinset, ← List.mem_toFinset]
      exact iff_of_eq (congrArg (x ∈ ·) hwatched)
    have hopened : ∀ x ∈ s.locals.locals.allSockets, ¬s.locals.Closed x := fun x hx =>
      (runEchoServer_sound hecho).opened x (List.mem_toFinset.mpr hx)
    have hrunning : s.escaped = none :=
      runEchoServer_running (fun a ha => Input.within_mono (fun _ => harmless_of_proper) (hscript a ha)) hecho
    have hescaped : s.escaped = t.escaped := congrArg State.escaped habs
    have hselect := selectServer_refines.sound.run selectServer_init hs
    have hselectors := selectorsServer_refines.sound.run selectorsServer_init ht
    refine ⟨⟨hrunning, hescaped ▸ hrunning⟩, htranscript, hmem, ⟨hselect.inv, t.locals.locals.sel.nodup⟩, ?_,
      hselectors.inv.count⟩
    intro x hx
    refine ⟨hopened x hx, fun hclosed => hopened x hx ?_⟩
    rw [Process.Closed, htranscript]
    exact hclosed

/-- Three clients: one speaks and leaves, one is gone when it is answered, one is reset. -/
theorem same_job_example :
    let script : List (Input Nat (Yield Nat Nat) Exn) :=
      [.poll [0], .event (.accepts 1 70), .poll [0], .event (.accepts 2 71), .poll [2, 0, 1],
        .event (.receives " hi\n".toUTF8 .completes), .event (.accepts 3 72),
        .event (.receives "yo".toUTF8 (.raises 3 .brokenPipeError)), .poll [2, 3],
        .event (.receives ByteArray.empty .completes), .event (.raises .connectionResetError)]
    let os : List (List (Action Nat)) :=
      [[], [], [], [], [], [.sent 2 "echo: hi\n".toUTF8], [], [.sent 1 "ech".toUTF8, .closed 1], [], [.closed 2],
        [.closed 3]]
    ∃ s t, runSelectServer 0 script = some (os, s) ∧ runSelectorsServer 0 script = some (os, t) ∧ Agree s t := by
  intro script os
  have hproper : ∀ a ∈ script, a.within Yield.proper := by decide +kernel
  have hselect : (runSelectServer 0 script).map Prod.fst = some os := by decide +kernel
  obtain ⟨hsame, hagree⟩ := same_job (0 : Nat) hproper
  obtain ⟨s, hs⟩ := Machine.exists_run _ hselect
  obtain ⟨t, ht⟩ := Machine.exists_run _ (hsame.symm.trans hselect)
  exact ⟨s, t, hs, ht, hagree os os s t hs ht⟩

end Same

end TheGrind.EchoServer
