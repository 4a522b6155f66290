import TheGrind.EchoServer.Servers

/-!
# The echo server that both refine

`echoServer` is what both servers are for: a set of watched sockets, to which an accepted client is added, and from
which a client is taken when it is closed.

* `Yield.outcome` : what a client's event makes a server send and what becomes of the client;
* `serveClient_eq` : the client branch of a handler, as `settle` of the outcome;
* `react` : handling an event with locals to which a client can be added, and from which it can be dropped;
* `raised_react_iff` : which events let an exception escape;
* `echoServer_sound` : the listening socket stays watched, and no watched socket has been closed.
-/

namespace TheGrind.EchoServer
open TheGrind.Data TheGrind.Transition TheGrind.Transition.EventLoop

/-! ## The outcome of an event -/

section Outcome
variable {ς α τ : Type}

/-- What becomes of a client when its event has been handled. -/
inductive Fate
  | stays
  | leaves
  | escapes (e : Exn)
  deriving DecidableEq

def Fate.ofExn (e : Exn) : Fate := if e.isDisconnect then .leaves else .escapes e

/-- What a client's event makes a server send, and what becomes of the client. -/
def Yield.outcome (sock : ς) : Yield ς α → List (Action ς) × Fate
  | .accepts _ _ | .refuses _ => ([], .ofExn .blockingIOError)
  | .raises e => ([], .ofExn e)
  | .receives data send =>
    if data.size = 0 then ([], .leaves)
    else match String.fromUTF8? data with
      | none => ([], .ofExn .unicodeDecodeError)
      | some text => match send with
        | .completes => ([.sent sock (echo (strip text))], .stays)
        | .raises n e => ([.sent sock ((echo (strip text)).extract 0 n)], .ofExn e)

/-- The event is a client's, not one of the listening socket. -/
def Yield.ofClient : Yield ς α → Bool
  | .accepts _ _ | .refuses _ => false
  | .receives _ _ | .raises _ => true

/-- An event is an `accept`, one that raises, or an event of a client. -/
theorem Yield.accepts_or (y : Yield ς α) :
    (∃ client addr, y = .accepts client addr) ∨ (∃ e, y = .refuses e) ∨ y.ofClient := by
  cases y with
  | accepts client addr => exact .inl ⟨client, addr, rfl⟩
  | refuses e => exact .inr (.inl ⟨e, rfl⟩)
  | receives data send => exact .inr (.inr rfl)
  | raises e => exact .inr (.inr rfl)

/-- The end of a client's event: `l` are the locals with the client and `l'` without it. -/
def settle (sock : ς) (l l' : τ) (log : List (Action ς)) :
    List (Action ς) × Fate → EStateM.Result Exn (Process ς τ) Unit
  | (sent, .stays) => .ok () ⟨l, log ++ sent⟩
  | (sent, .leaves) => .ok () ⟨l', log ++ sent ++ [.closed sock]⟩
  | (sent, .escapes e) => .error e ⟨l, log ++ sent⟩

variable {sock : ς} {y : Yield ς α} {l l' : τ} {log : List (Action ς)}

theorem not_closed_mem_outcome (x : ς) : .closed x ∉ (y.outcome sock).1 := by
  unfold Yield.outcome
  split
  · exact List.not_mem_nil
  · exact List.not_mem_nil
  · exact List.not_mem_nil
  · split
    · exact List.not_mem_nil
    · split
      · exact List.not_mem_nil
      · split <;> simp

/-- **The client branch**, for a `drop` that takes the client from the locals and closes it. -/
theorem serveClient_eq {drop : Py ς τ Unit}
    (hdrop : ∀ log, drop.run ⟨l, log⟩ = .ok () ⟨l', log ++ [.closed sock]⟩) (y : Yield ς α) :
    (serveClient drop sock y).run ⟨l, log⟩ = settle sock l l' log (y.outcome sock) := by
  -- the `except` clause, after what has been sent
  have hcatch : ∀ e sent, (if e.isDisconnect then drop else throw e : Py ς τ Unit).run ⟨l, log ++ sent⟩ =
      settle sock l l' log (sent, .ofExn e) := by
    intro e sent
    unfold Fate.ofExn
    split
    · exact hdrop _
    · rfl
  rw [serveClient, run_tryCatch]
  cases y with
  | accepts client addr => simpa [recv, run_throw, Yield.outcome] using hcatch .blockingIOError []
  | refuses e => simpa [recv, run_throw, Yield.outcome] using hcatch .blockingIOError []
  | raises e => simpa [recv, run_throw, Yield.outcome] using hcatch e []
  | receives data send =>
    by_cases hempty : data = ByteArray.empty
    · simp [recv, Yield.outcome, hempty, hdrop, settle]
    · cases htext : String.fromUTF8? data with
      | none =>
        simpa [recv, decode, run_throw, Yield.outcome, hempty, htext] using hcatch .unicodeDecodeError []
      | some text =>
        cases send with
        | completes => simp [recv, decode, sendall, act, Yield.outcome, hempty, htext, settle]
        | raises n e =>
          simpa [recv, decode, sendall, act, run_throw, Yield.outcome, hempty, htext] using
            hcatch e [.sent sock ((echo (strip text)).extract 0 n)]

end Outcome

/-! ## Handling an event -/

section React
variable {ς α τ τ' : Type}

/-- Handling an event with locals to which a client can be added, and from which it can be dropped. -/
def react (add : ς → α → τ → τ) (drop : ς → τ → τ) (sock : ς) (y : Yield ς α) : Py ς τ Unit := fun p =>
  match y with
  | .accepts client addr => .ok () ⟨add client addr p.locals, p.transcript⟩
  | .refuses e => .error e p
  | y => settle sock p.locals (drop sock p.locals) p.transcript (y.outcome sock)

def Process.map (f : τ → τ') (p : Process ς τ) : Process ς τ' := ⟨f p.locals, p.transcript⟩

variable {add : ς → α → τ → τ} {drop : ς → τ → τ} {sock : ς} {y : Yield ς α} {p : Process ς τ}

theorem react_of_client (hy : y.ofClient) :
    (react add drop sock y).run p = settle sock p.locals (drop sock p.locals) p.transcript (y.outcome sock) := by
  cases y with
  | accepts client addr => exact absurd hy Bool.false_ne_true
  | refuses e => exact absurd hy Bool.false_ne_true
  | receives data send => rfl
  | raises e => rfl

/-- What holds after an event: of a client more, of the locals as they were, and of a client dropped and closed. -/
theorem react_finalState {P : Process ς τ → Prop}
    (hadd : ∀ client addr, y = .accepts client addr → P ⟨add client addr p.locals, p.transcript⟩)
    (hstay : ∀ sent, (∀ x, .closed x ∉ sent) → P ⟨p.locals, p.transcript ++ sent⟩)
    (hdrop : y.ofClient → ∀ sent, (∀ x, .closed x ∉ sent) →
      P ⟨drop sock p.locals, p.transcript ++ sent ++ [.closed sock]⟩) :
    P (finalState ((react add drop sock y).run p)) := by
  rcases y.accepts_or with ⟨client, addr, rfl⟩ | ⟨e, rfl⟩ | hclient
  · exact hadd client addr rfl
  · have hstays := hstay [] fun _ => List.not_mem_nil
    rw [List.append_nil] at hstays
    exact hstays
  · have hsent : ∀ x, .closed x ∉ (y.outcome sock).1 := not_closed_mem_outcome
    rw [react_of_client hclient]
    rcases hout : y.outcome sock with ⟨sent, fate⟩
    rw [hout] at hsent
    cases fate with
    | stays => exact hstay sent hsent
    | leaves => exact hdrop hclient sent hsent
    | escapes e => exact hstay sent hsent

/-- Handling an event commutes with a function on the locals that `add` and `drop` commute with. -/
theorem react_map {add' : ς → α → τ' → τ'} {drop' : ς → τ' → τ'} {f : τ → τ'}
    (hadd : ∀ client addr, y = .accepts client addr → f (add client addr p.locals) = add' client addr (f p.locals))
    (hdrop : y.ofClient → f (drop sock p.locals) = drop' sock (f p.locals)) :
    (react add' drop' sock y).run (p.map f) = mapState (Process.map f) ((react add drop sock y).run p) := by
  rcases y.accepts_or with ⟨client, addr, rfl⟩ | ⟨e, rfl⟩ | hclient
  · show EStateM.Result.ok () (Process.mk (add' client addr (f p.locals)) p.transcript) =
      .ok () ⟨f (add client addr p.locals), p.transcript⟩
    rw [hadd client addr rfl]
  · rfl
  · rw [react_of_client hclient, react_of_client hclient, Process.map, ← hdrop hclient]
    rcases y.outcome sock with ⟨sent, fate⟩
    cases fate <;> rfl

/-- Whether a `sendall` ends without an exception, or with one that is caught. -/
def Send.caught : Send → Bool
  | .completes => true
  | .raises _ e => e.isDisconnect

/-- A client, or a chunk that decodes, sent or failing with one of the two errors that are caught, or one of these from
`recv`. -/
def Yield.proper : Yield ς α → Bool
  | .accepts _ _ => true
  | .refuses _ => false
  | .receives data .completes => (String.fromUTF8? data).isSome
  | .receives data (.raises _ e) => (String.fromUTF8? data).isSome && e.isDisconnect
  | .raises e => e.isDisconnect

/-- An event whose exceptions are all caught: no exception of `accept` is, an empty chunk is not decoded, and any other
has to be UTF-8 by itself. -/
def Yield.harmless : Yield ς α → Bool
  | .accepts _ _ => true
  | .refuses _ => false
  | .receives data send => data.size = 0 || (String.fromUTF8? data).isSome && send.caught
  | .raises e => e.isDisconnect

theorem harmless_of_proper (hy : y.proper) : y.harmless := by
  cases y with
  | accepts client addr => rfl
  | refuses e => exact hy
  | raises e => exact hy
  | receives data send =>
    cases send with
    | completes => simp_all [Yield.proper, Yield.harmless, Send.caught]
    | raises n e => simp_all [Yield.proper, Yield.harmless, Send.caught]

theorem raised_settle_iff {l l' : τ} {log : List (Action ς)} (sent : List (Action ς)) {e : Exn} :
    raised (settle sock l l' log (sent, .ofExn e)) = none ↔ e.isDisconnect := by
  unfold Fate.ofExn
  split
  · next he => exact iff_of_true rfl he
  · next he => exact iff_of_false (fun h => nomatch h) he

/-- **The exceptions that escape**: those of the events that are not harmless. -/
theorem raised_react_iff : raised ((react add drop sock y).run p) = none ↔ y.harmless := by
  cases y with
  | accepts client addr => exact iff_of_true rfl rfl
  | refuses e => exact iff_of_false (fun h => nomatch h) Bool.false_ne_true
  | raises e => exact raised_settle_iff []
  | receives data send =>
    show raised (settle sock _ _ _ (Yield.outcome sock (.receives data send : Yield ς α))) = none ↔ _
    simp only [Yield.outcome]
    by_cases hempty : data.size = 0
    · rw [if_pos hempty]
      exact iff_of_true rfl (by simp [Yield.harmless, hempty])
    · rw [if_neg hempty]
      cases htext : String.fromUTF8? data with
      | none =>
        rw [raised_settle_iff]
        simp [Yield.harmless, hempty, htext, Exn.isDisconnect]
      | some text =>
        cases send with
        | completes => exact iff_of_true rfl (by simp [Yield.harmless, htext, Send.caught])
        | raises n e =>
          rw [raised_settle_iff]
          simp [Yield.harmless, hempty, htext, Send.caught]

end React

/-! ## The echo server -/

/-- A server that keeps the set of the sockets it watches. -/
abbrev Echo (ς : Type) := Process ς (Finset ς)

section Echo
variable {ς α : Type} [DecidableEq ς] {server : ς}

def Echo.init (server : ς) : Echo ς := ⟨{server}, []⟩

def Echo.watches (p : Echo ς) (sock : ς) : Bool := sock ∈ p.locals

def Echo.add (client : ς) (_addr : α) (watched : Finset ς) : Finset ς := insert client watched

def Echo.drop (sock : ς) (watched : Finset ς) : Finset ς := watched.erase sock

/-- What both servers are for. -/
def echoServer (α : Type) (server : ς) : EventLoop (Echo ς) ς ς (Yield ς α) Exn (Action ς) where
  watches := Echo.watches
  poll ready p := (ready, p)
  source := id
  admits := admits server Echo.watches
  handle := react Echo.add Echo.drop
  log := Process.transcript

/-- The listening socket is watched, and no watched socket has been closed. -/
structure Echo.Inv (server : ς) (p : Echo ς) : Prop where
  listening : server ∈ p.locals
  opened : ∀ x ∈ p.locals, ¬p.Closed x

theorem admits_accepts {τ : Type} {watches : Process ς τ → ς → Bool} {p : Process ς τ} {sock client : ς} (addr : α)
    (h : admits server watches p sock (.accepts client addr)) :
    sock = server ∧ watches p client = false ∧ ¬p.Closed client := by
  simpa [admits] using h

theorem admits_refuses {τ : Type} {watches : Process ς τ → ς → Bool} {p : Process ς τ} {sock : ς} {e : Exn}
    (h : admits server watches p sock (.refuses e : Yield ς α)) : sock = server := by
  simpa [admits] using h

theorem admits_client {τ : Type} {watches : Process ς τ → ς → Bool} {p : Process ς τ} {sock : ς} {y : Yield ς α}
    (h : admits server watches p sock y) (hy : y.ofClient) : sock ≠ server := by
  cases y with
  | accepts client addr => exact absurd hy Bool.false_ne_true
  | refuses e => exact absurd hy Bool.false_ne_true
  | receives data send => simpa [admits] using h
  | raises e => simpa [admits] using h

theorem echoServer_sound :
    (echoServer α server).Sound (Echo.Inv server) fun p sock => sock ∈ p.locals where
  poll := by
    intro p ready h hw
    exact ⟨h, List.map_id ready, fun x hx => of_decide_eq_true (hw x hx)⟩
  handle := by
    intro p sock y h hsock ha
    show Echo.Inv server (finalState ((react Echo.add Echo.drop sock y).run p)) ∧
      ∀ x, x ≠ sock → x ∈ p.locals → x ∈ (finalState ((react Echo.add Echo.drop sock y).run p)).locals
    apply react_finalState (P := fun q => Echo.Inv server q ∧ ∀ x, x ≠ sock → x ∈ p.locals → x ∈ q.locals)
    · intro client addr hy
      subst hy
      obtain ⟨-, -, hopen⟩ := admits_accepts addr ha
      refine ⟨⟨Finset.mem_insert_of_mem h.listening, ?_⟩, fun x _ hx => Finset.mem_insert_of_mem hx⟩
      intro x hx
      rcases Finset.mem_insert.mp hx with rfl | hx
      · exact hopen
      · exact h.opened x hx
    · intro sent hsent
      refine ⟨⟨h.listening, ?_⟩, fun x _ hx => hx⟩
      intro x hx hclosed
      rcases List.mem_append.mp hclosed with hclosed | hclosed
      · exact h.opened x hx hclosed
      · exact hsent x hclosed
    · intro hy sent hsent
      have hne : sock ≠ server := admits_client ha hy
      refine ⟨⟨Finset.mem_erase.mpr ⟨hne.symm, h.listening⟩, ?_⟩, fun x hxs hx => Finset.mem_erase.mpr ⟨hxs, hx⟩⟩
      intro x hx hclosed
      obtain ⟨hxs, hx⟩ := Finset.mem_erase.mp hx
      rcases List.mem_append.mp hclosed with hclosed | hclosed
      · rcases List.mem_append.mp hclosed with hclosed | hclosed
        · exact h.opened x hx hclosed
        · exact hsent x hclosed
      · have he : Action.closed x = Action.closed sock := List.mem_singleton.mp hclosed
        exact hxs (Action.closed.inj he)

end Echo

end TheGrind.EchoServer
