import TheGrind.EchoServer.Release

/-!
# Conversations

What a server does to a client depends on the client's own events alone, whatever the others do in between.

* `Yield.actions` : what a server does about an event of a socket;
* `clientMessage` : what a client of `run_test_clients` sends;
* `conversations` : what either server does to a socket is what the socket's own events are answered with, and nothing
  comes after its close.
-/

namespace TheGrind.EchoServer
open TheGrind.Data TheGrind.Transition TheGrind.Transition.EventLoop

/-! ## What an event is answered with -/

section Actions
variable {ς α τ : Type} {sock : ς} {y : Yield ς α}

/-- The socket that an action is about. -/
def Action.socket : Action ς → ς
  | .sent client _ => client
  | .closed sock => sock

/-- What a server does about an event of a socket. -/
def Yield.actions (sock : ς) : Yield ς α → List (Action ς)
  | .accepts _ _ | .refuses _ => []
  | y => match y.outcome sock with
    | (sent, .leaves) => sent ++ [.closed sock]
    | (sent, _) => sent

theorem actions_of_client (hy : y.ofClient) :
    y.actions sock = match y.outcome sock with
      | (sent, .leaves) => sent ++ [.closed sock]
      | (sent, _) => sent := by
  cases y with
  | accepts client addr => exact absurd hy Bool.false_ne_true
  | refuses e => exact absurd hy Bool.false_ne_true
  | receives data send => rfl
  | raises e => rfl

/-- An answer goes to the socket that the event is of. -/
theorem outcome_sent : ∀ a ∈ (y.outcome sock).1, a.socket = sock := by
  unfold Yield.outcome
  split
  · exact fun a ha => absurd ha List.not_mem_nil
  · exact fun a ha => absurd ha List.not_mem_nil
  · exact fun a ha => absurd ha List.not_mem_nil
  · split
    · exact fun a ha => absurd ha List.not_mem_nil
    · split
      · exact fun a ha => absurd ha List.not_mem_nil
      · split <;> exact fun a ha => (List.mem_singleton.mp ha) ▸ rfl

/-- The actions about an event: some answers, and a close at the end if the client is gone. -/
theorem actions_cases (y : Yield ς α) (sock : ς) : ∃ sent, (∀ a ∈ sent, a.socket = sock ∧ ∀ x, a ≠ .closed x) ∧
    (y.actions sock = sent ∨ y.actions sock = sent ++ [.closed sock]) := by
  rcases y.accepts_or with ⟨client, addr, rfl⟩ | ⟨e, rfl⟩ | hclient
  · exact ⟨[], fun a ha => absurd ha List.not_mem_nil, Or.inl rfl⟩
  · exact ⟨[], fun a ha => absurd ha List.not_mem_nil, Or.inl rfl⟩
  · have hsent : ∀ a ∈ (y.outcome sock).1, a.socket = sock ∧ ∀ x, a ≠ .closed x := fun a ha =>
      ⟨outcome_sent a ha, fun x he => not_closed_mem_outcome x (he ▸ ha)⟩
    rw [actions_of_client hclient]
    rcases hout : y.outcome sock with ⟨sent, fate⟩
    rw [hout] at hsent
    refine ⟨sent, hsent, ?_⟩
    cases fate with
    | stays => exact Or.inl rfl
    | leaves => exact Or.inr rfl
    | escapes e => exact Or.inl rfl

theorem sock_of_mem_actions {a : Action ς} (ha : a ∈ y.actions sock) : a.socket = sock := by
  obtain ⟨sent, hsent, he | he⟩ := actions_cases y sock
  · exact (hsent a (he ▸ ha)).1
  · rw [he] at ha
    rcases List.mem_append.mp ha with ha | ha
    · exact (hsent a ha).1
    · rw [List.mem_singleton.mp ha]
      rfl

/-- **An event of a socket** adds its actions to the transcript. -/
theorem transcript_react {add : ς → α → τ → τ} {drop : ς → τ → τ} {p : Process ς τ} :
    (finalState ((react add drop sock y).run p)).transcript = p.transcript ++ y.actions sock := by
  rcases y.accepts_or with ⟨client, addr, rfl⟩ | ⟨e, rfl⟩ | hclient
  · exact (List.append_nil _).symm
  · exact (List.append_nil _).symm
  · rw [react_of_client hclient, actions_of_client hclient]
    rcases y.outcome sock with ⟨sent, fate⟩
    cases fate with
    | stays => rfl
    | leaves => exact List.append_assoc _ _ _
    | escapes e => rfl

end Actions

/-! ## Conversations -/

section Conversation
variable {ς α : Type} [DecidableEq ς] {server : ς} {script : List (Input ς (Yield ς α) Exn)}

/-- What a socket yields in a script, whenever it is handled. -/
def yields (x : ς) (script : List (Input ς (Yield ς α) Exn)) : List (Yield ς α) :=
  (handledFrom [] script).filterMap fun e => if e.1 = x then some e.2 else none

/-- Of all actions, those about a socket are the ones about its own events. -/
theorem filter_actions (x : ς) : ∀ es : List (ς × Yield ς α),
    (es.flatMap fun e => e.2.actions e.1).filter (·.socket = x) =
      (es.filterMap fun e => if e.1 = x then some e.2 else none).flatMap (Yield.actions x) := by
  intro es
  induction es with
  | nil => rfl
  | cons e es ih =>
    rw [List.flatMap_cons, List.filter_append, ih, List.filterMap_cons]
    by_cases hx : e.1 = x
    · subst hx
      rw [if_pos rfl, List.flatMap_cons, List.filter_eq_self.mpr fun a ha => decide_eq_true (sock_of_mem_actions ha)]
    · rw [if_neg hx, List.filter_eq_nil_iff.mpr fun a ha he => hx ?_, List.nil_append]
      exact (sock_of_mem_actions ha).symm.trans (of_decide_eq_true he)

/-- Nothing is done to a socket after it is closed. -/
def Ends (transcript : List (Action ς)) : Prop := transcript.Pairwise fun a b => a ≠ .closed b.socket

omit [DecidableEq ς] in
theorem Ends.append {l : List (Action ς)} (h : Ends l) {sock : ς} {y : Yield ς α} (hopen : .closed sock ∉ l) :
    Ends (l ++ y.actions sock) := by
  refine List.pairwise_append.mpr ⟨h, ?_, fun a ha b hb he => ?_⟩
  · obtain ⟨sent, hsent, he | he⟩ := actions_cases y sock
    · rw [he]
      exact List.pairwise_of_forall_mem_list fun a ha b _ => (hsent a ha).2 _
    · rw [he]
      refine List.pairwise_append.mpr ⟨List.pairwise_of_forall_mem_list fun a ha b _ => (hsent a ha).2 _,
        List.pairwise_singleton _ _, fun a ha b _ => (hsent a ha).2 _⟩
  · rw [sock_of_mem_actions hb] at he
    exact hopen (he ▸ ha)

/-- What is in the transcript of a server after a script. -/
structure Conversed (script : List (Input ς (Yield ς α) Exn)) (transcript : List (Action ς)) : Prop where
  answers : ∀ x, transcript.filter (·.socket = x) = (yields x script).flatMap (Yield.actions x)
  ends : Ends transcript

/-- The echo server's conversations. -/
theorem runEchoServer_conversed {os : List (List (Action ς))} {w : State (Echo ς) ς Exn}
    (hr : runEchoServer server script = some (os, w)) : Conversed script w.locals.transcript where
  answers x := by
    have hlog := log_run (L := echoServer α server) (f := fun sock y => y.actions sock) echoServer_sound
      (fun _ _ => rfl) (fun _ _ _ => transcript_react) echoServer_init hr
    have htranscript : w.locals.transcript = (handledFrom [] script).flatMap fun e => e.2.actions e.1 := hlog
    rw [htranscript]
    exact filter_actions x _
  ends := by
    refine (Machine.run_invariant (P := fun w => (echoServer α server).Holds (Echo.Inv server)
      (fun p sock => sock ∈ p.locals) w ∧ Ends w.locals.transcript) ?_ ⟨echoServer_init, List.Pairwise.nil⟩ hr).2
    intro s a o t hP hstep
    refine ⟨echoServer_sound.step hP.1 hstep, ?_⟩
    cases a with
    | poll ready =>
      obtain ⟨-, -, rfl⟩ := step_poll_iff.mp hstep
      exact hP.2
    | fails e =>
      obtain ⟨-, -, rfl⟩ := step_fails_iff.mp hstep
      exact hP.2
    | event y =>
      obtain ⟨sock, socks, ⟨-, hb, -⟩, -, rfl⟩ := step_event_iff.mp hstep
      have hsock : sock ∈ s.locals.locals := hP.1.pending sock (hb ▸ List.mem_cons_self)
      show Ends (finalState ((react Echo.add Echo.drop sock y).run s.locals)).transcript
      rw [transcript_react]
      exact hP.2.append (hP.1.inv.opened sock hsock)

end Conversation

/-! ## The test clients -/

section Client

/-- What a client of `run_test_clients` sends. -/
def clientMessage (clientId : Nat) (serverLabel : String) : String :=
  "Hello from client " ++ toString clientId ++ " to " ++ serverLabel

theorem fromUTF8?_toUTF8 (s : String) : String.fromUTF8? s.toUTF8 = some s := by
  unfold String.fromUTF8?
  exact dif_pos s.isValidUTF8

/-- The line break at the end of a message is stripped with the blanks before it. -/
theorem strip_line (msg : String) : strip (msg ++ "\n") = strip msg := by
  have hspace : isspace '\n' = true := rfl
  unfold strip
  rw [String.toList_append, List.dropWhile_append]
  congr 1
  split
  · next hempty =>
    rw [List.isEmpty_iff.mp hempty]
    rfl
  · exact List.rdropWhile_concat_pos _ _ _ hspace

theorem size_line_ne_zero (msg : String) : (msg ++ "\n").toUTF8.size ≠ 0 := by
  show (msg ++ "\n").utf8ByteSize ≠ 0
  rw [String.utf8ByteSize_append]
  exact Nat.succ_ne_zero _

/-- A line that arrives in one piece is answered with its message. -/
theorem actions_line {ς α : Type} (x : ς) (msg : String) :
    (Yield.receives (msg ++ "\n").toUTF8 .completes : Yield ς α).actions x = [.sent x (echo (strip msg))] := by
  have hout : (Yield.receives (msg ++ "\n").toUTF8 .completes : Yield ς α).outcome x =
      ([.sent x (echo (strip msg))], .stays) := by
    simp only [Yield.outcome, if_neg (size_line_ne_zero msg), fromUTF8?_toUTF8, strip_line]
  rw [actions_of_client rfl, hout]

end Client

/-! ## What the servers have sent -/

section Servers
variable {ς α : Type} [DecidableEq ς]

/-- A client that sends its line and hangs up: the line arrives in one piece, and then the end of the stream. -/
def clientTask (clientId : Nat) (serverLabel : String) : List (Yield ς α) :=
  [.receives (clientMessage clientId serverLabel ++ "\n").toUTF8 .completes, .receives ByteArray.empty .completes]

/-- **Conversations.** In every run of either server, whatever it does for the others: what it does to a socket is what
that socket's own events are answered with, in their order, and nothing is done to a socket after it is closed. So a
test client gets its message back, and its socket is closed. -/
theorem conversations (server : ς) (script : List (Input ς (Yield ς α) Exn)) :
    (∀ os s, runSelectServer server script = some (os, s) → Conversed script s.locals.transcript) ∧
    (∀ os s, runSelectorsServer server script = some (os, s) → Conversed script s.locals.transcript) ∧
    ∀ transcript, Conversed script transcript → ∀ x clientId serverLabel,
      yields x script = clientTask clientId serverLabel → transcript.filter (·.socket = x) =
        [.sent x (echo (strip (clientMessage clientId serverLabel))), .closed x] := by
  refine ⟨fun os s hr => ?_, fun os s hr => ?_, fun transcript h x clientId serverLabel hx => ?_⟩
  · have hecho : runEchoServer server script = _ := runSelectServer_refines.trans (congrArg _ hr)
    exact runEchoServer_conversed hecho
  · have hecho : runEchoServer server script = _ := runSelectorsServer_refines.trans (congrArg _ hr)
    exact runEchoServer_conversed hecho
  · rw [h.answers, hx, clientTask, List.flatMap_cons, actions_line]
    rfl

/-- Two test clients whose events are handled in turns. -/
def twoClients : List (Input Nat (Yield Nat Nat) Exn) :=
  [.poll [0], .event (.accepts 1 70), .poll [0], .event (.accepts 2 71), .poll [2, 1],
    .event (.receives (clientMessage 1 "SELECT" ++ "\n").toUTF8 .completes),
    .event (.receives (clientMessage 0 "SELECT" ++ "\n").toUTF8 .completes), .poll [1, 2],
    .event (.receives ByteArray.empty .completes), .event (.receives ByteArray.empty .completes)]

theorem conversations_example : ∃ os s, runSelectServer 0 twoClients = some (os, s) ∧
    s.locals.transcript.filter (·.socket = 1) =
      [.sent 1 (echo (strip (clientMessage 0 "SELECT"))), .closed 1] ∧
    s.locals.transcript.filter (·.socket = 2) =
      [.sent 2 (echo (strip (clientMessage 1 "SELECT"))), .closed 2] := by
  have hrun : (runSelectServer 0 twoClients).isSome := by decide +kernel
  obtain ⟨⟨os, s⟩, hr⟩ := Option.isSome_iff_exists.mp hrun
  obtain ⟨hselect, -, hclient⟩ := conversations 0 twoClients
  have hconversed := hselect os s hr
  exact ⟨os, s, hr, hclient _ hconversed 1 0 "SELECT" rfl, hclient _ hconversed 2 1 "SELECT" rfl⟩

end Servers

end TheGrind.EchoServer
