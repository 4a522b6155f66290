import Mathlib
import TheGrind.Data.Dict
import TheGrind.Transition.EventLoop

/-!
# The echo servers (`04a-select-vs-epoll.py`)

`run_select_server` passes the list `all_sockets` to every `select()`; `run_selectors_server` registers each socket once
and counts the registrations by hand. Both handle one ready socket after another: the listening socket accepts a client,
a client's bytes are echoed, and a client that is gone is closed.

* `Yield` : what the next ready socket yields, decided by the network: the accepted client or an exception of `accept`,
  the bytes with the outcome of `sendall`, or an exception of `recv`;
* `Process` : a server's locals and the transcript of what it has sent and closed;
* `selectServer`, `selectorsServer` : the two servers as event loops.

A handler runs in `Py`, where an exception keeps the state reached when it was raised.
-/

namespace TheGrind.EchoServer
open TheGrind.Data TheGrind.Transition TheGrind.Transition.EventLoop

/-! ## Strings -/

/-- `str.isspace` of one character. -/
def isspace (c : Char) : Bool :=
  let n := c.toNat
  (0x09 ≤ n && n ≤ 0x0d) || (0x1c ≤ n && n ≤ 0x20) || n == 0x85 || n == 0xa0 || n == 0x1680 ||
    (0x2000 ≤ n && n ≤ 0x200a) || n == 0x2028 || n == 0x2029 || n == 0x202f || n == 0x205f || n == 0x3000

/-- `str.strip()` -/
def strip (s : String) : String := String.ofList ((s.toList.dropWhile isspace).rdropWhile isspace)

/-- `f"echo: {msg}\n".encode()` -/
def echo (msg : String) : ByteArray := ("echo: " ++ msg ++ "\n").toUTF8

/-! ## Sockets -/

/-- The exceptions that polls and the calls of the handlers raise; `osError` is any other error of a system call. -/
inductive Exn
  | connectionResetError
  | brokenPipeError
  | blockingIOError
  | osError
  | unicodeDecodeError
  | valueError
  | keyError
  deriving DecidableEq, Repr

/-- Whether `except (ConnectionResetError, BrokenPipeError)` catches the exception. -/
def Exn.isDisconnect : Exn → Bool
  | .connectionResetError | .brokenPipeError => true
  | _ => false

/-- How a `sendall` ends: all bytes sent, or an exception after some of them. -/
inductive Send
  | completes
  | raises (sent : Nat) (e : Exn)

/-- What a ready socket yields. The listening socket: a client, or an exception before the client is watched, of
`accept` or of the kernel's own registration. A client: bytes and how sending the answer ends, or an exception of
`recv`. -/
inductive Yield (ς α : Type)
  | accepts (client : ς) (addr : α)
  | refuses (e : Exn)
  | receives (data : ByteArray) (send : Send)
  | raises (e : Exn)

/-- What a server does to its sockets. -/
inductive Action (ς : Type)
  | sent (client : ς) (bytes : ByteArray)
  | closed (sock : ς)
  deriving DecidableEq

/-- A server: its locals, and what it has sent and closed so far. -/
structure Process (ς τ : Type) where
  locals : τ
  transcript : List (Action ς)

/-- The socket has been closed. -/
def Process.Closed {ς τ : Type} (p : Process ς τ) (sock : ς) : Prop := .closed sock ∈ p.transcript

instance {ς τ : Type} [DecidableEq ς] (p : Process ς τ) (sock : ς) : Decidable (p.Closed sock) :=
  inferInstanceAs (Decidable (_ ∈ _))

/-- Computations of a server. -/
abbrev Py (ς τ : Type) := EStateM Exn (Process ς τ)

section Calls
variable {ς α τ : Type}

def act (a : Action ς) : Py ς τ Unit := modify fun p => { p with transcript := p.transcript ++ [a] }

/-- `server.accept()` on a non-blocking socket -/
def accept : Yield ς α → Py ς τ (ς × α)
  | .accepts client addr => pure (client, addr)
  | .refuses e => throw e
  | _ => throw .blockingIOError

/-- `sock.recv(1024)` on a non-blocking socket -/
def recv : Yield ς α → Py ς τ ByteArray
  | .accepts _ _ | .refuses _ => throw .blockingIOError
  | .receives data _ => pure data
  | .raises e => throw e

/-- `data.decode()` -/
def decode (data : ByteArray) : Py ς τ String :=
  match String.fromUTF8? data with
  | some text => pure text
  | none => throw .unicodeDecodeError

/-- `sock.sendall(data)` -/
def sendall (sock : ς) (data : ByteArray) : Yield ς α → Py ς τ Unit
  | .receives _ (.raises sent e) => do
    act (.sent sock (data.extract 0 sent))
    throw e
  | _ => act (.sent sock data)

/-- `sock.close()` -/
def close (sock : ς) : Py ς τ Unit := act (.closed sock)

/-- What both servers do with a ready client. `drop` takes it from the watched sockets and closes it. -/
def serveClient (drop : Py ς τ Unit) (sock : ς) (y : Yield ς α) : Py ς τ Unit := do
  try
    let data ← recv y
    if data.size ≠ 0 then
      let msg := strip (← decode data)
      sendall sock (echo msg) y
    else drop
  catch e =>
    if e.isDisconnect then drop else throw e

end Calls

/-- What a ready socket can yield: the listening socket a client with a socket of its own, or an exception of `accept`,
a client the rest. -/
def admits {ς α τ : Type} [DecidableEq ς] (server : ς) (watches : Process ς τ → ς → Bool) (p : Process ς τ) (sock : ς) :
    Yield ς α → Bool
  | .accepts client _ => sock = server ∧ ¬watches p client ∧ ¬p.Closed client
  | .refuses _ => sock = server
  | .receives _ _ | .raises _ => sock ≠ server

/-! ## `run_select_server` -/

/-- The locals of `run_select_server`. -/
structure SelectServer (ς : Type) where
  allSockets : List ς
  totalSelectCalls : Nat
  totalSocketsChecked : Nat

namespace SelectServer
variable {ς α : Type} [DecidableEq ς]

def init (server : ς) : Process ς (SelectServer ς) := ⟨⟨[server], 0, 0⟩, []⟩

def watches (p : Process ς (SelectServer ς)) (sock : ς) : Bool := sock ∈ p.locals.allSockets

/-- `all_sockets.append(sock)` -/
def append (sock : ς) : Py ς (SelectServer ς) Unit :=
  modify fun p => { p with locals.allSockets := p.locals.allSockets ++ [sock] }

/-- `all_sockets.remove(sock)` -/
def remove (sock : ς) : Py ς (SelectServer ς) Unit := do
  let p ← get
  if sock ∈ p.locals.allSockets then
    set { p with locals.allSockets := p.locals.allSockets.erase sock }
  else throw .valueError

/-- `readable, _, _ = select.select(all_sockets, [], [], 0.1)` and the counters. A call that raises, say because a
descriptor is `FD_SETSIZE` or more, is the input `fails` of the loop. -/
def select (readable : List ς) (p : Process ς (SelectServer ς)) : List ς × Process ς (SelectServer ς) :=
  (readable, { p with
    locals.totalSelectCalls := p.locals.totalSelectCalls + 1
    locals.totalSocketsChecked := p.locals.totalSocketsChecked + p.locals.allSockets.length })

/-- The body of `for sock in readable`. -/
def handle (server sock : ς) (y : Yield ς α) : Py ς (SelectServer ς) Unit := do
  if sock = server then
    let (client, _addr) ← accept y
    append client
  else
    serveClient (do remove sock; close sock) sock y

end SelectServer

/-- The loop of `run_select_server`. -/
def selectServer {ς : Type} (α : Type) [DecidableEq ς] (server : ς) :
    EventLoop (Process ς (SelectServer ς)) ς ς (Yield ς α) Exn (Action ς) where
  watches := SelectServer.watches
  poll := SelectServer.select
  source := id
  admits := admits server SelectServer.watches
  handle := SelectServer.handle server
  log := Process.transcript

/-- The loop of `run_select_server` over a script, from its start. -/
def runSelectServer {ς α : Type} [DecidableEq ς] (server : ς) (script : List (Input ς (Yield ς α) Exn)) :
    Option (List (List (Action ς)) × State (Process ς (SelectServer ς)) ς Exn) :=
  (selectServer α server).machine.run (.start (SelectServer.init server)) script

/-! ## `run_selectors_server` -/

/-- The `data` a socket is registered with: `"server"`, or the client's address. -/
inductive KeyData (α : Type)
  | server
  | addr (a : α)
  deriving DecidableEq

/-- What the selector reports of a ready socket. -/
structure SelectorKey (ς α : Type) where
  fileobj : ς
  data : KeyData α

/-- The locals of `run_selectors_server`: the sockets registered with `sel`, and the counters. -/
structure SelectorsServer (ς α : Type) where
  sel : Dict ς (KeyData α)
  registeredCount : Int
  totalSelectCalls : Nat

namespace SelectorsServer
variable {ς α : Type} [DecidableEq ς]

def init (server : ς) : Process ς (SelectorsServer ς α) := ⟨⟨Dict.empty.set server .server, 1, 0⟩, []⟩

def watches (p : Process ς (SelectorsServer ς α)) (sock : ς) : Bool := sock ∈ p.locals.sel.keys

/-- `sel.register(sock, EVENT_READ, data=data)` -/
def register (sock : ς) (data : KeyData α) : Py ς (SelectorsServer ς α) Unit := do
  let p ← get
  if sock ∈ p.locals.sel.keys then throw .keyError
  else set { p with locals.sel := p.locals.sel.set sock data }

/-- `sel.unregister(sock)` -/
def unregister (sock : ς) : Py ς (SelectorsServer ς α) Unit := do
  let p ← get
  match p.locals.sel.del sock with
  | .ok sel => set { p with locals.sel := sel }
  | .error _ => throw .keyError

/-- `registered_count += n` -/
def count (n : Int) : Py ς (SelectorsServer ς α) Unit :=
  modify fun p => { p with locals.registeredCount := p.locals.registeredCount + n }

/-- `events = sel.select(timeout=0.1)` and the counter -/
def select (ready : List ς) (p : Process ς (SelectorsServer ς α)) :
    List (SelectorKey ς α) × Process ς (SelectorsServer ς α) :=
  (ready.filterMap fun sock => (p.locals.sel.get? sock).map (SelectorKey.mk sock),
    { p with locals.totalSelectCalls := p.locals.totalSelectCalls + 1 })

/-- The body of `for selector_key, event_mask in events`. -/
def handle (selectorKey : SelectorKey ς α) (y : Yield ς α) : Py ς (SelectorsServer ς α) Unit := do
  match selectorKey.data with
  | .server =>
    let (client, addr) ← accept y
    register client (.addr addr)
    count 1
  | .addr _ =>
    let sock := selectorKey.fileobj
    serveClient (do unregister sock; count (-1); close sock) sock y

end SelectorsServer

/-- The loop of `run_selectors_server`. -/
def selectorsServer {ς α : Type} [DecidableEq ς] (server : ς) :
    EventLoop (Process ς (SelectorsServer ς α)) ς (SelectorKey ς α) (Yield ς α) Exn (Action ς) where
  watches := SelectorsServer.watches
  poll := SelectorsServer.select
  source := SelectorKey.fileobj
  admits p k := admits server SelectorsServer.watches p k.fileobj
  handle := SelectorsServer.handle
  log := Process.transcript

/-- The loop of `run_selectors_server` over a script, from its start. -/
def runSelectorsServer {ς α : Type} [DecidableEq ς] (server : ς) (script : List (Input ς (Yield ς α) Exn)) :
    Option (List (List (Action ς)) × State (Process ς (SelectorsServer ς α)) (SelectorKey ς α) Exn) :=
  (selectorsServer server).machine.run (.start (SelectorsServer.init server)) script

end TheGrind.EchoServer
