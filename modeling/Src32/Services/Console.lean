import Src32.Services.Pipe

namespace Src32.Services

open Kernel (FndError fndOk)

namespace Console

/-!
# Input of the console service

Reads and `CON_READ_KEY` wait in one queue and are answered when keys arrive.
The service takes a message, then the keys of the devices, and then gives keys
to the waiting requests.  A client may be killed between any two replies, so
each round of the loop of `dispatch` is a step of its own.

The key ring and the waiting table are lists with the oldest entry first, and
the finished line is what is left of it.
-/

/-- `KEYS`. -/
def keysMax : Nat := 256

/-- `PENDING`. -/
def pendingMax : Nat := 16

/-- `LINE_MAX`. -/
def lineMax : Nat := 1023

/-- `FND_IPC_MAX_DATA`. -/
def ipcMaxData : Word := 4096

def fndOpenRead : Word := 1
def fndOpenWrite : Word := 2
def fndDevOpen : Word := 0x300
def fndConSetMode : Word := 0x1000
def fndConReadKey : Word := 0x1001
def fndConBreakWait : Word := 0x1002
def fndConKeyState : Word := 0x1008

/-- `FND_CON_RAW`; the other mode is `FND_CON_LINE`, 0. -/
def fndConRaw : Word := 1

/-- `FND_CON_NOWAIT`. -/
def fndConNowait : Word := 1

def fndKeyEnter : Word := 1
def fndKeyBackspace : Word := 2
def fndKeyChar : Word := 0x100
def fndModCtrl : Word := 2

/-- `FND_END`. -/
def fndEnd : Word := 1

/-- `sizeof(fnd_keyboard)`. -/
def keyboardSize : Word := 96

structure Key where
  code : Word
  ch : Word
  mods : Word
  deriving DecidableEq

/-- A character that was typed without Ctrl. -/
def Key.plain (k : Key) : Bool := k.code = fndKeyChar && k.mods &&& fndModCtrl = 0

/-- Ctrl with a character. -/
def Key.ctrl (k : Key) (ch : Word) : Bool := k.code = fndKeyChar && k.ch = ch && k.mods &&& fndModCtrl ≠ 0

/-- A stream; its badge is 0 if the record is free. -/
structure Stream where
  badge : Word
  flags : Word
  deriving DecidableEq

/-- A request that waits; `max` is what a read asks for. -/
structure Pending where
  token : Word
  badge : Word
  op : Word
  max : Nat
  deriving DecidableEq

/-- A received request. -/
structure Request where
  token : Word
  badge : Word
  op : Word
  a0 : Word
  replyCap : Word

/-- What a request that left the queue was answered. -/
inductive Outcome where
  /-- One key, as an event or as a character in RAW mode. -/
  | key (k : Key)
  /-- Bytes of the finished line. -/
  | line (bytes : List Byte)
  /-- The end of the input. -/
  | eof
  /-- The reply failed and the key went back to the queue. -/
  | returned
  /-- `FND_E_INTERRUPTED`. -/
  | interrupted
  deriving DecidableEq

/-- A request that left the queue: the keys that went into the line editor or
were skipped on its behalf, each with whether its client was still there, its
answer and whether the reply succeeded. -/
structure Served where
  token : Word
  worked : List (Key × Bool)
  outcome : Outcome
  heard : Bool
  deriving DecidableEq

/-- What the service does once it has given out the keys. -/
inductive Next where
  /-- The main loop waits for the next message. -/
  | recv
  /-- The main loop polls the keys. -/
  | poll
  /-- A request that must not wait is answered. -/
  | nowait (token : Word)
  /-- The key state is answered. -/
  | keyState (token : Word)
  deriving DecidableEq

/-- The request that is answered at once. -/
def Next.waiter : Next -> Option Word
  | .nowait token => some token
  | _ => none

/-- Where the service is. -/
inductive Phase where
  | recv
  | polling (next : Next)
  | dispatching (next : Next)
  deriving DecidableEq

/-- What follows the loop of `dispatch`, while it runs. -/
def Phase.behind : Phase -> Option Next
  | .dispatching next => some next
  | _ => none

end Console

/-- The variables of the service, the clients that are gone, and the past: the
keys that arrived, the requests that were queued, those that left the queue, the
keys taken for the oldest request and the bytes of finished lines. -/
structure Console where
  mode : Word
  streams : List Console.Stream
  nextBadge : Word
  pending : List Console.Pending
  breakToken : Word
  breakBadge : Word
  keys : List Console.Key
  edit : List Byte
  ready : List Byte
  readyEof : Bool
  phase : Console.Phase
  gone : List Word
  arrived : List Console.Key
  queued : List Word
  served : List Console.Served
  worked : List (Console.Key × Bool)
  finished : List Byte
  replies : List (Word × Word)
  deriving DecidableEq

namespace Console

/-- The service before its first message. -/
def boot : Console where
  mode := 0
  streams := List.replicate 16 ⟨0, 0⟩
  nextBadge := 0
  pending := []
  breakToken := 0
  breakBadge := 0
  keys := []
  edit := []
  ready := []
  readyEof := false
  phase := .recv
  gone := []
  arrived := []
  queued := []
  served := []
  worked := []
  finished := []
  replies := []

/-- A reply to this request succeeds: its client is still there. -/
def heard (s : Console) (token : Word) : Bool := !s.gone.contains token

def findStream (s : Console) (badge : Word) : Option Stream :=
  s.streams.find? fun stream => stream.badge ≠ 0 && stream.badge = badge

/-- A reply that gives out no input. -/
def reply (s : Console) (token result : Word) : Console := { s with replies := s.replies ++ [(token, result)] }

/-! ## Input -/

/-- UTF-8. -/
def encode (cp : Word) : List Byte :=
  if cp < 0x80 then [cp.setWidth 8]
  else if cp < 0x800 then [(0xC0 ||| cp >>> 6).setWidth 8, (0x80 ||| cp &&& 0x3F).setWidth 8]
  else if cp < 0x10000 then
    [(0xE0 ||| cp >>> 12).setWidth 8, (0x80 ||| cp >>> 6 &&& 0x3F).setWidth 8, (0x80 ||| cp &&& 0x3F).setWidth 8]
  else
    [(0xF0 ||| cp >>> 18).setWidth 8, (0x80 ||| cp >>> 12 &&& 0x3F).setWidth 8, (0x80 ||| cp >>> 6 &&& 0x3F).setWidth 8,
      (0x80 ||| cp &&& 0x3F).setWidth 8]

/-- The oldest request leaves the queue; `rest` is behind it. -/
def dropPending (s : Console) (p : Pending) (rest : List Pending) (outcome : Outcome) : Console :=
  { s with
    pending := rest
    served := s.served ++ [⟨p.token, s.worked, outcome, s.heard p.token⟩]
    worked := [] }

/-- The bytes that a read takes from the finished line, or the end. -/
def lineOutcome (s : Console) (p : Pending) : Outcome := if s.ready = [] then .eof else .line (s.ready.take p.max)

/-- `serve_ready`, once it is known to serve. -/
def serveReady (s : Console) (p : Pending) (rest : List Pending) : Console :=
  let s' := s.dropPending p rest (s.lineOutcome p)
  { s' with
    ready := s.ready.drop p.max
    readyEof := if s.ready.drop p.max = [] then false else s.readyEof }

/-- Backspace takes a whole character: continuation bytes and the byte in front
of them. -/
def erase (edit : List Byte) : List Byte := ((edit.reverse.dropWhile fun b => b &&& 0xC0 = 0x80).drop 1).reverse

/-- `line_key`. -/
def lineKey (s : Console) (k : Key) : Console :=
  if k.code = fndKeyEnter then
    { s with ready := s.edit ++ [10], edit := [], finished := s.finished ++ (s.edit ++ [10]) }
  else if k.code = fndKeyBackspace then { s with edit := erase s.edit }
  else if k.code = fndKeyChar ∧ k.mods &&& fndModCtrl ≠ 0 then
    if k.ch = 0x64 ∧ s.edit = [] then { s with readyEof := true }
    else if k.ch = 0x63 then { s with edit := [] }
    else s
  else if k.code = fndKeyChar then
    if s.edit.length + (encode k.ch).length < lineMax then { s with edit := s.edit ++ encode k.ch } else s
  else s

/-- The oldest key for the oldest request; `keys` is behind it.  A reply that
fails puts the key back. -/
def giveKey (s : Console) (p : Pending) (rest : List Pending) (k : Key) (keys : List Key) : Console :=
  let taken := { s with keys := keys }
  if p.op = fndConReadKey ∨ s.mode = fndConRaw ∧ k.plain = true then
    if s.heard p.token then taken.dropPending p rest (.key k) else s.dropPending p rest .returned
  else if s.mode = fndConRaw then { taken with worked := s.worked ++ [(k, s.heard p.token)] }
  else { taken with worked := s.worked ++ [(k, s.heard p.token)] }.lineKey k

/-- A request that must not wait takes the oldest key; `keys` is behind it. -/
def takeKey (s : Console) (token : Word) (k : Key) (keys : List Key) : Console :=
  { s with
    keys := keys
    queued := s.queued ++ [token]
    served := s.served ++ [⟨token, [], .key k, s.heard token⟩] }

/-- `CON_READ_KEY` that must not wait: a key, if no earlier request waits. -/
def answerNow (s : Console) (token : Word) : Console :=
  if s.pending ≠ [] then s.reply token fndEnd
  else
    match s.keys with
    | [] => s.reply token fndEnd
    | k :: keys => s.takeKey token k keys

/-- What follows `dispatch`. -/
def resume (s : Console) : Next -> Console
  | .recv => { s with phase := .recv }
  | .poll => { s with phase := .polling .recv }
  | .nowait token => { s with phase := .polling .recv }.answerNow token
  | .keyState token => { s with phase := .polling .recv }.reply token fndOk

/-- The finished line, or the end of the input, is there to be read. -/
def hasReady (s : Console) : Bool := s.ready ≠ [] || s.readyEof

/-- One round of the loop of `dispatch`. -/
def dispatch (s : Console) (next : Next) : Console :=
  match s.pending with
  | [] => s.resume next
  | p :: rest =>
    if p.op = fndStRead ∧ s.hasReady = true then s.serveReady p rest
    else
      match s.keys with
      | [] => s.resume next
      | k :: keys => s.giveKey p rest k keys

/-- `take_break`. -/
def takeBreak (s : Console) : Console :=
  { s.reply s.breakToken fndOk with
    breakToken := 0
    pending := []
    served := s.served ++ s.pending.map fun p => ⟨p.token, [], .interrupted, s.heard p.token⟩
    worked := []
    edit := []
    keys := [] }

/-- Ctrl+C answers a break wait. -/
def breaks (s : Console) (k : Key) : Bool := s.breakToken ≠ 0 && k.ctrl 0x63

/-- `accept_key`. -/
def acceptKey (s : Console) (k : Key) : Console :=
  let s := { s with arrived := s.arrived ++ [k] }
  if s.breaks k then s.takeBreak
  else if s.keys.length < keysMax then { s with keys := s.keys ++ [k] }
  else s

/-! ## Requests -/

/-- `dev_open`, with whether a channel could be made.  The stream is kept if the
client takes its channel. -/
def devOpen (s : Console) (r : Request) (made : Except FndError Unit) : Console :=
  if r.a0 = 0 ∨ r.a0 &&& ~~~(fndOpenRead ||| fndOpenWrite) ≠ 0 then s.reply r.token FndError.badArg.code
  else
    match s.streams.findIdx? fun stream => stream.badge = 0 with
    | none => s.reply r.token FndError.limit.code
    | some i =>
      let badge := if s.nextBadge ≥ 0x7FFFFFFF then 1 else s.nextBadge + 1
      let s := { s with nextBadge := badge }
      match made with
      | .error error => s.reply r.token error.code
      | .ok () =>
        if s.heard r.token then { s with streams := s.streams.set i ⟨badge, r.a0⟩ }.reply r.token fndOk
        else { s with streams := s.streams.set i ⟨0, r.a0⟩ }

/-- `queue`. -/
def queue (s : Console) (r : Request) (op : Word) (max : Nat) : Console :=
  if s.pending.length = pendingMax then { s with phase := .polling .recv }.reply r.token FndError.limit.code
  else
    { s with
      pending := s.pending ++ [⟨r.token, r.badge, op, max⟩]
      queued := s.queued ++ [r.token]
      phase := .dispatching .poll }

/-- The requests of a stream that take input or change how it is taken; every
other one leaves the input alone. -/
def serveStream (s : Console) (stream : Stream) (r : Request) : Console :=
  let polls := { s with phase := .polling .recv }
  if r.op = fndConKeyState then
    if stream.flags &&& fndOpenRead = 0 then polls.reply r.token FndError.access.code
    else if r.replyCap < keyboardSize then polls.reply r.token FndError.limit.code
    else { s with phase := .polling (.keyState r.token) }
  else if r.op = fndStRead then
    if stream.flags &&& fndOpenRead = 0 then polls.reply r.token FndError.access.code
    else if r.a0 = 0 ∨ r.a0 > ipcMaxData then polls.reply r.token FndError.badArg.code
    else s.queue r fndStRead (if r.a0 < r.replyCap then r.a0 else r.replyCap).toNat
  else if r.op = fndConReadKey then
    if r.a0 &&& fndConNowait = 0 then s.queue r fndConReadKey 0 else { s with phase := .polling (.nowait r.token) }
  else if r.op = fndConSetMode then
    if r.a0 > fndConRaw then polls.reply r.token FndError.badArg.code
    else { polls with mode := r.a0 }.reply r.token fndOk
  else if r.op = fndConBreakWait then
    if s.breakToken ≠ 0 then polls.reply r.token FndError.busy.code
    else { polls with breakToken := r.token, breakBadge := r.badge }
  else polls

/-- `handle`. -/
def handle (s : Console) (r : Request) (made : Except FndError Unit) : Console :=
  let polls := { s with phase := .polling .recv }
  if r.badge &&& lookupBadge ≠ 0 then
    if r.op ≠ fndDevOpen then polls.reply r.token FndError.unsupported.code else polls.devOpen r made
  else
    match s.findStream r.badge with
    | none => polls.reply r.token FndError.badHandle.code
    | some stream => s.serveStream stream r

/-- `client_gone`: the last handle of a stream closed. -/
def clientGone (s : Console) (badge : Word) : Console :=
  let s := match s.streams.findIdx? fun stream => stream.badge ≠ 0 && stream.badge = badge with
    | none => s
    | some i => { s with streams := s.streams.modify i fun stream => { stream with badge := 0 } }
  if s.breakToken ≠ 0 ∧ s.breakBadge = badge then { s with breakToken := 0 } else s

/-! ## Steps -/

/-- What happens next. -/
inductive Action where
  /-- The client of a request is killed. -/
  | kill (token : Word)
  /-- `ipc_recv` ends without a message. -/
  | timeout
  | request (r : Request) (made : Except FndError Unit)
  | clientGone (badge : Word)
  /-- A key of a device is polled. -/
  | accept (k : Key)
  /-- No more keys are polled. -/
  | polled
  /-- A round of the loop of `dispatch`. -/
  | round

/-- One step, where the service or its clients can take it. -/
def step (s : Console) : Action -> Option Console
  | .kill token => some { s with gone := token :: s.gone }
  | .timeout => if s.phase = .recv then some { s with phase := .polling .recv } else none
  | .request r made => if s.phase = .recv then some (s.handle r made) else none
  | .clientGone badge =>
    if s.phase = .recv then some { s.clientGone badge with phase := .polling .recv } else none
  | .accept k =>
    match s.phase with
    | .polling _ => some (s.acceptKey k)
    | _ => none
  | .polled =>
    match s.phase with
    | .polling next => some { s with phase := .dispatching next }
    | _ => none
  | .round =>
    match s.phase with
    | .dispatching next => some (s.dispatch next)
    | _ => none

/-- The service and its clients. -/
def machine : System Console Action where
  initial := fun s => s = boot
  step := fun s action t => s.step action = some t

end Console
end Src32.Services
