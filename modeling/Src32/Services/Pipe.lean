import Src32.Lib.Ring
import Src32.Lib.Runs
import Src32.Kernel.Status

namespace Src32.Services

/-!
# The pipe service

Anonymous pipes behind the stream protocol.  An end is a channel of the
service's port whose badge names it, and CLIENT_GONE of the badge closes it.
Reads and writes wait in one table and are answered when data or room arrives;
a write waits until the whole of it fits.

What comes from outside is part of an action: whether a channel can be made, and
whether the caller of a request is still there when it is answered.
-/

open Kernel (FndError fndOk)

/-- One of the `PIPES` pipes. -/
abbrev PipeIx := Fin 16

/-- One of the `PENDING` requests that wait. -/
abbrev PendingIx := Fin 16

/-- A pipe that was opened in a record, by number. -/
abbrev PipeNo := PipeIx × Nat

/-- `PIPE_SIZE`, which is `FND_IPC_MAX_DATA`. -/
def pipeSize : Nat := 4096

/-- `LOOKUP_BADGE`. -/
def lookupBadge : Word := 0x80000000

/-- `FND_ST_READ`. -/
def fndStRead : Word := 1

/-- `FND_ST_WRITE`. -/
def fndStWrite : Word := 2

/-- `FND_ST_STAT`. -/
def fndStStat : Word := 4

/-- `FND_ST_SYNC`. -/
def fndStSync : Word := 6

/-- `FND_PIPE_OPEN`. -/
def fndPipeOpen : Word := 0x400

/-- A pipe.  Its id is 0 if it is free, and a badge is 0 if the end is not
open. -/
structure Pipe where
  id : Word
  readBadge : Word
  writeBadge : Word
  ring : Ring Byte

/-- A request that waits.  The badge is 0 if the record is free; `max` is what
a read asks for and what a write has in `wbuf`. -/
structure Pending where
  token : Word
  badge : Word
  op : Word
  max : Nat
  wbuf : List Byte
  deriving DecidableEq

/-- What a caller is answered. -/
structure Reply where
  result : Word
  a0 : Word
  data : List Byte
  deriving DecidableEq

/-- What the service has done. -/
inductive Event where
  /-- A request that waited at a pipe was answered, and whether its caller was
  still there.  `left` bytes stayed in the pipe, and `writer` says whether the
  write end was open. -/
  | settled (pipe : PipeNo) (request : Pending) (reply : Reply) (heard : Bool) (left : Nat) (writer : Bool)
  /-- A request was answered at once. -/
  | replied (token : Word) (reply : Reply)
  deriving DecidableEq

/-- The records of the service, and its past: the pipes opened in a record and
the events, the first one first. -/
structure PipeService where
  pipes : PipeIx -> Pipe
  pending : PendingIx -> Pending
  nextId : Word
  nextBadge : Word
  opened : PipeIx -> Nat
  events : List Event

/-- A received request. -/
structure Request where
  token : Word
  badge : Word
  op : Word
  a0 : Word
  a1 : Word
  data : List Byte
  replyCap : Word

namespace PipeService

/-- The service before its first request. -/
def boot : PipeService where
  pipes := fun _ => ⟨0, 0, 0, ⟨0, 0, fun _ => 0⟩⟩
  pending := fun _ => ⟨0, 0, 0, 0, []⟩
  nextId := 0
  nextBadge := 0
  opened := fun _ => 0
  events := []

def modifyPipe (s : PipeService) (p : PipeIx) (change : Pipe -> Pipe) : PipeService :=
  { s with pipes := Function.update s.pipes p (change (s.pipes p)) }

def modifyPending (s : PipeService) (i : PendingIx) (change : Pending -> Pending) : PipeService :=
  { s with pending := Function.update s.pending i (change (s.pending i)) }

/-- The pipe a record holds now. -/
def pipeNo (s : PipeService) (p : PipeIx) : PipeNo := (p, s.opened p)

def reply (s : PipeService) (token result a0 : Word) (data : List Byte) : PipeService :=
  { s with events := s.events ++ [.replied token ⟨result, a0, data⟩] }

def byBadge (s : PipeService) (badge : Word) : Option (PipeIx × Bool) :=
  if badge = 0 then none
  else (List.finRange 16).findSome? fun i =>
    if (s.pipes i).id ≠ 0 ∧ (s.pipes i).readBadge = badge then some (i, false)
    else if (s.pipes i).id ≠ 0 ∧ (s.pipes i).writeBadge = badge then some (i, true)
    else none

/-- The next value of a counter for ids or badges. -/
def following (last : Word) : Word := if last ≥ 0x7FFFFFFF then 1 else last + 1

/-- A request that waited is answered. -/
def answer (s : PipeService) (heard : PendingIx -> Bool) (p : PipeIx) (i : PendingIx) (result a0 : Word)
    (data : List Byte) : PipeService :=
  { s.modifyPending i fun q => { q with badge := 0 } with
    events := s.events ++ [.settled (s.pipeNo p) (s.pending i) ⟨result, a0, data⟩ (heard i) (s.pipes p).ring.count
      (decide ((s.pipes p).writeBadge ≠ 0))] }

/-- One round of the loop of `settle`. -/
def settleOne (heard : PendingIx -> Bool) (p : PipeIx) (s : PipeService) (i : PendingIx) : PipeService :=
  let pipe := s.pipes p
  let q := s.pending i
  if q.badge = 0 then s
  else if q.op = fndStRead ∧ q.badge = pipe.readBadge then
    if pipe.ring.count ≠ 0 then
      let n := if pipe.ring.count < q.max then pipe.ring.count else q.max
      let out := pipe.ring.front pipeSize n
      (s.modifyPipe p fun pipe => { pipe with ring := pipe.ring.take pipeSize n }).answer heard p i fndOk 0 out
    else if pipe.writeBadge = 0 then s.answer heard p i fndOk 0 []
    else s
  else if q.op = fndStWrite ∧ q.badge = pipe.writeBadge then
    if pipe.readBadge = 0 then s.answer heard p i FndError.peerGone.code 0 []
    else if pipe.ring.count + q.max ≤ pipeSize then
      (s.modifyPipe p fun pipe => { pipe with ring := pipe.ring.put pipeSize (q.wbuf.take q.max) }).answer heard p i
        fndOk (BitVec.ofNat 32 q.max) []
    else s
  else s

/-- Answers every waiting request that the pipe's state now settles. -/
def settle (heard : PendingIx -> Bool) (s : PipeService) (p : PipeIx) : PipeService :=
  (List.finRange 16).foldl (settleOne heard p) s

/-- One round of `settle_all`. -/
def settleRound (heard : PendingIx -> Bool) (s : PipeService) : PipeService :=
  (List.finRange 16).foldl (fun s p => if (s.pipes p).id ≠ 0 then s.settle heard p else s) s

/-- A read that was answered may make room for a write, and the reverse. -/
def settleAll (heard : PendingIx -> Bool) (s : PipeService) : PipeService := (s.settleRound heard).settleRound heard

/-- The first record that is free. -/
def freePending (s : PipeService) : Option PendingIx := (List.finRange 16).find? fun i => (s.pending i).badge = 0

/-- The request is put in record `i`. -/
def queue (s : PipeService) (i : PendingIx) (r : Request) (op : Word) (max : Nat) : PipeService :=
  s.modifyPending i fun q => { q with token := r.token, badge := r.badge, op := op, max := max }

/-- A new pipe with its read end. -/
def openPipe (s : PipeService) (p : PipeIx) : PipeService :=
  { s with
    nextId := following s.nextId
    nextBadge := following s.nextBadge
    pipes := Function.update s.pipes p ⟨following s.nextId, following s.nextBadge, 0, ⟨0, 0, fun _ => 0⟩⟩
    opened := Function.update s.opened p (s.opened p + 1) }

/-- `PIPE_OPEN` on a lookup channel.  The channel is made or not, and the caller
is there to take it or not. -/
def pipeOpen (s : PipeService) (r : Request) (made : Except FndError Unit) (taken : Bool) :
    Except FndError Unit × PipeService :=
  if r.a0 = 0 then
    match (List.finRange 16).find? fun i => (s.pipes i).id = 0 with
    | none => (.error .limit, s)
    | some p =>
      let s := s.openPipe p
      match made with
      | .error error => (.error error, s.modifyPipe p fun pipe => { pipe with id := 0 })
      | .ok () =>
        if taken then (.ok (), s.reply r.token fndOk (s.pipes p).id [])
        else (.ok (), s.modifyPipe p fun pipe => { pipe with id := 0 })
  else if r.a0 ≠ 1 then (.error .badArg, s)
  else
    match (List.finRange 16).find? fun i => (s.pipes i).id = r.a1 && r.a1 ≠ 0 with
    | none => (.error .notFound, s)
    | some p =>
      if (s.pipes p).writeBadge ≠ 0 then (.error .notFound, s)
      else
        let badge := following s.nextBadge
        let s := { s with nextBadge := badge }
        match made with
        | .error error => (.error error, s)
        | .ok () =>
          if taken then
            (.ok (), (s.reply r.token fndOk (s.pipes p).id []).modifyPipe p fun pipe => { pipe with writeBadge := badge })
          else (.ok (), s)

/-- The `fnd_stat` of an end. -/
def stat (isWrite : Bool) : List Byte :=
  [0, 0, 0, 5, 0, 0, 0, if isWrite then 0x12 else 0x24] ++ List.replicate 56 0

/-- How `handle` leaves a request: answered now or later, or with a result. -/
def handle (s : PipeService) (r : Request) (made : Except FndError Unit) (taken : Bool) (heard : PendingIx -> Bool) :
    Option (Except FndError Unit) × PipeService :=
  if r.badge &&& lookupBadge ≠ 0 then
    if r.op ≠ fndPipeOpen then (some (.error .unsupported), s)
    else
      match s.pipeOpen r made taken with
      | (.ok (), s) => (none, s)
      | (.error error, s) => (some (.error error), s)
  else
    match s.byBadge r.badge with
    | none => (some (.error .badHandle), s)
    | some (_, isWrite) =>
      if r.op = fndStRead then
        if isWrite then (some (.error .access), s)
        else if r.a0 = 0 ∨ r.a0.toNat > pipeSize then (some (.error .badArg), s)
        else
          match s.freePending with
          | none => (some (.error .limit), s)
          | some i =>
            let max := if r.a0 < r.replyCap then r.a0.toNat else r.replyCap.toNat
            (none, (s.queue i r fndStRead max).settleAll heard)
      else if r.op = fndStWrite then
        if !isWrite then (some (.error .access), s)
        else if r.data.length > pipeSize then (some (.error .badArg), s)
        else if r.data.length = 0 then (none, s.reply r.token fndOk 0 [])
        else
          match s.freePending with
          | none => (some (.error .limit), s)
          | some i =>
            (none, ((s.queue i r fndStWrite r.data.length).modifyPending i fun q =>
              { q with wbuf := r.data }).settleAll heard)
      else if r.op = fndStStat then (none, s.reply r.token fndOk 0 (stat isWrite))
      else if r.op = fndStSync then (some (.ok ()), s)
      else (some (.error .unsupported), s)

/-- The requests of an end go. -/
def dropEnd (s : PipeService) (badge : Word) : PipeService :=
  { s with pending := fun i => if (s.pending i).badge = badge then { s.pending i with badge := 0 } else s.pending i }

/-- An end is closed. -/
def closeEnd (s : PipeService) (p : PipeIx) (isWrite : Bool) (badge : Word) : PipeService :=
  (s.modifyPipe p fun pipe => if isWrite then { pipe with writeBadge := 0 } else { pipe with readBadge := 0 }).dropEnd badge

/-- CLIENT_GONE: the last handle of an end closed. -/
def clientGone (s : PipeService) (badge : Word) (heard : PendingIx -> Bool) : PipeService :=
  match s.byBadge badge with
  | none => s
  | some (p, isWrite) =>
    let s := (s.closeEnd p isWrite badge).settle heard p
    if (s.pipes p).readBadge = 0 ∧ (s.pipes p).writeBadge = 0 then s.modifyPipe p fun pipe => { pipe with id := 0 } else s

/-- What the service receives. -/
inductive Action where
  | request (r : Request) (made : Except FndError Unit) (taken : Bool) (heard : PendingIx -> Bool)
  | gone (badge : Word) (heard : PendingIx -> Bool)
  /-- Another notification, or a receive that failed. -/
  | other

/-- One round of the service's loop. -/
def serve (s : PipeService) : Action -> PipeService
  | .request r made taken heard =>
    match s.handle r made taken heard with
    | (none, s) => s
    | (some (.ok ()), s) => s.reply r.token fndOk 0 []
    | (some (.error error), s) => s.reply r.token error.code 0 []
  | .gone badge heard => s.clientGone badge heard
  | .other => s

/-- The service as a transition system. -/
def machine : System PipeService Action where
  initial := fun s => s = boot
  step := fun s action next => next = s.serve action

end PipeService
end Src32.Services
