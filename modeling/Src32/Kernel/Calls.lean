import Src32.Kernel.Handles

namespace Src32.Kernel

/-!
# Calls and replies

`ipc.c` from `token_of` to `ipc_timed_out`, and the services.  A system call
takes what user memory holds and what the range checks answer while it runs.
-/

/-! ## Messages -/

/-- `FND_MSG_XFER_HANDLE`. -/
def fndMsgXferHandle : Word := 1

/-- The message transfers a handle. -/
def Msg.transfers (msg : Msg) : Bool := msg.flags &&& fndMsgXferHandle ≠ 0

namespace Ipc

/-- `FND_IPC_MAX_DATA`. -/
def fndIpcMaxData : Word := 4096

/-- `sizeof(fnd_msg)`. -/
def msgSize : Word := 32

/-- `sizeof(fnd_recv)`. -/
def recvSize : Word := 64

/-- `user_struct`: aligned and inside regions with the permission. -/
def userStruct (mem : UserMemory) (proc : ProcId) (addr size perm : Word) : Except FndError Unit :=
  if addr &&& 3 ≠ 0 then .error .badArg else if mem.rangeOk proc addr size perm then .ok () else .error .access

/-- The `fnd_msg` at an address. -/
def msgAt (mem : UserMemory) (proc : ProcId) (addr : Word) : Msg where
  op := mem.word proc addr
  flags := mem.word proc (addr + 4)
  a0 := mem.word proc (addr + 8)
  a1 := mem.word proc (addr + 12)
  a2 := mem.word proc (addr + 16)
  a3 := mem.word proc (addr + 20)
  buf := mem.word proc (addr + 24)
  len := mem.word proc (addr + 28)

/-- `read_msg`: a message and its data are valid for sending. -/
def readMsg (mem : UserMemory) (proc : ProcId) (addr : Word) : Except FndError Msg := do
  userStruct mem proc addr msgSize permR
  let msg := msgAt mem proc addr
  if msg.flags &&& ~~~fndMsgXferHandle ≠ 0 then .error .badArg
  else if msg.len > fndIpcMaxData then .error .limit
  else if !mem.rangeOk proc msg.buf msg.len permR then .error .access
  else .ok msg

/-- `token_of`: 1 + the slot of the thread and the generation of its call. -/
def tokenOf (k : Ipc) (t : ThreadId) : Word := BitVec.ofNat 32 (t.val + 1) ||| (k.thread t).gen <<< 8

/-! ## Delivering a request -/

/-- The process the threads of a system call or a wait belong to. -/
def procOf (k : Ipc) (t : ThreadId) : ProcId := ((k.thread t).proc).getD 0

/-- The handle of a request moves to the receiver. -/
def transferCall (k : Ipc) (receiver caller : ThreadId) : Except FndError Word × Ipc :=
  if (k.thread caller).req.transfers then
    k.handleMove (k.procOf caller) (k.thread caller).req.a3 (k.procOf receiver)
  else (.ok 0, k)

/-- The caller waits for the answer of the receiver's process. -/
def acceptCall (k : Ipc) (receiver caller : ThreadId) : Ipc :=
  let waiting := k.modifyThread caller fun thread =>
    { thread with reason := .reply, waitProc := (k.thread receiver).proc }
  waiting.note (.request (k.history.via caller) (k.thread caller).badge (k.history.call caller) (k.tokenOf caller)
    (k.process (k.procOf receiver)))

/-- The data of a request goes to the address and the capacity found in the
`fnd_recv` of the receiver now. -/
def copyCall (mem : UserMemory) (k : Ipc) (receiver caller : ThreadId) : Ipc :=
  let rcv := (k.thread receiver).rcv
  let data := mem.word (k.procOf receiver) (rcv + 32)
  let cap := mem.word (k.procOf receiver) (rcv + 36)
  let len := if (k.thread caller).req.len < cap then (k.thread caller).req.len else cap
  let read := k.touch (k.thread caller).proc (k.thread caller).req.buf len permR
  (read.touch (k.thread receiver).proc data len permW).writeRecv receiver

/-- `deliver_call`: the error is for the caller. -/
def deliverCall (mem : UserMemory) (k : Ipc) (receiver caller : ThreadId) : Except FndError Unit × Ipc :=
  let read := k.touch (k.thread receiver).proc (k.thread receiver).rcv recvSize permR
  match read.transferCall receiver caller with
  | (.error error, k) => (.error error, k)
  | (.ok _, k) => (.ok (), (copyCall mem k receiver caller).acceptCall receiver caller)

/-- The loop of `take_next` over callers.  A caller whose request cannot be
delivered is woken, so there are at most as many rounds as threads. -/
def takeCaller (mem : UserMemory) (receiver : ThreadId) (p : PortId) : Nat -> Ipc -> Bool × Ipc
  | 0, k => (false, k)
  | fuel + 1, k =>
    match k.nextCaller p with
    | (none, k) => (false, k)
    | (some caller, k) =>
      match deliverCall mem k receiver caller with
      | (.ok (), k) => (true, k)
      | (.error error, k) => takeCaller mem receiver p fuel (k.wake caller error.code)

/-- The line of a port with a pending event. -/
def pendingIrq (k : Ipc) (p : PortId) : Option Irq :=
  if k.irqPendingMask = 0 then none
  else (List.finRange 16).find? fun irq => (k.irqs irq).port = some p && (k.irqs irq).pending

/-- `take_next`: IRQs first, then CLIENT_GONE, then callers. -/
def takeNext (mem : UserMemory) (k : Ipc) (receiver : ThreadId) (p : PortId) : Bool × Ipc :=
  match k.pendingIrq p with
  | some irq => (true, k.deliverIrq receiver irq)
  | none =>
    if k.gone.head p ≠ none then (true, k.deliverGone receiver p) else takeCaller mem receiver p 17 k

/-! ## Kernel devices -/

/-- `FND_DEV_OPEN`. -/
def fndDevOpen : Word := 0x0300

/-- The first PeC stream, `KDEV_TRNG`. -/
def kdevTrng : Nat := 8

/-- A call through a kernel channel.  What the driver answers comes from
outside; its directory channels only open streams. -/
def kernelCall (k : Ipc) (t : ThreadId) (c : ChanId) (msg : Msg) (rep buf cap : Word)
    (driver : Except FndError Unit) : Except FndError Word × Ipc :=
  let kernel := (k.chans c).kernel
  let proc := k.procOf t
  if msg.flags ≠ 0 then (.error .badArg, k)
  else if kernel % 2 = 1 then
    match (if msg.op = fndDevOpen then driver else .error .unsupported) with
    | .error _ => (.ok fndOk, k)
    | .ok () =>
      match k.kernelChannel proc (kernel + 1) with
      | (.error _, k) => (.ok fndOk, k)
      | (.ok h, k) => (.ok fndOk, k.modifyNamed proc h fun chan => { chan with badge := msg.a0 })
  else if driver = .error .wouldBlock ∧ kernel ≥ kdevTrng then
    let saved := k.modifyThread t fun thread =>
      { thread with
        req := { msg with a3 := (k.chans c).badge }, badge := BitVec.ofNat 32 kernel, rep := rep, repBuf := buf,
        repCap := cap }
    (.ok fndOk, saved.block t .pecRead fndForever)
  else (.ok fndOk, k)

/-! ## System calls -/

/-- The fields a caller is saved with, and its wait in SEND. -/
def sendCall (k : Ipc) (t : ThreadId) (c : ChanId) (p : PortId) (msg : Msg) (rep buf cap : Word) : Ipc :=
  let saved := k.modifyThread t fun thread =>
    { thread with
      req := msg, rep := rep, repBuf := buf, repCap := cap, port := some p, badge := (k.chans c).badge,
      seq := k.nextSeq + 1, gen := thread.gen + 1 }
  let blocked := { saved with nextSeq := k.nextSeq + 1 }.block t .send fndForever
  { blocked with
    sendBlocked := blocked.sendBlocked ||| (1 : Word) <<< t.val
    history := { k.history with
      calls := k.history.calls + 1
      call := Function.update k.history.call t (k.history.calls + 1)
      via := Function.update k.history.via t (k.channel c) } }

/-- The checks of `sys_ipc_call`: the channel, the message and where the reply
goes. -/
def checkCall (mem : UserMemory) (k : Ipc) (proc : ProcId) (ch req rep : Word) :
    Except FndError (ChanId × Msg × Word × Word) :=
  match k.entry proc ch with
  | some (_, .chan c) => do
    let msg ← readMsg mem proc req
    userStruct mem proc rep msgSize (permR ||| permW)
    let reply := msgAt mem proc rep
    if !mem.rangeOk proc reply.buf reply.len permW then .error .access
    else if msg.transfers && (k.entry proc msg.a3).isNone then .error .badHandle
    else .ok (c, msg, reply.buf, reply.len)
  | _ => .error .badHandle

/-- `sys_ipc_call`: the result comes with the reply. -/
def ipcCall (mem : UserMemory) (driver : Except FndError Unit) (k : Ipc) (t : ThreadId) (ch req rep : Word) :
    Except FndError Word × Ipc :=
  match checkCall mem k (k.procOf t) ch req rep with
  | .error error => (.error error, k)
  | .ok (c, msg, buf, cap) =>
    if (k.chans c).kernel ≠ 0 then k.kernelCall t c msg rep buf cap driver
    else
      match (k.chans c).port with
      | none => (.error .peerGone, k)
      | some p =>
        let sent := k.sendCall t c p msg rep buf cap
        match sent.findReceiver p with
        | none => (.ok fndOk, sent)
        | some receiver =>
          match takeNext mem sent receiver p with
          | (true, k) => (.ok fndOk, k.wake receiver fndOk)
          | (false, k) => (.ok fndOk, k)

/-- The checks of `sys_ipc_recv`: the port and the timeout. -/
def checkRecv (mem : UserMemory) (k : Ipc) (proc : ProcId) (h rcv : Word) : Except FndError (PortId × Word) :=
  match k.entry proc h with
  | some (_, .port p) => do
    userStruct mem proc rcv recvSize (permR ||| permW)
    if mem.word proc (rcv + 60) ≠ 0 then .error .badArg
    else if !mem.rangeOk proc (mem.word proc (rcv + 32)) (mem.word proc (rcv + 36)) permW then .error .access
    else .ok (p, mem.word proc (rcv + 56))
  | _ => .error .badHandle

/-- `sys_ipc_recv`. -/
def ipcRecv (mem : UserMemory) (k : Ipc) (t : ThreadId) (h rcv : Word) : Except FndError Word × Ipc :=
  match checkRecv mem k (k.procOf t) h rcv with
  | .error error => (.error error, k)
  | .ok (p, timeout) =>
    let ready := k.modifyThread t fun thread => { thread with rcv := rcv }
    match takeNext mem ready t p with
    | (true, k) => (.ok fndOk, k)
    | (false, k) =>
      if timeout = 0 then (.error .wouldBlock, k)
      else
        let placed := k.modifyThread t fun thread => { thread with port := some p }
        (.ok fndOk, placed.block t .recv timeout)

/-- The thread a token names, whatever it does. -/
def tokenThread (token : Word) : Option ThreadId :=
  let index := (token &&& 0xFF).toNat
  if valid : 0 < index ∧ index ≤ 16 then some ⟨index - 1, by omega⟩ else none

/-- `token_caller`. -/
def tokenCaller (k : Ipc) (proc : ProcId) (token : Word) : Option ThreadId :=
  match tokenThread token with
  | none => none
  | some t =>
    if (k.thread t).state ≠ .blocked ∨ (k.thread t).reason ≠ .reply ∨ (k.thread t).waitProc ≠ some proc ∨
        (k.thread t).gen &&& 0x00FFFFFF ≠ token >>> 8 then none
    else some t

/-- The reply is copied to the caller, which goes on. -/
def answerCall (k : Ipc) (t caller : ThreadId) (msg : Msg) : Ipc :=
  let read := k.touch (k.thread t).proc msg.buf msg.len permR
  let data := read.touch (k.thread caller).proc (k.thread caller).repBuf msg.len permW
  let written := data.touch (k.thread caller).proc (k.thread caller).rep msgSize permW
  (written.wake caller fndOk).note (.answered (k.history.call caller) (k.process (k.procOf t)))

/-- `sys_ipc_reply`. -/
def ipcReply (mem : UserMemory) (k : Ipc) (t : ThreadId) (token addr : Word) : Except FndError Word × Ipc :=
  match readMsg mem (k.procOf t) addr with
  | .error error => (.error error, k)
  | .ok msg =>
    if msg.transfers && (k.entry (k.procOf t) msg.a3).isNone then (.error .badHandle, k)
    else
      match k.tokenCaller (k.procOf t) token with
      | none => (.error .peerGone, k)
      | some caller =>
        if msg.len > (k.thread caller).repCap then (.error .limit, k)
        else if msg.transfers then
          match k.handleMove (k.procOf t) msg.a3 (k.procOf caller) with
          | (.error error, k) => (.error error, k)
          | (.ok _, k) => (.ok fndOk, k.answerCall t caller msg)
        else (.ok fndOk, k.answerCall t caller msg)

/-- `sys_ipc_reply_recv`.  The reply may change the memory the receive reads. -/
def ipcReplyRecv (replyMem recvMem : UserMemory) (k : Ipc) (t : ThreadId) (token msg port rcv : Word) :
    Except FndError Word × Ipc :=
  match ipcReply replyMem k t token msg with
  | (.error error, k) => if error ≠ .peerGone then (.error error, k) else ipcRecv recvMem k t port rcv
  | (.ok _, k) => ipcRecv recvMem k t port rcv

/-! ## Services -/

/-- `SERVICE_NAME_MAX`. -/
def serviceNameMax : Nat := 31

/-- The bytes of a name up to its NUL, one range check each. -/
def nameBytes (mem : UserMemory) (proc : ProcId) : Nat -> Word -> Except FndError (List Byte)
  | 0, _ => .error .badArg
  | fuel + 1, addr =>
    if !mem.rangeOk proc addr 1 permR then .error .access
    else if mem.byte proc addr = 0 then .ok []
    else do
      let rest ← nameBytes mem proc fuel (addr + 1)
      .ok (mem.byte proc addr :: rest)

def isLower (c : Byte) : Bool := 0x61 ≤ c && c ≤ 0x7A

/-- The rest of a name behind `start`, which says that a part begins:
`[a-z][a-z0-9_]*(\.[a-z][a-z0-9_]*)*`. -/
def nameOk : Bool -> List Byte -> Bool
  | _, [] => true
  | start, c :: rest =>
    (if start then isLower c else isLower c || (0x30 ≤ c && c ≤ 0x39) || c = 0x5F || c = 0x2E) &&
      !(c = 0x2E && rest.isEmpty) && nameOk (c = 0x2E) rest

/-- `read_name`. -/
def readName (mem : UserMemory) (proc : ProcId) (addr : Word) : Except FndError (List Byte) := do
  let name ← nameBytes mem proc (serviceNameMax + 1) addr
  if nameOk true name && !name.isEmpty then .ok name else .error .badArg

/-- Names of kernel devices and the kind of their directory channel. -/
def kernelServices : List (List Byte × Nat) :=
  [(Wax.ascii "dev.fb0", 1), (Wax.ascii "dev.sgu", 3), (Wax.ascii "dev.trng", 7), (Wax.ascii "dev.prng", 9),
    (Wax.ascii "dev.uart0", 11), (Wax.ascii "dev.sgc", 5)]

/-- `FND_CAP_SVC`. -/
def fndCapSvc : Word := 8

/-- `sys_svc_register`. -/
def svcRegister (mem : UserMemory) (k : Ipc) (proc : ProcId) (addr h : Word) : Except FndError Word × Ipc :=
  if (k.procs proc).caps &&& fndCapSvc = 0 then (.error .access, k)
  else
    match readName mem proc addr with
    | .error error => (.error error, k)
    | .ok name =>
      if (kernelServices.lookup name).isSome then (.error .existing, k)
      else
        match k.entry proc h with
        | some (_, .port p) =>
          if (List.finRange 32).any fun i => (k.services i).port ≠ none && (k.services i).name = name then
            (.error .existing, k)
          else
            match (List.finRange 32).find? fun i => (k.services i).port = none with
            | none => (.error .limit, k)
            | some i => (.ok fndOk, { k with services := Function.update k.services i ⟨some p, name⟩ })
        | _ => (.error .badHandle, k)

/-- `sys_svc_lookup`: every lookup of a service makes a channel with a badge of
its own. -/
def svcLookup (mem : UserMemory) (k : Ipc) (proc : ProcId) (addr : Word) : Except FndError Word × Ipc :=
  match readName mem proc addr with
  | .error error => (.error error, k)
  | .ok name =>
    match kernelServices.lookup name with
    | some kind => k.kernelChannel proc kind
    | none =>
      match (List.finRange 32).find? fun i => (k.services i).port ≠ none && (k.services i).name = name with
      | none => (.error .notFound, k)
      | some i =>
        let badge := (k.nextLookupBadge + 1) &&& 0x7FFFFFFF
        { k with nextLookupBadge := badge }.newChannel proc (k.services i).port (0x80000000 ||| badge)

end Ipc
end Src32.Kernel
