import Src32.Kernel.Objects

namespace Src32.Kernel.Ipc

/-!
# Handles

References to kernel objects, what happens when the last one goes, and the
handle tables: `ipc.c` from `obj_ref` to `sys_chan_create`.  Closing the last
handle of a channel hands its CLIENT_GONE to a waiting receiver, so the two
deliveries that need no caller come first.
-/

/-! ## Notifications -/

/-- `write_recv`: `data` and `cap` are read and the first 56 bytes written. -/
def writeRecv (k : Ipc) (receiver : ThreadId) : Ipc :=
  let t := k.thread receiver
  (k.touch t.proc (t.rcv + 32) 8 permR).touch t.proc t.rcv 56 permW

def deliverIrq (k : Ipc) (receiver : ThreadId) (irq : Irq) : Ipc :=
  let cleared := (k.writeRecv receiver).irqSetPending irq false
  { cleared with irqs := Function.update cleared.irqs irq { cleared.irqs irq with delivered := true } }

/-- `ipc_irq_notify` of a bound line: an event is pending or with the receiver
once, however often the line fires. -/
def irqNotify (k : Ipc) (irq : Irq) : Ipc :=
  match (k.irqs irq).owner, (k.irqs irq).port with
  | some _, some p =>
    if !(k.irqs irq).pending && !(k.irqs irq).delivered then
      let waiting := k.irqSetPending irq true
      match waiting.findReceiver p with
      | none => waiting
      | some t => (waiting.deliverIrq t irq).wake t fndOk
    else k
  | _, _ => k

/-- The channel at the head of the list leaves it and its slot is free.  There
is one at every call. -/
def deliverGone (k : Ipc) (receiver : ThreadId) (p : PortId) : Ipc :=
  match k.gone.head p with
  | none => k
  | some c =>
    let popped := { k with gone := k.gone.dropFront p c }
    let freed := (popped.writeRecv receiver).modifyChan c fun chan => { chan with used := false }
    freed.note (.gone (k.channel c) (k.chans c).badge)

/-! ## The end of objects -/

/-- What a destroyed port answers a thread that waits at it. -/
def destroyedResult (reason : Reason) : Word :=
  if reason = .recv then FndError.badHandle.code else FndError.peerGone.code

/-- A visit of the loop over threads of `port_destroy`. -/
def wakeVisit (p : PortId) (k : Ipc) (t : ThreadId) : Ipc :=
  if (k.thread t).state = .blocked && (k.thread t).port = some p &&
      ((k.thread t).reason = .send || (k.thread t).reason = .reply || (k.thread t).reason = .recv) then
    k.wake t (destroyedResult (k.thread t).reason)
  else k

/-- What `port_destroy` does to a channel: one that nobody refers to has a
CLIENT_GONE that nobody will read. -/
def Chan.orphan (p : PortId) (chan : Chan) : Chan :=
  if chan.used && chan.port = some p then { chan with port := none, used := chan.refs ≠ 0 } else chan

/-- The channels of a port whose CLIENT_GONE is pending. -/
def pendingGone (k : Ipc) (p : PortId) : List ChanId :=
  (List.finRange 128).filter fun c => (k.chans c).used && (k.chans c).port = some p && (k.chans c).refs = 0

/-- The channels of a destroyed port are cut off. -/
def orphanChans (k : Ipc) (p : PortId) : Ipc :=
  { k with
    chans := fun c => Chan.orphan p (k.chans c)
    history := { k.history with
      events := (k.pendingGone p).map (fun c => .dropped (k.channel c)) ++ k.history.events } }

def portDestroy (k : Ipc) (p : PortId) : Ipc :=
  let unbound := k.eachIrq fun k irq => if (k.irqs irq).port = some p then k.irqRelease irq else k
  let orphaned := (unbound.eachThread (wakeVisit p)).orphanChans p
  let unnamed := { orphaned with
    services := fun i => if (orphaned.services i).port = some p then { orphaned.services i with port := none }
      else orphaned.services i }
  unnamed.modifyPort p fun port => { port with used := false }

/-- `chan_last_closed`.  What the drivers behind kernel channels release is not
kept here. -/
def chanLastClosed (k : Ipc) (c : ChanId) : Ipc :=
  let free := k.modifyChan c fun chan => { chan with used := false }
  if (k.chans c).kernel ≠ 0 then free
  else
    match (k.chans c).port with
    | none => free
    | some p =>
      let listed := ({ k with gone := k.gone.pushBack p c }).note (.closed (k.channel c))
      match listed.findReceiver p with
      | none => listed
      | some t => (listed.deliverGone t p).wake t fndOk

/-! ## References -/

/-- `refs` of the object. -/
def refs (k : Ipc) : Obj -> Nat
  | .port p => (k.ports p).refs
  | .chan c => (k.chans c).refs
  | .thread t => (k.thread t).refs
  | .proc p => (k.procs p).refs

def objRef (k : Ipc) : Obj -> Ipc
  | .port p => k.modifyPort p fun port => { port with refs := port.refs + 1 }
  | .chan c => k.modifyChan c fun chan => { chan with refs := chan.refs + 1 }
  | .thread t => k.modifyThread t fun thread => { thread with refs := thread.refs + 1 }
  | .proc p => k.modifyProc p fun proc => { proc with refs := proc.refs + 1 }

def objUnref (k : Ipc) : Obj -> Ipc
  | .port p =>
    let less := k.modifyPort p fun port => { port with refs := port.refs - 1 }
    if (less.ports p).refs = 0 then less.portDestroy p else less
  | .chan c =>
    let less := k.modifyChan c fun chan => { chan with refs := chan.refs - 1 }
    if (less.chans c).refs = 0 then less.chanLastClosed c else less
  | .thread t => k.modifyThread t fun thread => { thread with refs := thread.refs - 1 }
  | .proc p => k.modifyProc p Proc.release

/-! ## Tables -/

/-- The number of the handle at an index. -/
def handleOf (i : HandleIx) : Word := BitVec.ofNat 32 (i.val + 1)

/-- The index of a handle number. -/
def handleIx (h : Word) : Option HandleIx :=
  if valid : 0 < h.toNat ∧ h.toNat ≤ 63 then some ⟨h.toNat - 1, by omega⟩ else none

/-- `entry`: where the handle is and what it names. -/
def entry (k : Ipc) (p : ProcId) (h : Word) : Option (HandleIx × Obj) := do
  let i ← handleIx h
  let o ← k.handles (p, i)
  some (i, o)

/-- A slot of the table names an object, whose count does not change. -/
def setHandle (k : Ipc) (p : ProcId) (i : HandleIx) (o : Option Obj) : Ipc :=
  { k with handles := Function.update k.handles (p, i) o }

/-- The lowest free index. -/
def freeIx (k : Ipc) (p : ProcId) : Option HandleIx :=
  (List.finRange 63).find? fun i => k.handles (p, i) = none

def handleAdd (k : Ipc) (p : ProcId) (o : Obj) : Except FndError Word × Ipc :=
  match k.freeIx p with
  | none => (.error .limit, k)
  | some i => (.ok (handleOf i), (k.setHandle p i (some o)).objRef o)

/-- One round of `handle_clone`. -/
def cloneVisit (from_ to_ : ProcId) (k : Ipc) (i : HandleIx) : Ipc :=
  let copied := k.setHandle to_ i (k.handles (from_, i))
  match copied.handles (to_, i) with
  | none => copied
  | some o => copied.objRef o

def handleClone (k : Ipc) (from_ to_ : ProcId) : Ipc := (List.finRange 63).foldl (cloneVisit from_ to_) k

def handleFreeCount (k : Ipc) (p : ProcId) : Nat :=
  (List.finRange 63).countP fun i => k.handles (p, i) = none

/-- The entry at an index goes and the object with it if it was the last. -/
def closeIx (p : ProcId) (k : Ipc) (i : HandleIx) : Ipc :=
  match k.handles (p, i) with
  | none => k
  | some o => (k.setHandle p i none).objUnref o

/-- `sys_handle_close`. -/
def handleClose (k : Ipc) (p : ProcId) (h : Word) : Except FndError Word × Ipc :=
  match k.entry p h with
  | none => (.error .badHandle, k)
  | some (i, _) => (.ok fndOk, closeIx p k i)

def handleCloseAll (k : Ipc) (p : ProcId) : Ipc := (List.finRange 63).foldl (closeIx p) k

def handleDupInto (k : Ipc) (from_ : ProcId) (h : Word) (to_ : ProcId) : Except FndError Word × Ipc :=
  match k.entry from_ h with
  | none => (.error .badHandle, k)
  | some (_, .thread t) => if from_ ≠ to_ then (.error .access, k) else k.handleAdd to_ (.thread t)
  | some (_, o) => k.handleAdd to_ o

/-- `sys_handle_dup`. -/
def handleDup (k : Ipc) (p : ProcId) (h : Word) : Except FndError Word × Ipc := k.handleDupInto p h p

/-- `handle_move`: the new number. -/
def handleMove (k : Ipc) (from_ : ProcId) (h : Word) (to_ : ProcId) : Except FndError Word × Ipc :=
  match k.handleDupInto from_ h to_ with
  | (.error error, k) => (.error error, k)
  | (.ok moved, k) => (.ok moved, (k.handleClose from_ h).2)

/-! ## Creating objects -/

def portCreate (k : Ipc) (proc : ProcId) : Except FndError Word × Ipc :=
  match (List.finRange 32).find? fun p => !(k.ports p).used with
  | none => (.error .limit, k)
  | some p =>
    let fresh := { k with ports := Function.update k.ports p ⟨true, 0⟩, gone := k.gone.clear p }
    match fresh.handleAdd proc (.port p) with
    | (.error error, k) => (.error error, k.modifyPort p fun port => { port with used := false })
    | (.ok h, k) => (.ok h, k)

/-- The slot holds a new channel. -/
def openChan (k : Ipc) (c : ChanId) (port : Option PortId) (badge : Word) : Ipc :=
  { k with
    chans := Function.update k.chans c ⟨true, 0, port, badge, 0⟩
    gone := k.gone.relink c none
    history := { k.history with opens := Function.update k.history.opens c (k.history.opens c + 1) } }

def newChannel (k : Ipc) (proc : ProcId) (port : Option PortId) (badge : Word) : Except FndError Word × Ipc :=
  match (List.finRange 128).find? fun c => !(k.chans c).used with
  | none => (.error .limit, k)
  | some c =>
    match (k.openChan c port badge).handleAdd proc (.chan c) with
    | (.error error, k) => (.error error, k.modifyChan c fun chan => { chan with used := false })
    | (.ok h, k) => (.ok h, k)

/-- The channel a handle names changes. -/
def modifyNamed (k : Ipc) (proc : ProcId) (h : Word) (change : Chan -> Chan) : Ipc :=
  match k.entry proc h with
  | some (_, .chan c) => k.modifyChan c change
  | _ => k

def kernelChannel (k : Ipc) (proc : ProcId) (kind : Nat) : Except FndError Word × Ipc :=
  match k.newChannel proc none 0 with
  | (.error error, k) => (.error error, k)
  | (.ok h, k) => (.ok h, k.modifyNamed proc h fun chan => { chan with kernel := kind })

/-- `sys_chan_create`. -/
def chanCreate (k : Ipc) (proc : ProcId) (h badge : Word) : Except FndError Word × Ipc :=
  match k.entry proc h with
  | some (_, .port p) =>
    if badge = 0 ∨ badge > 0x7FFFFFFF then (.error .badArg, k) else k.newChannel proc (some p) badge
  | _ => (.error .badHandle, k)

/-! ## Binding IRQs -/

/-- `FND_CAP_IRQ`. -/
def fndCapIrq : Word := 2

/-- `BINDABLE_IRQS`: 0, 3, 5 to 12. -/
def bindableIrqs : Word := 0x1FE9

/-- `irq_access`: the line of the number. -/
def irqAccess (k : Ipc) (proc : ProcId) (irq : Word) : Except FndError Irq :=
  if (k.procs proc).caps &&& fndCapIrq = 0 then .error .access
  else if valid : irq.toNat < 16 then
    if bindableIrqs.getLsbD irq.toNat then .ok ⟨irq.toNat, valid⟩ else .error .access
  else .error .badArg

/-- `sys_irq_bind`. -/
def irqBind (k : Ipc) (proc : ProcId) (irq h : Word) : Except FndError Word × Ipc :=
  match k.irqAccess proc irq with
  | .error error => (.error error, k)
  | .ok line =>
    match k.entry proc h with
    | some (_, .port p) =>
      if (k.irqs line).owner ≠ none then (.error .busy, k)
      else
        let owned := { k with
          irqs := Function.update k.irqs line { k.irqs line with owner := some proc, port := some p } }
        let cleared := owned.irqSetPending line false
        (.ok fndOk, { cleared with
          irqs := Function.update cleared.irqs line { cleared.irqs line with delivered := false } })
    | _ => (.error .badHandle, k)

/-- `sys_irq_ack`. -/
def irqAck (k : Ipc) (proc : ProcId) (irq : Word) : Except FndError Word × Ipc :=
  match k.irqAccess proc irq with
  | .error error => (.error error, k)
  | .ok line =>
    if (k.irqs line).owner = none then (.error .notFound, k)
    else if (k.irqs line).owner ≠ some proc then (.error .access, k)
    else if !(k.irqs line).delivered then (.error .badArg, k)
    else
      (.ok fndOk, { k with irqs := Function.update k.irqs line { k.irqs line with delivered := false } })

end Src32.Kernel.Ipc
