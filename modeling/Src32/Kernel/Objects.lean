import Src32.Kernel.Process
import Src32.Kernel.Sched

namespace Src32.Kernel

/-!
# Kernel objects

Ports, channels, IRQ bindings, service names and the handle tables, beside the
threads and process records they refer to.  The handle table of a process is
kept here and not in its record.

User memory is seen through `UserMemory`: what its words hold and what the
range checks answer during one trap.  The kernel never keeps any of it, so
that whatever users write between two traps is covered.  `History` is not part
of the kernel: it records what happened so that the order of events can be
stated.
-/

/-- A slot of the channel table (MAX_CHANNELS of them). -/
abbrev ChanId := Fin 128

scoped instance chanSlots : NeZero 128 := ⟨by decide⟩

abbrev Irq := Fin 16

/-- The index of a handle: its number less one (FND_MAX_HANDLES of them). -/
abbrev HandleIx := Fin 63

/-- What a handle names: `FND_OBJ_PORT` to `FND_OBJ_PROCESS`. -/
inductive Obj where
  | port (p : PortId)
  | chan (c : ChanId)
  | thread (t : ThreadId)
  | proc (p : ProcId)
  deriving DecidableEq

/-- `fnd_port`.  Its list of pending CLIENT_GONE is stored with those of the
other ports. -/
structure Port where
  used : Bool
  refs : Nat

/-- `fnd_chan`. -/
structure Chan where
  used : Bool
  refs : Nat
  /-- None once the port is gone. -/
  port : Option PortId
  badge : Word
  /-- 0: user, 1/2: fb factory/stream, 3/4: sgu, 5/6: sgc, 7/8: trng, 9/10:
  prng, 11/12: uart0. -/
  kernel : Nat

/-- An entry of `services`. -/
structure Service where
  port : Option PortId
  name : List Byte

/-- An entry of `irqs`.  The binding borrows the port. -/
structure IrqBinding where
  owner : Option ProcId
  port : Option PortId
  pending : Bool
  delivered : Bool

/-! ## What happened -/

/-- One of the channels a slot has held: the slot and the number of channels
opened in it so far. -/
abbrev Channel := ChanId × Nat

/-- One of the processes a record has held. -/
abbrev Process := ProcId × Nat

/-- A range of user memory the kernel reads or writes for a delivery. -/
structure UserAccess where
  proc : Option ProcId
  addr : Word
  len : Word
  perm : Word

inductive Event where
  /-- The last handle of a user channel closed while its port was alive. -/
  | closed (c : Channel)
  /-- A receiver was given CLIENT_GONE. -/
  | gone (c : Channel) (badge : Word)
  /-- The port went before a receiver took the CLIENT_GONE. -/
  | dropped (c : Channel)
  /-- A process was given the request of the call with this number, with a
  badge and the token of the answer. -/
  | request (c : Channel) (badge : Word) (call : Nat) (token : Word) (server : Process)
  /-- The call with this number was answered by a process. -/
  | answered (call : Nat) (by_ : Process)
  deriving DecidableEq

/-- The past of a run: the newest event is first. -/
structure History where
  /-- Processes started in a record. -/
  starts : ProcId -> Nat
  /-- Channels opened in a slot. -/
  opens : ChanId -> Nat
  /-- Calls sent so far. -/
  calls : Nat
  /-- The number of the last call of a thread. -/
  call : ThreadId -> Nat
  /-- The channel of the last call of a thread. -/
  via : ThreadId -> Channel
  events : List Event
  accesses : List UserAccess

/-! ## The state -/

/-- The state `ipc.c` works on. -/
structure Ipc where
  sched : Sched
  procs : ProcId -> Proc
  handles : ProcId × HandleIx -> Option Obj
  ports : PortId -> Port
  chans : ChanId -> Chan
  /-- `gone_head` and `gone_tail` of the ports and `gone_next` of the channels. -/
  gone : Bank PortId ChanId
  services : Fin 32 -> Service
  irqs : Irq -> IrqBinding
  irqPendingMask : Word
  sendBlocked : Word
  nextSeq : Word
  nextLookupBadge : Word
  nextPid : Word
  history : History

/-- What user memory holds and what `proc_user_range_ok` answers for a process,
an address, a length and a permission. -/
structure UserMemory where
  word : ProcId -> Word -> Word
  byte : ProcId -> Word -> Byte
  rangeOk : ProcId -> Word -> Word -> Word -> Bool

namespace Ipc

def thread (k : Ipc) (t : ThreadId) : Thread := k.sched.threads t

def modifyThread (k : Ipc) (t : ThreadId) (change : Thread -> Thread) : Ipc :=
  { k with sched := k.sched.modify t change }

def modifyProc (k : Ipc) (p : ProcId) (change : Proc -> Proc) : Ipc :=
  { k with procs := Function.update k.procs p (change (k.procs p)) }

def modifyPort (k : Ipc) (p : PortId) (change : Port -> Port) : Ipc :=
  { k with ports := Function.update k.ports p (change (k.ports p)) }

def modifyChan (k : Ipc) (c : ChanId) (change : Chan -> Chan) : Ipc :=
  { k with chans := Function.update k.chans c (change (k.chans c)) }

def wake (k : Ipc) (t : ThreadId) (result : Word) : Ipc := { k with sched := k.sched.wake t result }

def block (k : Ipc) (t : ThreadId) (reason : Reason) (timeout : Word) : Ipc :=
  { k with sched := k.sched.block t reason timeout }

/-- An event joins the history. -/
def note (k : Ipc) (event : Event) : Ipc :=
  { k with history := { k.history with events := event :: k.history.events } }

/-- An access to user memory joins the history. -/
def touch (k : Ipc) (proc : Option ProcId) (addr len perm : Word) : Ipc :=
  { k with history := { k.history with accesses := ⟨proc, addr, len, perm⟩ :: k.history.accesses } }

/-- The channel a slot holds. -/
def channel (k : Ipc) (c : ChanId) : Channel := (c, k.history.opens c)

/-- The process a record holds. -/
def process (k : Ipc) (p : ProcId) : Process := (p, k.history.starts p)

/-! ## Threads that wait -/

/-- Thread `t` is blocked for this reason at port `p`. -/
def waitsAt (k : Ipc) (t : ThreadId) (reason : Reason) (p : PortId) : Bool :=
  (k.thread t).state = .blocked && (k.thread t).reason = reason && (k.thread t).port = some p

/-- `find_receiver`. -/
def findReceiver (k : Ipc) (p : PortId) : Option ThreadId :=
  (List.finRange 16).find? fun t => k.waitsAt t .recv p

/-- Every thread of the table, visited in the order of the slots. -/
def eachThread (k : Ipc) (visit : Ipc -> ThreadId -> Ipc) : Ipc := (List.finRange 16).foldl visit k

/-- A visit of `next_caller`: the caller found so far and the bits of
`send_blocked`, from which those of other threads go.  Sequence numbers wrap
and are compared by the sign of their difference. -/
def callerVisit (k : Ipc) (p : PortId) (bits : Word) (found : Option ThreadId × Word) (t : ThreadId) :
    Option ThreadId × Word :=
  if !bits.getLsbD t then found
  else if (k.thread t).state ≠ .blocked ∨ (k.thread t).reason ≠ .send then
    (found.1, found.2 &&& ~~~((1 : Word) <<< t.val))
  else if (k.thread t).port = some p &&
      (match found.1 with | none => true | some best => ((k.thread t).seq - (k.thread best).seq).msb) then
    (some t, found.2)
  else found

/-- `next_caller`. -/
def nextCaller (k : Ipc) (p : PortId) : Option ThreadId × Ipc :=
  if k.sendBlocked = 0 then (none, k)
  else
    let found := (List.finRange 16).foldl (k.callerVisit p k.sendBlocked) (none, k.sendBlocked)
    (found.1, { k with sendBlocked := found.2 })

/-! ## IRQs -/

/-- `irq_set_pending`: the binding and its bit of the mask. -/
def irqSetPending (k : Ipc) (irq : Irq) (pending : Bool) : Ipc :=
  { k with
    irqs := Function.update k.irqs irq { k.irqs irq with pending := pending }
    irqPendingMask :=
      if pending then k.irqPendingMask ||| (1 : Word) <<< irq.val
      else k.irqPendingMask &&& ~~~((1 : Word) <<< irq.val) }

def irqRelease (k : Ipc) (irq : Irq) : Ipc :=
  let freed := { k with irqs := Function.update k.irqs irq { k.irqs irq with owner := none, port := none } }
  let cleared := freed.irqSetPending irq false
  { cleared with irqs := Function.update cleared.irqs irq { cleared.irqs irq with delivered := false } }

def eachIrq (k : Ipc) (visit : Ipc -> Irq -> Ipc) : Ipc := (List.finRange 16).foldl visit k

/-- `ipc_irq_proc_exited`. -/
def irqProcExited (k : Ipc) (p : ProcId) : Ipc :=
  k.eachIrq fun k irq => if (k.irqs irq).owner = some p then k.irqRelease irq else k

end Ipc
end Src32.Kernel
