import Src32.Kernel.Dispatch
import Src32.Kernel.Lifecycle

namespace Src32.Kernel.Ipc

/-!
# Traps

The system calls and events the kernel handles one at a time, as a step
relation.  A step carries what comes from outside: the contents of user memory
while it runs, the answers of drivers and of the memory backend.
-/

/-- A system call with its arguments.  `other` is one that touches nothing that
is kept here. -/
inductive Syscall where
  | yield
  | sleep (count : Word)
  | threadExit (code : Word)
  | procExit (code : Word)
  | ipcCall (mem : UserMemory) (driver : Except FndError Unit) (ch req rep : Word)
  | ipcRecv (mem : UserMemory) (port rcv : Word)
  | ipcReply (mem : UserMemory) (token msg : Word)
  | ipcReplyRecv (replyMem recvMem : UserMemory) (token msg port rcv : Word)
  | portCreate
  | chanCreate (port badge : Word)
  | handleClose (h : Word)
  | handleDup (h : Word)
  | wait (mem : UserMemory) (h timeout codePtr : Word)
  | procFork (vm : Bool) (cloned : Except FndError Unit)
  | procSpawn (mem : UserMemory) (early late : Except FndError Unit) (built : Built) (addr : Word)
  | procKill (h : Word)
  | svcRegister (mem : UserMemory) (name port : Word)
  | svcLookup (mem : UserMemory) (name : Word)
  | blkIo (accepted : Except FndError Unit)
  | threadCreate (mem : UserMemory) (entryPc sp arg : Word)
  | irqBind (irq port : Word)
  | irqAck (irq : Word)
  | other (result : Except FndError Word)

/-- `sched_sleep`. -/
def sleep (k : Ipc) (t : ThreadId) (count : Word) : Ipc := { k with sched := k.sched.sleep t count }

/-- `sys_blk_io`: the caller waits for the disk once its request is queued. -/
def blkIo (k : Ipc) (t : ThreadId) : Except FndError Unit -> Except FndError Word × Ipc
  | .error error => (.error error, k)
  | .ok () => (.ok fndOk, k.block t .blkIo fndForever)

/-- The switch of `handle_syscall`. -/
def syscall (k : Ipc) (t : ThreadId) : Syscall -> Except FndError Word × Ipc
  | .yield => (.ok fndOk, { k with sched := k.sched.yield t })
  | .sleep count => (.ok fndOk, k.sleep t count)
  | .threadExit code => (.ok fndOk, k.threadExit t code)
  | .procExit code => (.ok fndOk, k.procExit (k.procOf t) code)
  | .ipcCall mem driver ch req rep => ipcCall mem driver k t ch req rep
  | .ipcRecv mem port rcv => ipcRecv mem k t port rcv
  | .ipcReply mem token msg => ipcReply mem k t token msg
  | .ipcReplyRecv replyMem recvMem token msg port rcv => ipcReplyRecv replyMem recvMem k t token msg port rcv
  | .portCreate => k.portCreate (k.procOf t)
  | .chanCreate port badge => k.chanCreate (k.procOf t) port badge
  | .handleClose h => k.handleClose (k.procOf t) h
  | .handleDup h => k.handleDup (k.procOf t) h
  | .wait mem h timeout codePtr => wait mem k t h timeout codePtr
  | .procFork vm cloned => procFork vm cloned k t
  | .procSpawn mem early late built addr => procSpawn mem early late built k (k.procOf t) addr
  | .procKill h => k.procKill (k.procOf t) h
  | .svcRegister mem name port => svcRegister mem k (k.procOf t) name port
  | .svcLookup mem name => svcLookup mem k (k.procOf t) name
  | .blkIo accepted => k.blkIo t accepted
  | .threadCreate mem entryPc sp arg => threadCreate mem k t entryPc sp arg
  | .irqBind irq port => k.irqBind (k.procOf t) irq port
  | .irqAck irq => k.irqAck (k.procOf t) irq
  | .other result => (result, k)

/-- The end of `handle_syscall`: R1 of a caller that still runs. -/
def handleSyscall (k : Ipc) (t : ThreadId) (call : Syscall) : Ipc :=
  let done := k.syscall t call
  if (done.2.thread t).state = .running then
    done.2.modifyThread t fun thread => { thread with r1 := resultCode done.1 }
  else done.2

/-- What the kernel handles. -/
inductive Action where
  | syscall (call : Syscall)
  /-- A user fault ends the process of the current thread. -/
  | fault (cause : Word)
  | irq (line : Irq)
  /-- The timer, and which PeC reads are answered. -/
  | tick (answered : ThreadId -> Bool)
  /-- The disk is done with the request of a thread. -/
  | blkDone (t : ThreadId) (result : Word)
  /-- The kernel starts a process of its own: a module or code linked into it. -/
  | module (priority : Nat) (caps : Word) (built : Built)
  /-- `sched_next`. -/
  | next

inductive Step (k : Ipc) : Action -> Ipc -> Prop where
  | syscall {t : ThreadId} (calls : k.sched.Calls t) (call : Syscall) :
      Step k (.syscall call) (k.handleSyscall t call)
  | fault {t : ThreadId} (calls : k.sched.Calls t) (cause : Word) :
      Step k (.fault cause) (k.procExit (k.procOf t) cause)
  | irq (line : Irq) : Step k (.irq line) (k.irqNotify line)
  | tick (answered : ThreadId -> Bool) : Step k (.tick answered) { k with sched := k.sched.tick answered }
  | blkDone {t : ThreadId} (blocked : (k.thread t).state = .blocked) (waits : (k.thread t).reason = .blkIo)
      (result : Word) : Step k (.blkDone t result) (k.wake t result)
  | module (priority : Nat) (caps : Word) (built : Built) :
      Step k (.module priority caps built) (k.spawnImage priority caps 0 built).2
  | next : Step k .next { k with sched := k.sched.schedNext }

/-- The kernel before its first process: empty tables, and `next_pid` 1. -/
def boot : Ipc where
  sched := Sched.boot
  procs := fun _ => Proc.zero
  handles := fun _ => none
  ports := fun _ => ⟨false, 0⟩
  chans := fun _ => ⟨false, 0, none, 0, 0⟩
  gone := ⟨fun _ => none, fun _ => none, fun _ => none⟩
  services := fun _ => ⟨none, []⟩
  irqs := fun _ => ⟨none, none, false, false⟩
  irqPendingMask := 0
  sendBlocked := 0
  nextSeq := 0
  nextLookupBadge := 0
  nextPid := 1
  history := ⟨fun _ => 0, fun _ => 0, 0, fun _ => 0, fun _ => (0, 0), [], []⟩

def machine : System Ipc Action where
  initial := fun k => k = boot
  step := Step

end Src32.Kernel.Ipc
