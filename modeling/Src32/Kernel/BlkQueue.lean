import Src32.Kernel.Status
import Src32.Kernel.Thread
import Src32.Lib.Runs

namespace Src32.Kernel.Blk

/-!
# The disk request queue

`blk.c`: requests run one at a time on the disk controller.  A number for each
request, how often a process slot was used, and a log of what happened are kept
beside the state of the kernel.

The controller ends a command when it likes, and while the kernel waits for it;
`outcome` says how the command of a request ends.
-/

inductive Op where
  | read
  | write
  | identify
  deriving DecidableEq

/-- `struct blk_req`, and its number. -/
structure Req where
  thread : ThreadId
  drive : Word
  op : Op
  lba : Word
  count : Word
  buf : Word
  id : Nat

/-! ## The controller -/

/-- The error bits of the controller and of its DMA channel, and the error code. -/
structure Regs where
  error : Bool
  dmaError : Bool
  errorCode : Word

/-- A command that runs: for which request, and where its bytes go or come from. -/
structure Command where
  id : Nat
  address : Word

structure Controller where
  active : Option Command
  regs : Regs
  irq : Bool

/-- `idc_result`. -/
def idcResult (r : Regs) : Word :=
  if r.error = false ∧ r.dmaError = false then fndOk
  else if r.errorCode = 2 then FndError.noMedia.code
  else if r.errorCode = 4 then FndError.readOnly.code
  else if r.errorCode = 5 ∨ r.errorCode = 6 then FndError.io.code
  else if r.dmaError = true then FndError.io.code
  else FndError.badArg.code

namespace Controller

/-- `idc_clear`. -/
def clear (c : Controller) : Controller := { c with regs := ⟨false, false, c.regs.errorCode⟩, irq := false }

def command (c : Controller) (cmd : Command) : Controller := { c with active := some cmd }

/-- The loops that wait for the controller, and the end of a command. -/
def await (outcome : Nat -> Regs) (c : Controller) : Controller :=
  match c.active with
  | none => c
  | some cmd => ⟨none, outcome cmd.id, true⟩

end Controller

/-! ## The kernel -/

/-- A slot of the thread table. -/
structure Slot where
  proc : ProcId
  state : ThreadState
  reason : Reason
  r1 : Word

/-- The thread waits for the disk. -/
def Slot.waits (slot : Slot) : Prop := slot.state = .blocked ∧ slot.reason = .blkIo

/-- What happened to a request of a process, in the life of its slot. -/
inductive Event where
  | accepted (id : Nat) (proc : ProcId) (life : Nat)
  | started (id : Nat) (proc : ProcId) (life : Nat)
  | copiedIn (id : Nat) (proc : ProcId) (life : Nat)
  /-- Bytes of a request go to the buffer of one. -/
  | copiedOut (id : Nat) (proc : ProcId) (life : Nat) (source : Option Nat)
  | completed (id : Nat) (result : Word)
  | dropped (id : Nat) (proc : ProcId) (life : Nat)
  /-- The memory of a process is released. -/
  | released (proc : ProcId) (life : Nat)

structure Kern where
  queue : List Req
  running : Bool
  controller : Controller
  /-- The request whose bytes the bounce buffer holds. -/
  bounce : Option Nat
  thread : ThreadId -> Slot
  live : ProcId -> Bool
  life : ProcId -> Nat
  issued : Nat
  /-- The latest first. -/
  log : List Event

/-- `FND_MAX_THREADS`. -/
def maxThreads : Nat := 16

/-- `BLK_MAX_COUNT`. -/
def blkMaxCount : Word := 128

namespace Kern

def note (s : Kern) (e : Event) : Kern := { s with log := e :: s.log }

/-- `thread->proc` of a request. -/
def procOf (s : Kern) (r : Req) : ProcId := (s.thread r.thread).proc

def setThread (s : Kern) (t : ThreadId) (slot : Slot) : Kern := { s with thread := Function.update s.thread t slot }

/-- `sched_wake`. -/
def wake (s : Kern) (t : ThreadId) (result : Word) : Kern :=
  s.setThread t { s.thread t with state := .ready, reason := .none, r1 := result }

/-- `sched_block`. -/
def block (s : Kern) (t : ThreadId) : Kern := s.setThread t { s.thread t with state := .blocked, reason := .blkIo, r1 := fndOk }

def setController (s : Kern) (c : Controller) : Kern := { s with controller := c }

/-- `sched_wake` with the result of a request, and `pop`. -/
def finish (s : Kern) (r : Req) (result : Word) : Kern :=
  { ((s.wake r.thread result).note (.completed r.id result)) with queue := s.queue.tail }

section Driver

variable (vm : Bool) (bounceAddress : Word) (outcome : Nat -> Regs)

/-- `mm_copy_to_user` of what request `source` has brought. -/
def copyOut (s : Kern) (r : Req) (source : Option Nat) : Kern :=
  s.note (.copiedOut r.id (s.procOf r) (s.life (s.procOf r)) source)

/-- `identify`. -/
def identify (s : Kern) (r : Req) : Word × Kern :=
  let c := (s.controller.clear.command ⟨r.id, 0⟩).await outcome
  let result := idcResult c.regs
  let s := s.setController c.clear
  (result, if result = fndOk then s.copyOut r (some r.id) else s)

/-- `dma_address`. -/
def dmaAddress (r : Req) : Word := if vm then bounceAddress else r.buf

/-- With V the bounce buffer is the request's from its start on, and a write is copied to it first. -/
def loadBounce (s : Kern) (r : Req) : Kern :=
  let s := { s with bounce := if vm then some r.id else s.bounce }
  if vm && r.op = .write then s.note (.copiedIn r.id (s.procOf r) (s.life (s.procOf r))) else s

/-- `start`. -/
def start (s : Kern) (r : Req) : Kern :=
  let s := loadBounce vm (s.setController s.controller.clear) r
  (s.setController (s.controller.command ⟨r.id, dmaAddress vm bounceAddress r⟩)).note
    (.started r.id (s.procOf r) (s.life (s.procOf r)))

/-- `run_queue`, with so many rounds; each takes a request. -/
def runQueueFrom : Nat -> Kern -> Kern
  | 0, s => s
  | n + 1, s =>
    match s.queue with
    | [] => s
    | r :: _ =>
      if s.running then s
      else if r.op = .identify then
        let x := identify outcome s r
        runQueueFrom n (x.2.finish r x.1)
      else start vm bounceAddress { s with running := true } r

def runQueue (s : Kern) : Kern := runQueueFrom vm bounceAddress outcome s.queue.length s

/-- `blk_irq`. -/
def blkIrq (s : Kern) : Kern :=
  if s.running = false then s.setController s.controller.clear
  else
    match s.queue with
    | [] => s
    | r :: _ =>
      let c := s.controller.await outcome
      let result := idcResult c.regs
      let s := { s.setController c.clear with running := false }
      let s := if vm && result = fndOk && r.op = .read then s.copyOut r s.bounce else s
      runQueue vm bounceAddress outcome (s.finish r result)

/-- The first part of `blk_proc_exited`: the abort ends the command. -/
def abort (s : Kern) (p : ProcId) : Kern :=
  match s.queue with
  | [] => s
  | r :: rest =>
    if s.running && s.procOf r = p then
      { (s.setController (s.controller.await outcome).clear).note (.dropped r.id p (s.life p)) with
        running := false
        queue := rest }
    else s

/-- The loop of `blk_proc_exited`. -/
def keepOthers (s : Kern) (p : ProcId) : Kern :=
  { s with
    queue := s.queue.filter fun r => s.procOf r ≠ p
    log := ((s.queue.filter fun r => s.procOf r = p).map fun r => .dropped r.id p (s.life p)) ++ s.log }

/-- `blk_proc_exited`. -/
def blkProcExited (s : Kern) (p : ProcId) : Kern := runQueue vm bounceAddress outcome ((abort outcome s p).keepOthers p)

/-- `sched_kill_proc`. -/
def killProc (s : Kern) (p : ProcId) : Kern :=
  { s with thread := fun t =>
      if (s.thread t).proc = p ∧ (s.thread t).state ≠ .free then { s.thread t with state := .dead } else s.thread t }

/-- `mm_release` and what follows it. -/
def release (s : Kern) (p : ProcId) : Kern :=
  { s.note (.released p (s.life p)) with live := Function.update s.live p false }

/-- The order of `proc_exit`. -/
def procExit (s : Kern) (p : ProcId) : Kern := (blkProcExited vm bounceAddress outcome (s.killProc p) p).release p

end Driver

/-! ## The system call -/

/-- What `sys_blk_io` reads and asks. -/
structure IoCall where
  capDisk : Bool
  blk : Word
  drive : Word
  op : Word
  lba : Word
  count : Word
  buf : Word
  reserved : Word
  /-- `proc_user_range_ok`: start, size and whether for writing. -/
  rangeOk : Word -> Word -> Bool -> Bool

/-- `BLK_READ` to `BLK_IDENTIFY`. -/
def opOf (w : Word) : Option Op :=
  if w = 1 then some .read else if w = 2 then some .write else if w = 3 then some .identify else none

section Driver

variable (vm : Bool) (bounceAddress : Word) (outcome : Nat -> Regs)

/-- The end of `sys_blk_io`, for a request that is accepted. -/
def submit (s : Kern) (r : Req) : Word × Kern :=
  let s := { s.note (.accepted r.id (s.procOf r) (s.life (s.procOf r))) with issued := s.issued + 1 }
  if s.queue = [] ∧ r.op = .identify then
    let x := identify outcome s r
    (x.1, x.2.note (.completed r.id x.1))
  else (fndOk, runQueue vm bounceAddress outcome ({ s with queue := s.queue ++ [r] }.block r.thread))

/-- `sys_blk_io`. -/
def sysBlkIo (s : Kern) (t : ThreadId) (c : IoCall) : Word × Kern :=
  if c.capDisk = false then (FndError.access.code, s)
  else if c.blk &&& 3 ≠ 0 then (FndError.badArg.code, s)
  else if c.rangeOk c.blk 24 false = false then (FndError.access.code, s)
  else
    match opOf c.op with
    | none => (FndError.badArg.code, s)
    | some op =>
      if c.reserved ≠ 0 ∨ c.drive > 3 then (FndError.badArg.code, s)
      else if op ≠ .identify ∧ (c.count = 0 ∨ c.count > blkMaxCount) then (FndError.badArg.code, s)
      else if op ≠ .write ∧ c.buf &&& 3 ≠ 0 then (FndError.badArg.code, s)
      else if c.rangeOk c.buf (if op = .identify then 16 else c.count <<< 9) (op ≠ .write) = false then
        (FndError.access.code, s)
      else if s.queue.length ≥ maxThreads then (FndError.limit.code, s)
      else submit vm bounceAddress outcome s ⟨t, c.drive, op, c.lba, c.count, c.buf, s.issued⟩

/-- The system call, and R1 of a caller that still runs. -/
def handleBlkIo (s : Kern) (t : ThreadId) (c : IoCall) : Kern :=
  let done := sysBlkIo vm bounceAddress outcome s t c
  if (done.2.thread t).state = .running then done.2.setThread t { done.2.thread t with r1 := done.1 } else done.2

end Driver

end Kern

/-! ## Runs -/

inductive Label where
  | io (t : ThreadId) (c : Kern.IoCall)
  | irq
  | exit (p : ProcId)
  /-- The controller ends its command. -/
  | ends
  /-- A process slot is used again. -/
  | spawn (p : ProcId)
  | create (t : ThreadId) (p : ProcId)
  /-- Anything else that happens to a thread. -/
  | other (t : ThreadId)

section System

variable (vm : Bool) (bounceAddress : Word) (outcome : Nat -> Regs)

inductive Step (s : Kern) : Label -> Kern -> Prop where
  | io {t : ThreadId} (c : Kern.IoCall) (runs : (s.thread t).state = .running) (live : s.live (s.thread t).proc = true) :
      Step s (.io t c) (s.handleBlkIo vm bounceAddress outcome t c)
  | irq : Step s .irq (s.blkIrq vm bounceAddress outcome)
  | exit {p : ProcId} (live : s.live p = true) : Step s (.exit p) (s.procExit vm bounceAddress outcome p)
  | ends : Step s .ends (s.setController (s.controller.await outcome))
  | spawn {p : ProcId} (dead : s.live p = false) :
      Step s (.spawn p) { s with live := Function.update s.live p true, life := Function.update s.life p (s.life p + 1) }
  | create {t : ThreadId} {p : ProcId} (slot : (s.thread t).state = .free ∨ (s.thread t).state = .dead) (live : s.live p = true) :
      Step s (.create t p) (s.setThread t ⟨p, .ready, .none, 0⟩)
  | other {t : ThreadId} {slot : Slot} (before : ¬(s.thread t).waits) (after : ¬slot.waits) (proc : slot.proc = (s.thread t).proc) :
      Step s (.other t) (s.setThread t slot)

/-- The kernel with its controller, from the first process on. -/
def system : System Kern Label where
  initial := fun s => s.queue = [] ∧ s.running = false ∧ s.controller.active = none ∧ s.issued = 0 ∧ s.log = []
  step := Step vm bounceAddress outcome

end System

end Src32.Kernel.Blk
