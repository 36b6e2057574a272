import Src32.Machine.Word

namespace Src32.Kernel

/-!
# Threads

The record the kernel keeps of a user thread.  A thread is named by its slot
in the thread table and a process by its slot in the process table.  The
ready-queue link of a thread is stored with the queues and the saved user
context is reduced to R1, the only register the scheduler writes.
-/

/-- A slot of the thread table (FND_MAX_THREADS of them). -/
abbrev ThreadId := Fin 16

/-- A slot of the process table (FND_MAX_PROCS of them). -/
abbrev ProcId := Fin 10

/-- A slot of the port table (MAX_PORTS of them). -/
abbrev PortId := Fin 32

scoped instance threadSlots : NeZero 16 := ⟨by decide⟩

scoped instance procSlots : NeZero 10 := ⟨by decide⟩

/-- `T_FREE` to `T_DEAD`. -/
inductive ThreadState where
  | free
  | ready
  | running
  | blocked
  | dead
  deriving DecidableEq, Repr

/-- Why a thread is blocked: `B_NONE` to `B_PEC_READ`. -/
inductive Reason where
  | none
  | send
  | reply
  | recv
  | sleep
  | wait
  | blkIo
  | pecRead
  deriving DecidableEq, Repr

/-- `fnd_msg`. -/
structure Msg where
  op : Word
  flags : Word
  a0 : Word
  a1 : Word
  a2 : Word
  a3 : Word
  buf : Word
  len : Word
  deriving DecidableEq, Repr

/-- `fnd_thread`. -/
structure Thread where
  /-- R1 of the saved user context: the result of its system call. -/
  r1 : Word
  state : ThreadState
  reason : Reason
  /-- Blocked with a wake-up tick. -/
  timed : Bool
  wakeTick : Word
  priority : Nat
  /-- Ticks left in the current time slice. -/
  slice : Nat
  proc : Option ProcId
  port : Option PortId
  seq : Word
  gen : Word
  badge : Word
  /-- The request as sent. -/
  req : Msg
  /-- The reply structure of a caller. -/
  rep : Word
  repBuf : Word
  repCap : Word
  /-- The `fnd_recv` of a receiver. -/
  rcv : Word
  waitProc : Option ProcId
  waitThread : Option ThreadId
  codePtr : Word
  /-- THREAD handles: the slot is kept until they close. -/
  refs : Nat
  exitCode : Word
  deriving DecidableEq, Repr

/-- A record of the zeroed thread table. -/
def Thread.zero : Thread where
  r1 := 0
  state := .free
  reason := .none
  timed := false
  wakeTick := 0
  priority := 0
  slice := 0
  proc := none
  port := none
  seq := 0
  gen := 0
  badge := 0
  req := ⟨0, 0, 0, 0, 0, 0, 0, 0⟩
  rep := 0
  repBuf := 0
  repCap := 0
  rcv := 0
  waitProc := none
  waitThread := none
  codePtr := 0
  refs := 0
  exitCode := 0

/-- A wait without end: `FND_FOREVER`. -/
def fndForever : Word := 0xFFFFFFFF

/-- Queued priorities; the idle priority is not queued. -/
def priorities : Nat := 3

def fndPrioApp : Nat := 2

def fndPrioIdle : Nat := 3

/-- The ticks of a time slice. -/
def fndSliceTicks : Nat := 1

end Src32.Kernel
