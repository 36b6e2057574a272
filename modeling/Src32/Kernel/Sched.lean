import Mathlib.Data.List.FinRange
import Src32.Kernel.Status
import Src32.Kernel.Thread
import Src32.Lib.LinkedQueue

namespace Src32.Kernel

/-!
# The scheduler

Priorities with a first-in first-out queue each, a tick that ends time slices
and waits, and the choice of the thread that a trap returns to.  The queues
are linked through the threads and a killed thread is left in its queue until
it comes up.
-/

/-- The state of the scheduler. -/
structure Sched where
  threads : ThreadId -> Thread
  /-- `queue_head`, `queue_tail` and the link of every thread. -/
  queues : Bank Nat ThreadId
  /-- The running thread; none is the idle thread. -/
  current : Option ThreadId
  ticks : Word
  switches : Word
  needResched : Bool

namespace Sched

def modify (s : Sched) (t : ThreadId) (change : Thread -> Thread) : Sched :=
  { s with threads := Function.update s.threads t (change (s.threads t)) }

/-- Every thread of the table, changed in the order of the slots. -/
def eachThread (s : Sched) (visit : Sched -> ThreadId -> Sched) : Sched :=
  (List.finRange 16).foldl visit s

/-- `fnd_current->priority`. -/
def currentPriority (s : Sched) : Nat :=
  match s.current with
  | none => fndPrioIdle
  | some t => (s.threads t).priority

/-- The current thread is a user thread in `T_RUNNING`. -/
def runsUser (s : Sched) : Bool :=
  match s.current with
  | none => false
  | some t => (s.threads t).state = .running

/-! ## Slots and queues -/

/-- A slot the allocator may hand out. -/
def reusable (s : Sched) (t : ThreadId) : Bool :=
  ((s.threads t).state = .free || (s.threads t).state = .dead) && s.current ≠ some t && (s.threads t).refs = 0

/-- The slot `sched_alloc_thread` takes. -/
def freeSlot (s : Sched) : Option ThreadId := (List.finRange 16).find? s.reusable

/-- What `sched_alloc_thread` does to the slot it takes. -/
def clearSlot (s : Sched) (t : ThreadId) : Sched :=
  let cleared := s.modify t fun thread =>
    { thread with
      state := .free, waitProc := none, waitThread := none, reason := .none, timed := false,
      slice := fndSliceTicks }
  { cleared with queues := { s.queues with next := Function.update s.queues.next t none } }

def allocThread (s : Sched) : Option (ThreadId × Sched) :=
  match s.freeSlot with
  | none => none
  | some t => some (t, s.clearSlot t)

def enqueue (s : Sched) (t : ThreadId) (atHead : Bool) : Sched :=
  let p := (s.threads t).priority
  let ready := s.modify t fun thread => { thread with state := .ready }
  { ready with queues := if atHead then s.queues.pushFront p t else s.queues.pushBack p t }

/-- The inner loop of `dequeue`: threads leave queue `p` until a ready one
comes up. -/
def drain (p : Nat) : Nat -> Sched -> Option ThreadId × Sched
  | 0, s => (none, s)
  | fuel + 1, s =>
    match s.queues.head p with
    | none => (none, s)
    | some t =>
      if (s.threads t).state = .ready then (some t, { s with queues := s.queues.popFront p t })
      else drain p fuel { s with queues := s.queues.popFront p t }

/-- Every round of the inner loop clears one link, so it ends in fewer rounds
than there are threads and one more. -/
def drainFuel : Nat := 17

def dequeueFrom : List Nat -> Sched -> Option ThreadId × Sched
  | [], s => (none, s)
  | p :: rest, s =>
    match drain p drainFuel s with
    | (some t, s) => (some t, s)
    | (none, s) => dequeueFrom rest s

def dequeue (s : Sched) : Option ThreadId × Sched := dequeueFrom (List.range priorities) s

/-- Someone more urgent than the current thread became ready. -/
def noteUrgent (s : Sched) (t : ThreadId) : Sched :=
  if (s.threads t).priority < s.currentPriority then { s with needResched := true } else s

/-- The single place that unblocks a thread: `result` is its R1. -/
def wake (s : Sched) (t : ThreadId) (result : Word) : Sched :=
  let woken := s.modify t fun thread => { thread with r1 := result, reason := .none, timed := false }
  (woken.enqueue t false).noteUrgent t

def makeReady (s : Sched) (t : ThreadId) : Sched :=
  let clamped :=
    if priorities ≤ (s.threads t).priority then s.modify t fun thread => { thread with priority := fndPrioApp }
    else s
  (clamped.enqueue t false).noteUrgent t

/-! ## Ticks -/

/-- A visit of `ipc_pec_poll`: a read the device has answered is over. -/
def pecVisit (answered : ThreadId -> Bool) (s : Sched) (t : ThreadId) : Sched :=
  if (s.threads t).state = .blocked && (s.threads t).reason = .pecRead && answered t then s.wake t fndOk else s

/-- The result of a wait that timed out: a sleep is over, any other wait
failed. -/
def timedOut (thread : Thread) : Word :=
  if thread.reason = .sleep then fndOk else FndError.timeout.code

/-- A visit of the tick: a wait whose tick has come is over.  Ticks wrap and
are compared by the sign of their difference. -/
def tickVisit (s : Sched) (t : ThreadId) : Sched :=
  if (s.threads t).state = .blocked && (s.threads t).timed && !(s.ticks - (s.threads t).wakeTick).msb then
    s.wake t (timedOut (s.threads t))
  else s

/-- The slice of the current user thread runs down. -/
def useSlice (s : Sched) : Sched :=
  match s.current with
  | none => s
  | some t =>
    if (s.threads t).state = .running then
      let used := s.modify t fun thread => { thread with slice := thread.slice - 1 }
      if (used.threads t).slice = 0 then { used with needResched := true } else used
    else s

def tick (s : Sched) (answered : ThreadId -> Bool) : Sched :=
  let counted := { s with ticks := s.ticks + 1 }
  let polled := counted.eachThread (pecVisit answered)
  (polled.eachThread tickVisit).useSlice

/-! ## Blocking and ending -/

def yield (s : Sched) (t : ThreadId) : Sched :=
  { s.modify t (fun thread => { thread with slice := 0 }) with needResched := true }

def block (s : Sched) (t : ThreadId) (reason : Reason) (timeout : Word) : Sched :=
  s.modify t fun thread =>
    { thread with
      state := .blocked, reason := reason, timed := timeout ≠ fndForever, wakeTick := s.ticks + timeout,
      r1 := fndOk }

def sleep (s : Sched) (t : ThreadId) (count : Word) : Sched :=
  if count = 0 then s.yield t else s.block t .sleep count

/-- All threads of `proc` die; `dequeue` is to skip them. -/
def killProc (s : Sched) (proc : ProcId) : Sched :=
  { s with
    threads := fun t =>
      if (s.threads t).proc = some proc && (s.threads t).state ≠ .free then { s.threads t with state := .dead }
      else s.threads t }

/-- A visit of `sys_thread_exit`: a wait for the thread is over. -/
def exitVisit (ended : ThreadId) (s : Sched) (t : ThreadId) : Sched :=
  if (s.threads t).state = .blocked && (s.threads t).reason = .wait && (s.threads t).waitThread = some ended then
    s.wake t fndOk
  else s

/-- The part of `sys_thread_exit` that ends a thread of a process that has
others. -/
def threadExit (s : Sched) (t : ThreadId) (code : Word) : Sched :=
  let ended := s.modify t fun thread => { thread with exitCode := code, state := .dead }
  ended.eachThread (exitVisit t)

/-! ## Creating threads -/

/-- `sys_thread_create` behind its checks: a thread of the caller's process
and priority, held by the handle it is answered with. -/
def threadCreate (s : Sched) (caller : ThreadId) : Sched :=
  match s.allocThread with
  | none => s
  | some (t, taken) =>
    let filled := taken.modify t fun thread =>
      { thread with
        priority := (s.threads caller).priority, proc := (s.threads caller).proc, exitCode := 0,
        refs := thread.refs + 1 }
    filled.makeReady t

/-- A slot is taken for the first thread of `proc`, which `start_proc` readies
unless building the process fails before. -/
def procCreate (s : Sched) (proc : ProcId) (priority : Nat) (starts : Bool) : Sched :=
  match s.allocThread with
  | none => s
  | some (t, taken) =>
    if starts then
      (taken.modify t fun thread => { thread with priority := priority, proc := some proc }).makeReady t
    else taken

/-! ## The choice of the next thread -/

/-- The current thread goes back to its queue: behind the others when its
slice is used up, to the front when it was preempted. -/
def requeue (s : Sched) (t : ThreadId) : Sched :=
  if (s.threads t).slice = 0 then
    (s.modify t fun thread => { thread with slice := fndSliceTicks }).enqueue t false
  else s.enqueue t true

/-- The chosen thread runs. -/
def resume (s : Sched) (next : Option ThreadId) : Sched :=
  let running :=
    match next with
    | none => s
    | some t => s.modify t fun thread => { thread with state := .running }
  { running with switches := if next = s.current then s.switches else s.switches + 1, current := next }

/-- The end of `sched_next`. -/
def dispatch (s : Sched) : Sched :=
  let chosen := { s with needResched := false }.dequeue
  chosen.2.resume chosen.1

def schedNext (s : Sched) : Sched :=
  match s.current with
  | none => s.dispatch
  | some t =>
    if (s.threads t).state = .running then
      if s.needResched then (s.requeue t).dispatch else s
    else s.dispatch

end Sched
end Src32.Kernel
