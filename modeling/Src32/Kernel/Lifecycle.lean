import Src32.Kernel.Calls

namespace Src32.Kernel.Ipc

/-!
# Processes and threads

How processes and threads start, wait for each other and end: the parts of
`proc.c` and `ipc.c` that touch records, threads and handles.  What the memory
backend answers, and the regions it gives a process, come from outside.
-/

/-! ## Ending -/

/-- A visit of `ipc_proc_exited`: a wait for the process is over. -/
def procExitedVisit (p : ProcId) (k : Ipc) (t : ThreadId) : Ipc :=
  if (k.thread t).state = .blocked && (k.thread t).reason = .wait && (k.thread t).waitProc = some p then
    k.wake t fndOk
  else k

/-- `maybe_free`. -/
def maybeFree (k : Ipc) (p : ProcId) : Ipc := k.modifyProc p Proc.maybeFree

/-- `proc_exit`: the threads die, the handles close and whoever waits goes on. -/
def procExit (k : Ipc) (p : ProcId) (code : Word) : Ipc :=
  if (k.procs p).state ≠ .live then k
  else
    let killed := { k with sched := k.sched.killProc p }
    let unbound := killed.irqProcExited p
    let ended := unbound.modifyProc p fun proc =>
      { proc with threads := 0, exitCode := code, state := .exited }
    let closed := ended.handleCloseAll p
    let released := closed.modifyProc p fun proc => { proc with arenaLo := 0, arenaHi := 0 }
    (released.eachThread (procExitedVisit p)).maybeFree p

/-- `process_handle`. -/
def processHandle (k : Ipc) (p : ProcId) (h : Word) : Option ProcId :=
  match k.entry p h with
  | some (_, .proc target) => some target
  | _ => none

/-- `sys_proc_kill`. -/
def procKill (k : Ipc) (p : ProcId) (h : Word) : Except FndError Word × Ipc :=
  match k.processHandle p h with
  | none => (.error .badHandle, k)
  | some target => (.ok fndOk, k.procExit target FndError.killed.code)

/-- A visit of `sys_thread_exit`: a wait for the thread is over. -/
def threadExitVisit (ended : ThreadId) (k : Ipc) (t : ThreadId) : Ipc :=
  if (k.thread t).state = .blocked && (k.thread t).reason = .wait && (k.thread t).waitThread = some ended then
    k.wake t fndOk
  else k

/-- `sys_thread_exit`: the last thread ends its process. -/
def threadExit (k : Ipc) (t : ThreadId) (code : Word) : Ipc :=
  if (k.procs (k.procOf t)).threads ≤ 1 then k.procExit (k.procOf t) code
  else
    let fewer := k.modifyProc (k.procOf t) fun proc => { proc with threads := proc.threads - 1 }
    let ended := fewer.modifyThread t fun thread => { thread with exitCode := code, state := .dead }
    ended.eachThread (threadExitVisit t)

/-! ## Waiting -/

/-- What a WAIT names: a process or a thread. -/
def waitTarget (k : Ipc) (p : ProcId) (h : Word) : Option (ProcId ⊕ ThreadId) :=
  match k.entry p h with
  | some (_, .proc target) => some (.inl target)
  | some (_, .thread target) => some (.inr target)
  | _ => none

/-- The target has ended. -/
def hasEnded (k : Ipc) : ProcId ⊕ ThreadId -> Bool
  | .inl p => (k.procs p).state ≠ .live
  | .inr t => (k.thread t).state = .dead || (k.thread t).state = .free

/-- `sys_wait`. -/
def wait (mem : UserMemory) (k : Ipc) (t : ThreadId) (h timeout codePtr : Word) : Except FndError Word × Ipc :=
  match k.waitTarget (k.procOf t) h with
  | none => (.error .badHandle, k)
  | some target =>
    if target = .inr t then (.error .badArg, k)
    else
      match (if codePtr = 0 then .ok () else userStruct mem (k.procOf t) codePtr 4 permW) with
      | .error error => (.error error, k)
      | .ok () =>
        if k.hasEnded target then (.ok fndOk, k)
        else if timeout = 0 then (.error .wouldBlock, k)
        else
          let placed := k.modifyThread t fun thread =>
            { thread with waitProc := target.getLeft?, waitThread := target.getRight?, codePtr := codePtr }
          (.ok fndOk, placed.block t .wait timeout)

/-! ## Starting -/

/-- `start_proc`: the record is live with an empty table and its thread ready. -/
def startProc (k : Ipc) (p : ProcId) (t : ThreadId) (priority : Nat) : Ipc :=
  let started := k.modifyProc p fun proc => proc.started k.nextPid priority
  let empty := { started with
    nextPid := k.nextPid + 1
    handles := fun e => if e.1 = p then none else started.handles e
    history := { k.history with starts := Function.update k.history.starts p (k.history.starts p + 1) } }
  let filled := empty.modifyThread t fun thread =>
    { thread with r1 := 0, priority := priority, proc := some p }
  { filled with sched := filled.sched.makeReady t }

/-- What `check_grants` answers, and what the loader and the memory backend make
of an image: the plan before a thread is taken, and the address space behind it
with the regions of the process. -/
structure Built where
  granted : Except FndError Unit
  planned : Except FndError Unit
  mapped : Except FndError (List ProcRegion)

/-- `spawn_image` behind its first checks, and `fnd_proc_create_builtin`: the
record and its pid. -/
def spawnImage (k : Ipc) (priority : Nat) (caps parent : Word) (built : Built) :
    Except FndError Word × Ipc :=
  match built.granted with
  | .error error => (.error error, k)
  | .ok () =>
    match claimable k.procs with
    | none => (.error .limit, k)
    | some p =>
      let k := k.modifyProc p Proc.claimed
      match built.planned with
      | .error error => (.error error, k)
      | .ok () =>
        match k.sched.allocThread with
        | none => (.error .limit, k)
        | some (t, sched) =>
          let k := { k with sched := sched }
          match built.mapped with
          | .error error => (.error error, k)
          | .ok regions =>
            let filled := k.modifyProc p fun proc =>
              { proc with regions := regions, parent := parent, caps := caps }
            (.ok k.nextPid, filled.startProc p t priority)

/-- `fnd_proc_get`: the first record in use with this pid. -/
def procGet (k : Ipc) (pid : Word) : Option ProcId :=
  (List.finRange 10).find? fun p => (k.procs p).state ≠ .free && (k.procs p).pid = pid

/-- `fnd_spawn` as copied from the caller, and the numbers of the handles for
the child. -/
structure SpawnArgs where
  image : Word
  imageLen : Word
  startup : Word
  startupLen : Word
  handles : Word
  handleCount : Word
  priority : Word
  caps : Word
  grants : Word
  grantCount : Word
  name : Word
  libs : Word

/-- `FND_CAP_PRIO`. -/
def fndCapPrio : Word := 1

/-- `FND_CAP_MMIO`. -/
def fndCapMmio : Word := 16

/-- `FND_CAP_ALL`. -/
def fndCapAll : Word := 31

/-- `FND_SPAWN_IMAGE_MAX`. -/
def fndSpawnImageMax : Word := 0x300000

/-- `FND_SPAWN_MAX_HANDLES`. -/
def fndSpawnMaxHandles : Word := 16

/-- The fields of a `fnd_spawn` at an address. -/
def spawnArgsAt (mem : UserMemory) (proc : ProcId) (addr : Word) : SpawnArgs where
  image := mem.word proc addr
  imageLen := mem.word proc (addr + 4)
  startup := mem.word proc (addr + 8)
  startupLen := mem.word proc (addr + 12)
  handles := mem.word proc (addr + 16)
  handleCount := mem.word proc (addr + 20)
  priority := mem.word proc (addr + 24)
  caps := mem.word proc (addr + 28)
  grants := mem.word proc (addr + 32)
  grantCount := mem.word proc (addr + 36)
  name := mem.word proc (addr + 40)
  libs := mem.word proc (addr + 44)

/-- The checks of `proc_spawn` up to its rights. -/
def checkSpawn (mem : UserMemory) (k : Ipc) (caller : ProcId) (addr : Word) : Except FndError SpawnArgs :=
  if addr &&& 3 ≠ 0 then .error .badArg
  else if !mem.rangeOk caller addr 48 permR then .error .access
  else
    let sp := spawnArgsAt mem caller addr
    if sp.libs &&& 3 ≠ 0 ∨ sp.priority.toNat > fndPrioApp ∨ sp.caps &&& ~~~fndCapAll ≠ 0 ∨
        (sp.handles ||| sp.grants) &&& 3 ≠ 0 then .error .badArg
    else if sp.imageLen > fndSpawnImageMax ∨ sp.startupLen > 4096 ∨ sp.handleCount > fndSpawnMaxHandles ∨
        sp.grantCount.toNat > fndMaxGrants then .error .limit
    else if !mem.rangeOk caller sp.image sp.imageLen permR ∨ !mem.rangeOk caller sp.startup sp.startupLen permR ∨
        !mem.rangeOk caller sp.handles (4 * sp.handleCount) permR ∨
        !mem.rangeOk caller sp.grants (12 * sp.grantCount) permR then .error .access
    else if sp.caps &&& ~~~(k.procs caller).caps ≠ 0 ∨
        (sp.priority.toNat < (k.procs caller).priority ∧ (k.procs caller).caps &&& fndCapPrio = 0) ∨
        (sp.grantCount ≠ 0 ∧ (k.procs caller).caps &&& fndCapMmio = 0) then .error .access
    else .ok sp

/-- The numbers of the handles for the child. -/
def spawnHandles (mem : UserMemory) (caller : ProcId) (sp : SpawnArgs) : List Word :=
  (List.range sp.handleCount.toNat).map fun i => mem.word caller (sp.handles + 4 * BitVec.ofNat 32 i)

/-- The handles of a new child, one dup each. -/
def passHandles (k : Ipc) (caller child : ProcId) (handles : List Word) : Ipc :=
  handles.foldl (fun k h => (k.handleDupInto caller h child).2) k

/-- `proc_spawn`.  The reads of the name, the grants and the libraries come from
outside, as `early` and `late` around the checks of the handles. -/
def procSpawn (mem : UserMemory) (early late : Except FndError Unit) (built : Built) (k : Ipc)
    (caller : ProcId) (addr : Word) : Except FndError Word × Ipc :=
  match checkSpawn mem k caller addr with
  | .error error => (.error error, k)
  | .ok sp =>
    match early with
    | .error error => (.error error, k)
    | .ok () =>
      if (spawnHandles mem caller sp).any fun h => (k.entry caller h).isNone then (.error .badHandle, k)
      else if k.handleFreeCount caller = 0 then (.error .limit, k)
      else
        match late with
        | .error error => (.error error, k)
        | .ok () =>
          match k.spawnImage sp.priority.toNat sp.caps (k.procs caller).pid built with
          | (.error error, k) => (.error error, k)
          | (.ok pid, k) =>
            if pid.msb then (.ok pid, k)
            else
              match k.procGet pid with
              | none => (.ok pid, k)
              | some child =>
                (k.passHandles caller child (spawnHandles mem caller sp)).handleAdd caller (.proc child)

/-- What `proc_fork` copies from the parent's record to the child's. -/
def forkRecord (parent child : Proc) : Proc :=
  { child with
    parent := parent.pid, caps := parent.caps, regions := parent.regions, heapStart := parent.heapStart
    heapEnd := parent.heapEnd, heapLimit := parent.heapLimit, heapRegion := parent.heapRegion }

/-- The refusals of `proc_fork` that change nothing. -/
def checkFork (k : Ipc) (vm : Bool) (parent : ProcId) : Except FndError Unit :=
  if !vm then .error .unsupported
  else if (k.procs parent).threads ≠ 1 then .error .busy
  else if (k.procs parent).regions.any ProcRegion.mmio then .error .access
  else if (List.finRange 63).any fun i => match k.handles (parent, i) with
      | some (.thread _) => true
      | _ => false then .error .access
  else if k.handleFreeCount parent = 0 then .error .limit
  else .ok ()

/-- `proc_fork`.  The clone of the address space comes from outside. -/
def procFork (vm : Bool) (cloned : Except FndError Unit) (k : Ipc) (t : ThreadId) : Except FndError Word × Ipc :=
  let parent := k.procOf t
  match k.checkFork vm parent with
  | .error error => (.error error, k)
  | .ok () =>
    match claimable k.procs with
    | none => (.error .limit, k)
    | some child =>
      let k := k.modifyProc child Proc.claimed
      match k.sched.allocThread with
      | none => (.error .limit, k)
      | some (first, sched) =>
        let k := { k with sched := sched }
        match cloned with
        | .error error => (.error error, k)
        | .ok () =>
          let copied := k.modifyProc child (forkRecord (k.procs parent))
          let started := copied.startProc child first (k.procs parent).priority
          let answered := started.modifyThread first fun thread => { thread with r1 := 0 }
          (answered.handleClone parent child).handleAdd parent (.proc child)

/-- `sys_thread_create`. -/
def threadCreate (mem : UserMemory) (k : Ipc) (caller : ThreadId) (entryPc sp arg : Word) :
    Except FndError Word × Ipc :=
  let p := k.procOf caller
  if entryPc &&& 3 ≠ 0 ∨ sp &&& 7 ≠ 0 then (.error .badArg, k)
  else if !mem.rangeOk p entryPc 4 permX ∨ !mem.rangeOk p sp 8 (permR ||| permW) then (.error .access, k)
  else if k.handleFreeCount p = 0 then (.error .limit, k)
  else
    match k.sched.allocThread with
    | none => (.error .limit, k)
    | some (t, sched) =>
      let filled := { k with sched := sched }.modifyThread t fun thread =>
        { thread with
          r1 := arg, priority := (k.thread caller).priority, proc := (k.thread caller).proc, exitCode := 0 }
      match filled.handleAdd p (.thread t) with
      | (.error error, k) => (.error error, k)
      | (.ok h, k) =>
        let counted := k.modifyProc p fun proc => { proc with threads := proc.threads + 1 }
        (.ok h, { counted with sched := counted.sched.makeReady t })

end Src32.Kernel.Ipc
