import Src32.Kernel.Process
import Src32.Lib.Runs
import Src32.Wax.Load

namespace Src32.Kernel

/-!
# Processes without address translation

The backend without an MMU: a process gets one contiguous arena of RAM, its
executable is planned and moved into it, and the heap grows in place.  A
function that may fail returns its result beside the state it leaves, which a
failure may have changed as well.
-/

/-- What the backend keeps: the page pool, the process table and the RAM. -/
structure Nommu where
  pool : Pool
  procs : ProcId -> Proc
  mem : Wax.Memory
  nextPid : Word

namespace Nommu

def setProc (s : Nommu) (p : ProcId) (proc : Proc) : Nommu := { s with procs := Function.update s.procs p proc }

end Nommu

/-! ## Memory -/

/-- The word loop of `kmem_zero`. -/
def zeroWords : Nat -> Word -> Wax.Memory -> Wax.Memory
  | 0, _, mem => mem
  | n + 1, at_, mem => zeroWords n (at_ + 4) (Wax.storeWord mem at_ 0)

/-- `kmem_zero`: the whole words of a range. -/
def kmemZero (start stop : Word) (mem : Wax.Memory) : Wax.Memory :=
  zeroWords ((stop - start) / 4).toNat start mem

/-- The byte loop in front of a range that does not start at a word: at most
three bytes. -/
def zeroToWord : Nat -> Word -> Wax.Memory -> Word × Wax.Memory
  | 0, from_, mem => (from_, mem)
  | n + 1, from_, mem =>
    if from_ &&& 3 = 0 then (from_, mem) else zeroToWord n (from_ + 1) (Function.update mem from_ 0)

/-! ## Planning -/

/-- `RELOC_PROBE_BASE`: the load address pass 1 sizes a relocatable executable
at. -/
def relocProbeBase : Word := 0x01000000

/-- `RELOC_WINDOW`: how far above the sizing load address libraries may go. -/
def relocWindow : Word := 0x08000000

/-- `DEFAULT_HEAP`. -/
def defaultHeap : Word := 0x20000

/-- Where an executable linked to fixed addresses goes: what it reserves, stack
included. -/
def fixedTarget (info : Wax.Info) : Wax.Target := launchTarget (Page.down info.low) (Page.up info.high) 0

/-- The trial target of pass 1: the window starts at the stack's page. -/
def probeTarget (info : Wax.Info) : Wax.Target :=
  let windowStart := relocProbeBase - Page.up info.stackSize
  launchTarget windowStart (windowStart + relocWindow) relocProbeBase

/-- The room for the heap that a relocatable executable gets. -/
def heapReserve (info : Wax.Info) : Word := Page.up (if info.heapHint ≠ 0 then info.heapHint else defaultHeap)

/-- A launch with its arena. -/
structure ArenaPlan where
  launch : Wax.Launch
  lo : Word
  hi : Word

/-- `plan_arena` for an executable linked to fixed addresses. -/
def planFixed (pool : Pool) (data : Wax.File) (libs : List Wax.File) (info : Wax.Info) :
    Except FndError ArenaPlan × Pool :=
  match Wax.waxPlan data libs (fixedTarget info) with
  | .error failure => (.error (waxStatus failure.error), pool)
  | .ok launch =>
    match pool.arenaClaim (fixedTarget info).windowStart (fixedTarget info).windowEnd with
    | .error error => (.error error, pool)
    | .ok taken => (.ok ⟨launch, (fixedTarget info).windowStart, (fixedTarget info).windowEnd⟩, taken)

/-- `plan_arena` for a relocatable executable: planned at a trial address to
learn how much room it needs, then moved into the arena. -/
def planRelocatable (pool : Pool) (data : Wax.File) (libs : List Wax.File) (info : Wax.Info) :
    Except FndError ArenaPlan × Pool :=
  match Wax.waxPlan data libs (probeTarget info) with
  | .error failure => (.error (waxStatus failure.error), pool)
  | .ok launch =>
    let used := launch.top - (probeTarget info).windowStart
    if used > relocWindow - heapReserve info then (.error .noMemory, pool)
    else
      let length := Page.up (used + heapReserve info)
      match pool.arenaAlloc length with
      | none => (.error .noMemory, pool)
      | some (arena, taken) =>
        match Wax.waxRebase launch (arena - (probeTarget info).windowStart) with
        | .error error => (.error (waxStatus error), taken.arenaFree arena (arena + length))
        | .ok moved => (.ok ⟨moved, arena, arena + length⟩, taken)

def planArena (pool : Pool) (data : Wax.File) (libs : List Wax.File) : Except FndError ArenaPlan × Pool :=
  match Wax.waxInspect data with
  | .error error => (.error (waxStatus error), pool)
  | .ok info => if info.relocatable then planRelocatable pool data libs info else planFixed pool data libs info

/-! ## Spawning -/

/-- What `spawn_image` is called with. -/
structure SpawnRequest where
  priority : Nat
  caps : Word
  parent : Word
  image : Wax.File
  libs : List Wax.File
  grants : List Grant
  startupLen : Nat

/-- `FND_STARTUP_MAX`. -/
def fndStartupMax : Nat := 4096

namespace Nommu

/-- The end of `spawn_image`: the image is loaded and the record filled in. -/
def startImage (s : Nommu) (p : ProcId) (request : SpawnRequest) (plan : ArenaPlan) (aligned : Bool) : Nommu :=
  let proc := { s.procs p with
    arenaLo := plan.lo, arenaHi := plan.hi, regions := procRegions plan.launch request.grants,
    parent := request.parent, caps := request.caps }
  let filled := planHeap false plan.launch request.grants proc
  { s with
    procs := Function.update s.procs p (filled.started s.nextPid request.priority)
    mem := Wax.waxLoad plan.launch aligned 0 s.mem
    nextPid := s.nextPid + 1 }

/-- `spawn_image` with a record: the arena is planned and given back when the
regions do not suffice or no thread is free. -/
def spawnInto (s : Nommu) (p : ProcId) (request : SpawnRequest) (threadFree aligned : Bool) :
    Except FndError Word × Nommu :=
  let s := s.setProc p (s.procs p).claimed
  match planArena s.pool request.image request.libs with
  | (.error error, pool) => (.error error, { s with pool := pool })
  | (.ok plan, pool) =>
    let s := { s with pool := pool }
    if plan.launch.regions.length + request.grants.length > fndRegions then
      (.error .regionLimit, { s with pool := pool.arenaFree plan.lo plan.hi })
    else if !threadFree then (.error .limit, { s with pool := pool.arenaFree plan.lo plan.hi })
    else (.ok s.nextPid, s.startImage p request plan aligned)

/-- `spawn_image`.  Whether a thread is free and whether the image lies at a
multiple of 4 comes from outside. -/
def spawnImage (s : Nommu) (request : SpawnRequest) (threadFree aligned : Bool) : Except FndError Word × Nommu :=
  if request.priority > fndPrioApp ∨ request.libs.length > fndMaxLibraries ∨ request.startupLen > fndStartupMax then
    (.error .badArg, s)
  else
    match checkGrants false s.procs request.grants with
    | .error error => (.error error, s)
    | .ok () =>
      match claimable s.procs with
      | none => (.error .limit, s)
      | some p => s.spawnInto p request threadFree aligned

end Nommu

/-! ## Code linked into the kernel -/

/-- `slot_bounds`: the fixed ranges builtin processes ask for by index. -/
def slotBounds : List Word :=
  [0x00400000, 0x00480000, 0x00500000, 0x00580000, 0x00600000, 0x00800000, 0x00C00000, 0x01000000]

/-- `FND_SLOTS`. -/
def fndSlots : Nat := 7

/-- What `fnd_proc_create_builtin` is called with. -/
structure BuiltinRequest where
  slot : Nat
  priority : Nat
  ramSize : Word
  codeStart : Word
  codeEnd : Word
  entry : Word
  arg : Word

/-- The range of the slot. -/
def BuiltinRequest.base (request : BuiltinRequest) : Word := slotBounds.getD request.slot 0

def BuiltinRequest.stop (request : BuiltinRequest) : Word := slotBounds.getD (request.slot + 1) 0

/-- The data and stack at the top of the slot. -/
def BuiltinRequest.ram (request : BuiltinRequest) : Word := request.stop - request.ramSize

/-- The argument checks of `fnd_proc_create_builtin`. -/
def checkBuiltin (request : BuiltinRequest) : Except FndError Unit :=
  if request.slot ≥ fndSlots ∨ request.priority > fndPrioApp then .error .badArg
  else if request.ramSize < 64 ∨ request.ramSize &&& 7 ≠ 0 ∨ request.ramSize > request.stop - request.base then
    .error .badArg
  else if request.codeStart ≥ request.codeEnd ∨ request.entry < request.codeStart ∨
      request.entry ≥ request.codeEnd ∨ request.entry &&& 3 ≠ 0 then .error .badArg
  else if request.codeStart < request.stop ∧ request.base < request.codeEnd then .error .addressConflict
  else .ok ()

namespace Nommu

/-- The record of a builtin process: its data, then its code. -/
def builtinProc (proc : Proc) (request : BuiltinRequest) : Proc :=
  { proc with
    arenaLo := Page.down request.ram, arenaHi := Page.up request.stop, parent := 0, caps := 0, heapStart := 0,
    heapEnd := 0, heapLimit := 0
    regions := [⟨request.ram, request.stop, permR ||| permW, true, false⟩,
      ⟨request.codeStart, request.codeEnd, permR ||| permX, false, false⟩] }

/-- `fnd_proc_create_builtin`. -/
def createBuiltin (s : Nommu) (request : BuiltinRequest) (threadFree : Bool) : Except FndError Word × Nommu :=
  match checkBuiltin request with
  | .error error => (.error error, s)
  | .ok () =>
    match claimable s.procs with
    | none => (.error .limit, s)
    | some p =>
      let s := s.setProc p (s.procs p).claimed
      if !threadFree then (.error .limit, s)
      else
        match s.pool.arenaClaim request.ram request.stop with
        | .error error => (.error error, s)
        | .ok pool =>
          let proc := (builtinProc (s.procs p) request).started s.nextPid request.priority
          (.ok s.nextPid,
            { pool := pool
              procs := Function.update s.procs p proc
              mem := Wax.storeWord (kmemZero request.ram request.stop s.mem) (request.stop - 8) request.arg
              nextPid := s.nextPid + 1 })

/-! ## The heap -/

/-- The room of `proc_mem_grow`: the arena grows when the heap ends it and the
pages above are free. -/
def growRoom (pool : Pool) (proc : Proc) (delta : Word) : Option (Pool × Proc) :=
  if delta > proc.heapLimit - proc.heapEnd then
    let want := Page.up (proc.heapEnd + delta)
    if proc.heapLimit ≠ proc.arenaHi ∨ want < proc.heapEnd then none
    else
      match pool.arenaExtend proc.arenaHi want with
      | none => none
      | some pool => some (pool, { proc with arenaHi := want, heapLimit := want })
  else some (pool, proc)

/-- The heap region, made when there is none yet. -/
def heapRegionOf (proc : Proc) : Option Proc :=
  if proc.heapRegion = fndProcRegions then
    if proc.regions.length = fndRegions then none
    else
      some { proc with
        heapRegion := proc.regions.length
        regions := proc.regions ++ [⟨proc.heapEnd, proc.heapEnd, permR ||| permW, true, false⟩] }
  else some proc

/-- The end of the heap region. -/
def heapFrom (proc : Proc) : Word := ((proc.regions[proc.heapRegion]?).map ProcRegion.stop).getD 0

/-- The heap region ends at `stop`. -/
def heapGrown (proc : Proc) (stop : Word) : Proc :=
  { proc with
    heapEnd := stop
    regions := proc.regions.modify proc.heapRegion fun r => { r with stop := stop } }

/-- `proc_mem_grow` of the process in slot `p`: the old end of the heap. -/
def memGrow (s : Nommu) (p : ProcId) (delta : Word) : Except FndError Word × Nommu :=
  let proc := s.procs p
  if delta &&& 7 ≠ 0 ∨ delta.msb then (.error .badArg, s)
  else if delta = 0 then (.ok proc.heapEnd, s)
  else if proc.heapLimit = 0 ∨ proc.heapEnd > proc.heapLimit then (.error .noMemory, s)
  else
    match growRoom s.pool proc delta with
    | none => (.error .noMemory, s)
    | some (pool, roomy) =>
      let s := { s.setProc p roomy with pool := pool }
      match heapRegionOf roomy with
      | none => (.error .regionLimit, s)
      | some proc =>
        let stop := proc.heapEnd + delta
        let cleared := zeroToWord 3 (heapFrom proc) s.mem
        (.ok proc.heapEnd,
          { s.setProc p (heapGrown proc stop) with mem := kmemZero cleared.1 stop cleared.2 })

/-! ## Ending -/

/-- The owned ranges of a process are zeroed. -/
def zeroOwned (regions : List ProcRegion) (mem : Wax.Memory) : Wax.Memory :=
  regions.foldl (fun mem r => if r.owned then kmemZero r.start r.stop mem else mem) mem

/-- `proc_exit`: the memory of the process in slot `p` goes back to the pool. -/
def exit (s : Nommu) (p : ProcId) (code : Word) : Nommu :=
  let proc := s.procs p
  if proc.state ≠ .live then s
  else
    let ended :=
      { proc with threads := 0, exitCode := code, state := .exited, arenaLo := 0, arenaHi := 0 }
    { s with
      pool := s.pool.arenaFree proc.arenaLo proc.arenaHi
      procs := Function.update s.procs p ended.maybeFree
      mem := zeroOwned proc.regions s.mem }

/-- A PROCESS handle of the process in slot `p` closes. -/
def release (s : Nommu) (p : ProcId) : Nommu := s.setProc p (s.procs p).release

/-- A PROCESS handle of the process in slot `p` is made. -/
def retain (s : Nommu) (p : ProcId) : Nommu := s.setProc p { s.procs p with refs := (s.procs p).refs + 1 }

end Nommu
end Src32.Kernel
