import Src32.Kernel.Pool
import Src32.Kernel.Thread
import Src32.Wax.Plan

namespace Src32.Kernel

/-!
# Process records

The record of a process, the MMIO windows that may be granted, and the parts
of a launch that do not depend on the memory backend: claiming a record,
planning the heap and starting the process.
-/

/-- `FND_REGIONS`: the protection regions of the CPU. -/
def fndRegions : Nat := 8

/-- `FND_PROC_REGIONS`: the regions a record holds, and no heap region yet. -/
def fndProcRegions : Nat := 16

def fndMaxGrants : Nat := 8

def fndMaxLibraries : Nat := 16

def permR : Word := 1
def permW : Word := 2
def permX : Word := 4

/-- `enum fnd_proc_state`. -/
inductive ProcState where
  | free
  | live
  | exited
  deriving DecidableEq, Repr

/-- `fnd_region`. -/
structure ProcRegion where
  start : Word
  stop : Word
  flags : Word
  /-- Zeroed and released when the process ends. -/
  owned : Bool
  /-- An MMIO grant: never a RAM region. -/
  mmio : Bool
  deriving DecidableEq, Repr

/-- `fnd_proc`, without its name, handles and statistics. -/
structure Proc where
  state : ProcState
  pid : Word
  /-- The pid of the spawner, 0 for the kernel. -/
  parent : Word
  arenaLo : Word
  arenaHi : Word
  priority : Nat
  caps : Word
  /-- Live threads. -/
  threads : Nat
  /-- PROCESS handles: the record stays until they close. -/
  refs : Nat
  exitCode : Word
  regions : List ProcRegion
  /-- The level-1 table of the virtual memory backend, else 0. -/
  ptRoot : Word
  vmPages : Word
  heapStart : Word
  heapEnd : Word
  heapLimit : Word
  heapRegion : Nat
  deriving DecidableEq, Repr

/-- A record of the zeroed process table. -/
def Proc.zero : Proc where
  state := .free
  pid := 0
  parent := 0
  arenaLo := 0
  arenaHi := 0
  priority := 0
  caps := 0
  threads := 0
  refs := 0
  exitCode := 0
  regions := []
  ptRoot := 0
  vmPages := 0
  heapStart := 0
  heapEnd := 0
  heapLimit := 0
  heapRegion := 0

/-! ## Records -/

/-- The record `claim_record` takes: a free one, else one that has ended and
that nobody can wait for any more. -/
def claimable (procs : ProcId -> Proc) : Option ProcId :=
  match (List.finRange 10).find? fun p => (procs p).state = .free with
  | some p => some p
  | none => (List.finRange 10).find? fun p => (procs p).state = .exited && (procs p).refs = 0

/-- A claimed record is not live. -/
theorem claimable_idle {procs : ProcId -> Proc} {p : ProcId} (found : claimable procs = some p) :
    (procs p).state ≠ .live := by
  unfold claimable at found
  split at found
  · next q free =>
      cases found
      have state := List.find?_some free
      rw [decide_eq_true_iff] at state
      rw [state]
      decide
  · have state := List.find?_some found
    rw [Bool.and_eq_true, decide_eq_true_iff] at state
    rw [state.1]
    decide

/-- What `claim_record` does to the record it takes. -/
def Proc.claimed (proc : Proc) : Proc := { proc with ptRoot := 0, vmPages := 0, arenaLo := 0, arenaHi := 0 }

/-- `start_proc`: the record is live with one thread. -/
def Proc.started (proc : Proc) (pid : Word) (priority : Nat) : Proc :=
  { proc with pid := pid, priority := priority, threads := 1, refs := 0, exitCode := 0, state := .live }

/-- A spawned process's record goes when it has exited and its last PROCESS
handle is closed. -/
def Proc.maybeFree (proc : Proc) : Proc :=
  if proc.state = .exited ∧ proc.refs = 0 ∧ proc.parent ≠ 0 then { proc with state := .free } else proc

/-- `proc_release`: a PROCESS handle closed. -/
def Proc.release (proc : Proc) : Proc := { proc with refs := proc.refs - 1 }.maybeFree

/-! ## Grants -/

/-- `fnd_grant`. -/
structure Grant where
  start : Word
  stop : Word
  perm : Word
  deriving DecidableEq, Repr

/-- A window of `grant_windows`. -/
structure GrantWindow where
  start : Word
  stop : Word
  exclusive : Bool
  deriving DecidableEq, Repr

/-- MMIO windows that may be granted.  VRAM and PCMRAM go to one process at a
time. -/
def grantWindows : List GrantWindow :=
  [⟨0x80000000, 0x80010000, false⟩, ⟨0x80010000, 0x80020000, false⟩, ⟨0x80020000, 0x80030000, false⟩,
    ⟨0x80040000, 0x80040030, false⟩, ⟨0x80040030, 0x80040180, false⟩, ⟨0x10000000, 0x18000000, true⟩,
    ⟨0x18000000, 0x18100000, true⟩]

/-- The window that holds the whole grant. -/
def grantWindow (g : Grant) : Option GrantWindow :=
  grantWindows.find? fun w => w.start ≤ g.start && g.stop ≤ w.stop

/-- A live process already holds part of an exclusive window. -/
def windowTaken (procs : ProcId -> Proc) (w : GrantWindow) : Bool :=
  (List.finRange 10).any fun p =>
    (procs p).state = .live && (procs p).regions.any fun r => r.mmio && r.start < w.stop && w.start < r.stop

/-- The page walk of `check_grants` for the virtual memory backend: every
window the page range reaches must be grantable and, if exclusive, free.  Every
round leaves the window it found behind. -/
def checkGrantPages (procs : ProcId -> Proc) (last : Word) : Nat -> Word -> Except FndError Unit
  | 0, _ => .ok ()
  | fuel + 1, at_ =>
    if at_ < last then
      match grantWindows.find? fun w => Page.down w.start ≤ at_ && at_ < w.stop with
      | none => .error .access
      | some w =>
        if w.exclusive && windowTaken procs w then .error .busy
        else checkGrantPages procs last fuel (Page.up w.stop)
    else .ok ()

def checkGrant (vm : Bool) (procs : ProcId -> Proc) (g : Grant) : Except FndError Unit :=
  if g.start ≥ g.stop ∨ (g.perm ≠ permR ∧ g.perm ≠ permR ||| permW) then .error .badArg
  else
    match grantWindow g with
    | none => .error .access
    | some w =>
      if w.exclusive && windowTaken procs w then .error .busy
      else if vm then checkGrantPages procs (Page.up g.stop) (grantWindows.length + 1) (Page.down g.start)
      else .ok ()

def checkGrants (vm : Bool) (procs : ProcId -> Proc) (grants : List Grant) : Except FndError Unit :=
  if grants.length > fndMaxGrants then .error .badArg else grants.forM (checkGrant vm procs)

/-! ## Launches -/

/-- `wax_status`: loader categories to kernel codes. -/
def waxStatus : Wax.Error -> FndError
  | .unsupported | .abiMismatch => .unsupported
  | .dependencyMissing | .dependencyConflict | .dependencyCycle | .symbolMissing | .symbolMismatch =>
    .dependency
  | .regionLimit => .regionLimit
  | .resourceLimit => .limit
  | .format => .format

/-- The target of a launch in a window. -/
def launchTarget (windowStart windowEnd loadBase : Word) : Wax.Target where
  osId := Wax.ascii "foundation"
  osMajor := 1
  osMinor := 0
  windowStart := windowStart
  windowEnd := windowEnd
  loadBase := loadBase

/-- `VM_HEAP_TOP`. -/
def vmHeapTop : Word := 0x80000000

/-- The loop of `plan_heap` over the regions of the image: the limit and the
region the heap continues. -/
def heapBounds (vm : Bool) (top : Word) : Nat -> Word -> Nat -> List Wax.Region -> Word × Nat
  | _, limit, region, [] => (limit, region)
  | i, limit, region, r :: rest =>
    heapBounds vm top (i + 1) (if r.start ≥ top ∧ r.start < limit then r.start else limit)
      (if !vm && i ≠ 0 && r.stop = top && r.flags = permR ||| permW then i else region) rest

/-- `plan_heap`: the heap starts at the end of the highest block and may grow up
to the next reservation above it or the end of the arena. -/
def planHeap (vm : Bool) (launch : Wax.Launch) (grants : List Grant) (proc : Proc) : Proc :=
  let bounds := heapBounds vm launch.top 0 (if vm then vmHeapTop else proc.arenaHi) fndProcRegions launch.regions
  if vm then
    let limit := grants.foldl
      (fun limit g => if g.start ≥ launch.top ∧ g.start < limit then Page.down g.start else limit) bounds.1
    { proc with
      heapRegion := bounds.2, heapStart := Page.up launch.top, heapEnd := Page.up launch.top,
      heapLimit := Page.down limit }
  else
    let start := (launch.top + 7) &&& ~~~7
    { proc with heapRegion := bounds.2, heapStart := start, heapEnd := start, heapLimit := bounds.1 }

/-- The regions of a started process: those of the image, owned, and the grants
behind them. -/
def procRegions (launch : Wax.Launch) (grants : List Grant) : List ProcRegion :=
  (launch.regions.map fun r => ⟨r.start, r.stop, r.flags, true, false⟩) ++
    grants.map fun g => ⟨g.start, g.stop, g.perm, false, true⟩

end Src32.Kernel
