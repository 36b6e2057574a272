import Src32.Lib.Runs
import Src32.Machine.Word

namespace Src32.Devices

/-!
# The disk controller

`Idc` of `idc.rs` with the beats of the DMA channel that serves it.  One staging
buffer with a cursor holds a sector on its way between a drive and the host, who
takes or brings its bytes one by one.

A failure of the medium is part of a tick.  Cycle counts saturate as the 128-bit
counters of the source do.
-/

/-- `SECTOR_SIZE`.  Unfolding it would count to 512. -/
@[irreducible] def sectorSize : Nat := 512

theorem sectorSize_pos : 0 < sectorSize := by
  unfold sectorSize
  decide

/-- `MAX_SECTOR_COUNT`. -/
def maxSectorCount : Word := 8388607

def cyclesPerSecond : Nat := 48000000

def cyclesPerMillisecond : Nat := 48000

/-- The largest 128-bit number. -/
def cycleMax : Nat := 2 ^ 128 - 1

/-- `saturating_add` on 128 bits. -/
def satAdd (a b : Nat) : Nat := min (a + b) cycleMax

/-! ## Drives -/

/-- What a drive keeps its sectors in. -/
inductive DriveImage where
  | file
  | bytes
  | cow
  deriving DecidableEq

structure Drive where
  /-- The type register. -/
  kind : Word
  medium : DriveImage
  /-- The bytes of the image. -/
  image : Nat -> Byte
  capacitySectors : Word
  /-- Length of the trailing partial sector. -/
  trailingBytes : Nat
  readOnly : Bool
  transferRate : Nat
  accessLatencyMs : Nat
  tail_lt : trailingBytes < sectorSize

/-- How a commit to the medium ends. -/
inductive WriteIo where
  | done
  /-- It fails and leaves the sector as it was. -/
  | kept
  /-- It fails and so does restoring the sector, which holds these bytes. -/
  | torn (left : Nat -> Byte)

/-- The commit leaves the sector torn. -/
def WriteIo.tears : WriteIo -> Bool
  | .torn _ => true
  | _ => false

/-- Bytes of a sector in place of the old ones. -/
def overwrite (image : Nat -> Byte) (offset count : Nat) (bytes : Nat -> Byte) : Nat -> Byte :=
  fun place => if offset ≤ place ∧ place < offset + count then bytes (place - offset) else image place

namespace Drive

/-- Length of the zero-padded final sector. -/
def partialTail (d : Drive) (lba : Nat) : Option Nat :=
  if 0 < d.trailingBytes ∧ lba + 1 = d.capacitySectors.toNat then some d.trailingBytes else none

/-- How much of a sector the image holds; a copy-on-write image holds all. -/
def held (d : Drive) (lba : Nat) : Nat := if d.medium = .cow then sectorSize else (d.partialTail lba).getD sectorSize

/-- `read_sector`; `none` is a failure, which images in memory do not have. -/
def readSector (d : Drive) (lba : Nat) (fails : Bool) : Option (Nat -> Byte) :=
  if fails = true ∧ d.medium ≠ .bytes then none
  else some fun i => if i < d.held lba then d.image (lba * sectorSize + i) else 0

/-- `write_sector`: whether it succeeds, and the drive behind it. -/
def writeSector (d : Drive) (lba : Nat) (buffer : Nat -> Byte) (io : WriteIo) : Bool × Drive :=
  if d.readOnly = true ∨ d.medium = .bytes then (false, d)
  else
    match io with
    | .done => (true, { d with image := overwrite d.image (lba * sectorSize) (d.held lba) buffer })
    | .kept => (false, d)
    | .torn left => (false, { d with image := overwrite d.image (lba * sectorSize) (d.held lba) left })

end Drive

/-! ## Commands -/

inductive DmaDirection where
  | deviceToMemory
  | memoryToDevice
  deriving DecidableEq

/-- What is latched when a command is accepted. -/
structure Start where
  direction : DmaDirection
  slot : Fin 4
  lba : Nat
  count : Nat
  cycle : Nat
  deriving DecidableEq

/-- `ActiveCommand`, with the byte its DMA channel holds, and its past: the bytes
the host took or brought, the cycles at which sectors were loaded or committed,
the drives before it, and whether a commit left its sector torn. -/
structure ActiveCommand where
  start : Start
  completedSectors : Nat
  dmaBytesCompleted : Nat
  nextDeadlineCycle : Nat
  buffer : Nat -> Byte
  cursor : Nat
  readReady : Bool
  dmaChannel : Option Nat
  abortRequested : Bool
  taken : Option Byte
  moved : List Byte
  times : List Nat
  before : Fin 4 -> Option Drive
  torn : Bool

/-- `ActiveCommand::deadline`. -/
def deadline (startCycle : Nat) (d : Drive) (completedSectorCount : Nat) : Nat :=
  satAdd (satAdd startCycle (d.accessLatencyMs * cyclesPerMillisecond))
    ((completedSectorCount * sectorSize * cyclesPerSecond + d.transferRate - 1) / d.transferRate)

inductive Outcome where
  | done
  | error (code : Word)
  deriving DecidableEq

/-- A command that ended. -/
structure Ended where
  start : Start
  moved : List Byte
  times : List Nat
  before : Fin 4 -> Option Drive
  after : Fin 4 -> Option Drive
  torn : Bool
  outcome : Outcome

/-- The host can take or bring a byte. -/
def ActiveCommand.ready (a : ActiveCommand) : Bool :=
  match a.start.direction with
  | .deviceToMemory => a.readReady && decide (a.cursor < sectorSize)
  | .memoryToDevice => decide (a.cursor < sectorSize)

/-- A byte goes into the buffer. -/
def ActiveCommand.put (a : ActiveCommand) (value : Byte) : ActiveCommand :=
  { a with buffer := Function.update a.buffer a.cursor value, cursor := a.cursor + 1, moved := a.moved ++ [value] }

/-- The abort that was asked for is due: all beats of a sector are through. -/
def ActiveCommand.abortDue (a : ActiveCommand) : Bool := a.abortRequested && a.dmaBytesCompleted % sectorSize = 0

/-- The command waits for its deadline. -/
def ActiveCommand.waits (a : ActiveCommand) : Bool :=
  match a.start.direction with
  | .deviceToMemory => !a.readReady
  | .memoryToDevice => a.cursor = sectorSize

structure Idc where
  control : Word
  irqEnable : Word
  irqStatus : Word
  driveSelect : Word
  lba : Word
  sectorCount : Word
  errorCode : Word
  done : Bool
  error : Bool
  driveType : Word
  /-- The register. -/
  sectorSizeRegister : Word
  capacitySectors : Word
  driveFlags : Word
  commandWord : Word
  cycle : Nat
  drives : Fin 4 -> Option Drive
  active : Option ActiveCommand
  /-- The commands accepted so far, and those that ended. -/
  accepted : List Start
  ended : List Ended

namespace Idc

/-- `Idc::new`. -/
def new (drives : Fin 4 -> Option Drive) : Idc where
  control := 1
  irqEnable := 0
  irqStatus := 0
  driveSelect := 0
  lba := 0
  sectorCount := 0
  errorCode := 0
  done := false
  error := false
  driveType := 0
  sectorSizeRegister := 0
  capacitySectors := 0
  driveFlags := 0
  commandWord := 0
  cycle := 0
  drives := drives
  active := none
  accepted := []
  ended := []

/-- The running command ends. -/
def settle (s : Idc) (outcome : Outcome) : Idc :=
  { s with
    active := none
    ended := s.ended ++ (s.active.map fun a =>
      ⟨a.start, a.moved, a.times, a.before, s.drives, a.torn, outcome⟩ : Option Ended).toList }

def finishSuccess (s : Idc) : Idc :=
  { s.settle .done with
    done := true
    irqStatus := if s.irqEnable &&& 1 ≠ 0 then s.irqStatus ||| 1 else s.irqStatus }

def finishError (s : Idc) (code : Word) : Idc :=
  { s.settle (.error code) with
    errorCode := code
    error := true
    irqStatus := if s.irqEnable &&& 2 ≠ 0 then s.irqStatus ||| 2 else s.irqStatus }

/-- `update_next_deadline` for the command `a`. -/
def nextDeadline (s : Idc) (a : ActiveCommand) : Idc :=
  match s.drives a.start.slot with
  | none => { s with active := some a }
  | some d => { s with active := some { a with nextDeadlineCycle := deadline a.start.cycle d (a.completedSectors + 1) } }

/-! ### Data -/

/-- `drq`. -/
def drq (s : Idc) : Bool := s.active.any ActiveCommand.ready

/-- A whole sector was read from the buffer. -/
def sectorRead (s : Idc) (a : ActiveCommand) : Idc :=
  let a := { a with completedSectors := a.completedSectors + 1, cursor := 0, readReady := false }
  if a.completedSectors = a.start.count then { s with active := some a }.finishSuccess else s.nextDeadline a

/-- `read_data_byte`, of the processor. -/
def readDataByte (s : Idc) : Byte × Idc :=
  match s.active with
  | none => (0, s)
  | some a =>
    if a.start.direction = .deviceToMemory ∧ a.ready = true then
      let value := a.buffer a.cursor
      let a := { a with cursor := a.cursor + 1, moved := a.moved ++ [value] }
      if a.cursor = sectorSize ∧ a.dmaChannel = none then (value, s.sectorRead a) else (value, { s with active := some a })
    else (0, s)

/-- `write_data_byte`, of the processor. -/
def writeDataByte (s : Idc) (value : Byte) : Idc :=
  match s.active with
  | none => s
  | some a =>
    if a.start.direction = .memoryToDevice ∧ a.ready = true then { s with active := some (a.put value) } else s

/-! ### DMA -/

/-- `attach_dma`. -/
def attachDma (s : Idc) (channel : Nat) : Idc :=
  match s.active with
  | none => s
  | some a => if a.dmaChannel ≠ none then s else { s with active := some { a with dmaChannel := some channel } }

/-- `dma_failed`. -/
def dmaFailed (s : Idc) (channel : Nat) : Idc :=
  if s.active.any (fun a => a.dmaChannel = some channel) then s.finishError 5 else s

/-- `dma_start_failed`. -/
def dmaStartFailed (s : Idc) : Idc := if s.active.any (fun a => a.dmaChannel = none) then s.finishError 5 else s

/-- `dma_byte_completed` for the running command `a` of the channel. -/
def byteCompleted (s : Idc) (a : ActiveCommand) : Idc :=
  let a := { a with dmaBytesCompleted := a.dmaBytesCompleted + 1, moved := a.moved ++ a.taken.toList, taken := none }
  if a.start.direction = .deviceToMemory ∧ a.cursor = sectorSize then
    let whole := { a with completedSectors := a.completedSectors + 1, cursor := 0, readReady := false }
    if a.abortDue then { s with active := some whole }.finishError 5 else s.sectorRead a
  else if a.abortDue then { s with active := some a }.finishError 5
  else { s with active := some a }

/-- The first beat of a read: the channel takes a byte, or fails. -/
def dmaReadBeat (s : Idc) (channel : Nat) : Idc :=
  match s.active with
  | none => s
  | some a =>
    if a.dmaChannel ≠ some channel ∨ a.taken ≠ none then s
    else if a.start.direction = .deviceToMemory ∧ a.ready = true then
      { s with active := some { a with taken := some (a.buffer a.cursor), cursor := a.cursor + 1 } }
    else s.finishError 5

/-- The second beat of a read: memory took the byte. -/
def dmaReadCompleted (s : Idc) (channel : Nat) : Idc :=
  match s.active with
  | none => s
  | some a => if a.dmaChannel ≠ some channel ∨ a.taken = none then s else s.byteCompleted a

/-- The second beat of a write: the channel brings a byte, or fails. -/
def dmaWriteBeat (s : Idc) (channel : Nat) (value : Byte) : Idc :=
  match s.active with
  | none => s
  | some a =>
    if a.dmaChannel ≠ some channel ∨ a.taken ≠ none then s
    else if a.start.direction = .memoryToDevice ∧ a.ready = true then s.byteCompleted (a.put value)
    else s.finishError 5

/-- `abort_dma_at_boundary`, for a channel that is not between two beats. -/
def abortDmaAtBoundary (s : Idc) (channel : Nat) : Idc :=
  match s.active with
  | none => s
  | some a =>
    if a.dmaChannel = some channel ∧ a.taken = none ∧ a.abortDue = true then s.finishError 5 else s

/-! ### Registers -/

/-- `start_transfer`. -/
def startTransfer (s : Idc) (direction : DmaDirection) : Idc :=
  if small : s.driveSelect.toNat < 4 then
    if s.sectorCount = 0 ∨ s.sectorCount > maxSectorCount then s.finishError 1
    else
      let slot : Fin 4 := ⟨s.driveSelect.toNat, small⟩
      match s.drives slot with
      | none => s.finishError 2
      | some d =>
        if s.lba.toNat + s.sectorCount.toNat > d.capacitySectors.toNat then s.finishError 3
        else if direction = .memoryToDevice ∧ d.readOnly = true then s.finishError 4
        else
          let start := ⟨direction, slot, s.lba.toNat, s.sectorCount.toNat, s.cycle⟩
          { s with accepted := s.accepted ++ [start] }.nextDeadline
            { start := start
              completedSectors := 0
              dmaBytesCompleted := 0
              nextDeadlineCycle := s.cycle
              buffer := fun _ => 0
              cursor := 0
              readReady := false
              dmaChannel := none
              abortRequested := false
              taken := none
              moved := []
              times := []
              before := s.drives
              torn := false }
  else s.finishError 1

/-- `identify`. -/
def identify (s : Idc) : Idc :=
  let s := { s with driveType := 0, sectorSizeRegister := 0, capacitySectors := 0, driveFlags := 0 }
  if small : s.driveSelect.toNat < 4 then
    match s.drives ⟨s.driveSelect.toNat, small⟩ with
    | none => s.finishError 2
    | some d =>
      { s with
        driveType := d.kind
        sectorSizeRegister := BitVec.ofNat 32 sectorSize
        capacitySectors := d.capacitySectors
        driveFlags := 1 ||| (if d.readOnly then 1 else 0) <<< 1 }.finishSuccess
  else s.finishError 1

/-- ABORT. -/
def abort (s : Idc) : Idc :=
  match s.active with
  | none => s
  | some a =>
    if a.dmaChannel = none then s.finishError 5 else { s with active := some { a with abortRequested := true } }

/-- `execute_command`. -/
def executeCommand (s : Idc) (command : Word) : Idc :=
  if command = 4 then s.abort
  else if s.active.isSome = true ∨ s.control &&& 1 = 0 then s
  else
    let s := { s with errorCode := 0 }
    if command = 1 then s.startTransfer .deviceToMemory
    else if command = 2 then s.startTransfer .memoryToDevice
    else if command = 3 then s.identify
    else s.finishError 1

/-- One byte of a register. -/
def setLane (old : Word) (shift : Nat) (byteValue : Word) : Word := old &&& ~~~((0xFF : Word) <<< shift) ||| byteValue

/-- A byte of COMMAND; the last one starts the command. -/
def writeCommand (s : Idc) (lane : Fin 4) (shift : Nat) (byteValue : Word) : Idc :=
  let word := setLane s.commandWord shift byteValue
  if lane = 3 then { s with commandWord := 0 }.executeCommand word else { s with commandWord := word }

/-- `write_byte` at byte `lane` of a register. -/
def writeByte (s : Idc) (register : Word) (lane : Fin 4) (value : Byte) : Idc :=
  let shift := (3 - lane.val) * 8
  let byteValue : Word := value.setWidth 32 <<< shift
  if register = 0x04 then { s with control := setLane s.control shift byteValue &&& 1 }
  else if register = 0x08 then
    { s with
      done := s.done && byteValue &&& 2 = 0
      error := s.error && byteValue &&& 4 = 0 }
  else if register = 0x0C then { s with irqEnable := setLane s.irqEnable shift byteValue &&& 3 }
  else if register = 0x10 then { s with irqStatus := s.irqStatus &&& ~~~byteValue }
  else if register = 0x14 ∧ s.active.isNone = true then { s with driveSelect := setLane s.driveSelect shift byteValue }
  else if register = 0x18 then s.writeCommand lane shift byteValue
  else if register = 0x1C ∧ s.active.isNone = true then { s with lba := setLane s.lba shift byteValue }
  else if register = 0x20 ∧ s.active.isNone = true then { s with sectorCount := setLane s.sectorCount shift byteValue }
  else if register = 0x24 ∧ lane = 0 then s.writeDataByte value
  else s

/-! ### Time -/

/-- A sector of a read is due. -/
def load (s : Idc) (a : ActiveCommand) (d : Drive) (fails : Bool) : Option Nat × Idc :=
  match d.readSector (a.start.lba + a.completedSectors) fails with
  | none => (a.dmaChannel, s.finishError 6)
  | some buffer =>
    (none, { s with active := some { a with buffer := buffer, cursor := 0, readReady := true, times := a.times ++ [s.cycle] } })

/-- A sector of a write is due. -/
def commit (s : Idc) (a : ActiveCommand) (d : Drive) (io : WriteIo) : Option Nat × Idc :=
  let (written, d) := d.writeSector (a.start.lba + a.completedSectors) a.buffer io
  let s := { s with drives := Function.update s.drives a.start.slot (some d) }
  if written = true then
    let a := { a with
      completedSectors := a.completedSectors + 1, cursor := 0, buffer := fun _ => 0, times := a.times ++ [s.cycle] }
    if a.completedSectors = a.start.count then (none, { s with active := some a }.finishSuccess)
    else (none, s.nextDeadline a)
  else (a.dmaChannel, { s with active := some { a with torn := io.tears } }.finishError 6)

/-- `tick`, with what the medium does: the DMA channel whose transfer failed, and
the controller behind it. -/
def tick (s : Idc) (fails : Bool) (io : WriteIo) : Option Nat × Idc :=
  let s := { s with cycle := satAdd s.cycle 1 }
  match s.active with
  | none => (none, s)
  | some a =>
    match s.drives a.start.slot with
    | none => (none, s)
    | some d =>
      match a.start.direction with
      | .deviceToMemory =>
        if a.readReady = false ∧ s.cycle ≥ a.nextDeadlineCycle then s.load a d fails else (none, s)
      | .memoryToDevice =>
        if a.cursor = sectorSize ∧ s.cycle ≥ a.nextDeadlineCycle then s.commit a d io else (none, s)

/-- `cycles_without_event`. -/
def cyclesWithoutEvent (s : Idc) : Nat :=
  match s.active with
  | none => cycleMax
  | some a =>
    if a.abortRequested then 0
    else if a.waits then a.nextDeadlineCycle - s.cycle - 1
    else cycleMax

/-- `advance_idle_cycles`, which panics beyond `cyclesWithoutEvent`. -/
def advanceIdleCycles (s : Idc) (cycles : Nat) : Idc := { s with cycle := satAdd s.cycle cycles }

/-! ### Steps -/

/-- What happens to the controller. -/
inductive Action where
  | write (register : Word) (lane : Fin 4) (value : Byte)
  | readData
  | attach (channel : Nat)
  | readBeat (channel : Nat)
  | readCompleted (channel : Nat)
  | writeBeat (channel : Nat) (value : Byte)
  | dmaFailed (channel : Nat)
  | dmaStartFailed
  | abortBoundary (channel : Nat)
  | tick (fails : Bool) (io : WriteIo)
  | advance (cycles : Nat)

def step (s : Idc) : Action -> Idc
  | .write register lane value => s.writeByte register lane value
  | .readData => s.readDataByte.2
  | .attach channel => s.attachDma channel
  | .readBeat channel => s.dmaReadBeat channel
  | .readCompleted channel => s.dmaReadCompleted channel
  | .writeBeat channel value => s.dmaWriteBeat channel value
  | .dmaFailed channel => s.dmaFailed channel
  | .dmaStartFailed => s.dmaStartFailed
  | .abortBoundary channel => s.abortDmaAtBoundary channel
  | .tick fails io => (s.tick fails io).2
  | .advance cycles => if cycles ≤ s.cyclesWithoutEvent then s.advanceIdleCycles cycles else s

/-- The controller of some drives. -/
def machine (drives : Fin 4 -> Option Drive) : System Idc Action where
  initial := fun s => s = new drives
  step := fun s action t => s.step action = t

end Idc
end Src32.Devices
