import Src32.Machine.Word

namespace Src32.Devices

/-!
# The DMA controller

`dmac.rs` with the beats of `bus.rs`.  The windows of main RAM, VRAM and sound RAM are
bytes at their addresses.  What the disk controller, an expansion card or the sample port
answers to a beat is an argument, as is what the disk controller decides about its own
transfers and a priority of the bus arbiter.
-/

namespace Dmac

def channelCount : Nat := 6
def channelBase : Nat := 0x100
def channelStride : Nat := 0x20

def idcBase : Nat := 0x80041000
def idcSize : Nat := 0x1000
def idcDataAddress : Word := 0x80041024#32

/-- `is_idc_address`. -/
def isIdcAddress (address : Word) : Bool := idcBase ≤ address.toNat ∧ address.toNat < idcBase + idcSize

def statusBusy : Word := 1#32
def statusDone : Word := 2#32
def statusError : Word := 4#32

inductive Phase where
  | read | write
  deriving DecidableEq

/-- `DmaOp`. -/
structure DmaOp where
  address : Word
  width : Nat
  write : Bool
  value : Word

/-- `Channel`. -/
structure Channel where
  src : Word
  dst : Word
  count : Word
  control : Word
  status : Word
  remain : Word
  srcCurrent : Word
  dstCurrent : Word
  phase : Phase
  buffer : Word
  pendingCommand : Byte

namespace Channel

/-- `Channel::new`. -/
def new : Channel :=
  { src := 0, dst := 0, count := 0, control := 0, status := 0, remain := 0, srcCurrent := 0, dstCurrent := 0,
    phase := .read, buffer := 0, pendingCommand := 0 }

/-- `width`. -/
def width (ch : Channel) : Option Nat :=
  if ch.control.toNat % 4 = 0 then some 1
  else if ch.control.toNat % 4 = 1 then some 2
  else if ch.control.toNat % 4 = 2 then some 4
  else none

/-- `status & STATUS_BUSY != 0`. -/
def busy (ch : Channel) : Bool := ch.status.getLsbD 0

/-- The channel has an endpoint in the disk controller. -/
def endpoint (ch : Channel) : Bool := isIdcAddress ch.src || isIdcAddress ch.dst

/-- The channel's data go through the disk controller. -/
def usesIdc (ch : Channel) : Bool := ch.src = idcDataAddress ∨ ch.dst = idcDataAddress

/-- `next_op` of a channel. -/
def nextOp (ch : Channel) : Option DmaOp :=
  if ch.busy = false then none
  else ch.width.map fun width =>
    if ch.phase = .read then { address := ch.srcCurrent, width := width, write := false, value := 0 }
    else { address := ch.dstCurrent, width := width, write := true, value := ch.buffer }

/-- The fields behind a write beat. -/
def advance (ch : Channel) : Channel :=
  let width := BitVec.ofNat 32 (ch.width.getD 1)
  { ch with
    srcCurrent := if ch.control.getLsbD 2 = false then ch.srcCurrent + width else ch.srcCurrent
    dstCurrent := if ch.control.getLsbD 4 = false then ch.dstCurrent + width else ch.dstCurrent
    remain := if ch.remain.toNat < width.toNat then 0 else ch.remain - width }

/-- `fail_without_idc` of a channel. -/
def failed (ch : Channel) (code : Nat) : Channel :=
  { ch with status := (ch.status &&& ~~~0xF7#32) ||| statusError ||| BitVec.ofNat 32 (code % 16) <<< 4 }

/-- The tests of `start` on the registers of a channel. -/
def legal (ch : Channel) (width : Nat) : Bool :=
  ¬ (ch.count = 0 ∨ ch.count.toNat % width ≠ 0 ∨ ch.src.toNat % width ≠ 0 ∨ ch.dst.toNat % width ≠ 0 ∨
    ch.control.toNat / 4 % 4 > 1 ∨ ch.control.toNat / 16 % 4 > 1)

/-- A started channel. -/
def started (ch : Channel) : Channel :=
  { ch with srcCurrent := ch.src, dstCurrent := ch.dst, remain := ch.count, phase := .read, status := statusBusy }

end Channel

end Dmac

/-- `Dmac`. -/
structure Dmac where
  enabled : Bool
  channelEnable : Byte
  irqEnable : Byte
  irqStatus : Byte
  channels : Nat -> Dmac.Channel

namespace Dmac

/-- `Dmac::new`. -/
def new : Dmac := { enabled := true, channelEnable := 0, irqEnable := 0, irqStatus := 0, channels := fun _ => Channel.new }

def setChannel (d : Dmac) (index : Nat) (ch : Channel) : Dmac :=
  { d with channels := Function.update d.channels index ch }

/-- `raise_irq`. -/
def raiseIrq (d : Dmac) (index : Nat) : Dmac :=
  if d.irqEnable.getLsbD index = true then { d with irqStatus := d.irqStatus ||| BitVec.twoPow 8 index } else d

/-- `fail_without_idc`. -/
def fail (d : Dmac) (index code : Nat) : Dmac := (d.setChannel index ((d.channels index).failed code)).raiseIrq index

/-- The bit of a channel in `request_mask`, with the disk controller's `dma_request_ready`. -/
def requests (d : Dmac) (idcReady : Bool) (index : Nat) : Bool :=
  d.enabled ∧ (d.channels index).busy = true ∧
    ((d.channels index).usesIdc = false ∨ (d.channels index).src = idcDataAddress ∧ (d.channels index).phase = .write ∨ idcReady = true)

/-- `complete_op`, with the disk controller's `dma_byte_completed`. -/
def completeOp (d : Dmac) (index : Nat) (value : Word) (boundary : Bool) : Dmac :=
  let ch := d.channels index
  if ch.phase = .read then d.setChannel index { ch with buffer := value, phase := .write }
  else
    let ch := ch.advance
    if ch.usesIdc = true ∧ boundary = true then (d.setChannel index ch).fail index 3
    else if ch.remain = 0 then (d.setChannel index { ch with status := (ch.status &&& ~~~statusBusy) ||| statusDone }).raiseIrq index
    else d.setChannel index { ch with phase := .read }

/-- `start`, with the disk controller's agreement to a transfer of its own. -/
def start (d : Dmac) (index : Nat) (idcAccepts : Bool) : Dmac :=
  let ch := d.channels index
  if d.enabled = false ∨ d.channelEnable.getLsbD index = false then d.fail index 1
  else if ch.busy = true then d
  else
    match ch.width with
    | none => d.fail index 1
    | some width =>
      if ch.legal width = false then d.fail index 1
      else if ch.endpoint = true ∧ idcAccepts = false then d.fail index 1
      else d.setChannel index ch.started

/-- `abort`. -/
def abort (d : Dmac) (index : Nat) : Dmac := if (d.channels index).busy = true then d.fail index 3 else d

/-- `abort` of the channels of a mask. -/
def abortAll (d : Dmac) (mask : Byte) : Dmac :=
  (List.range channelCount).foldl (fun d index => if mask.getLsbD index = true then d.abort index else d) d

/-- A byte of a register, most significant byte in lane 0. -/
def merge (old : Word) (lane : Nat) (value : Byte) : Word :=
  (old &&& ~~~(0xFF#32 <<< ((3 - lane) * 8))) ||| value.setWidth 32 <<< ((3 - lane) * 8)

/-- A channel whose control register takes a byte. -/
def Channel.controlWritten (ch : Channel) (lane : Nat) (value : Byte) : Channel :=
  if lane = 2 then { ch with control := merge ch.control lane value, pendingCommand := value &&& 3#8 }
  else { ch with control := merge ch.control lane value }

/-- A channel whose status register takes a byte: the flags that are set in it are cleared. -/
def Channel.statusCleared (ch : Channel) (lane : Nat) (value : Byte) : Channel :=
  let clear := value.setWidth 32 <<< ((3 - lane) * 8) &&& (statusDone ||| statusError)
  if clear &&& statusError ≠ 0#32 then { ch with status := ch.status &&& ~~~clear &&& ~~~0xF0#32 }
  else { ch with status := ch.status &&& ~~~clear }

/-- The command that waits in a channel. -/
def command (d : Dmac) (index : Nat) (ch : Channel) (idcAccepts : Bool) : Dmac :=
  let d := d.setChannel index { ch with pendingCommand := 0 }
  if ch.pendingCommand.getLsbD 0 = true then d.start index idcAccepts
  else if ch.pendingCommand.getLsbD 1 = true then d.abort index
  else d

/-- The control register of an idle channel; the last byte of it runs the command. -/
def writeControl (d : Dmac) (index lane : Nat) (value : Byte) (idcAccepts : Bool) : Dmac :=
  let ch := (d.channels index).controlWritten lane value
  if lane = 3 ∧ ch.pendingCommand ≠ 0 then d.command index ch idcAccepts else d.setChannel index ch

/-- The registers of a channel. -/
def writeChannel (d : Dmac) (index field lane : Nat) (value : Byte) (idcAccepts : Bool) : Dmac :=
  let ch := d.channels index
  if field = 0x10 then d.setChannel index (ch.statusCleared lane value)
  else if field = 0x18 ∧ lane = 3 then d
  else if ch.busy = true then d
  else if field = 0x0C then d.writeControl index lane value idcAccepts
  else if field = 0x00 then d.setChannel index { ch with src := merge ch.src lane value }
  else if field = 0x04 then d.setChannel index { ch with dst := merge ch.dst lane value }
  else if field = 0x08 then d.setChannel index { ch with count := merge ch.count lane value, remain := merge ch.count lane value }
  else d

/-- `write_byte`. -/
def writeByte (d : Dmac) (addr : Nat) (value : Byte) (idcAccepts : Bool) : Dmac :=
  let reg := addr / 4 * 4
  let lane := addr % 4
  if reg = 0x004 ∧ lane = 3 then
    if value.getLsbD 0 = true then { d with enabled := true } else { d with enabled := false }.abortAll 0xFF#8
  else if reg = 0x008 ∧ lane = 3 then { d with channelEnable := value &&& 0x3F#8 }
  else if reg = 0x00C ∧ lane = 3 then { d with irqEnable := value &&& 0x3F#8 }
  else if reg = 0x010 ∧ lane = 3 then { d with irqStatus := d.irqStatus &&& ~~~value }
  else if reg = 0x014 ∧ lane = 3 then d.abortAll value
  else if reg ≥ channelBase then
    if (reg - channelBase) / channelStride ≥ channelCount then d
    else d.writeChannel ((reg - channelBase) / channelStride) ((reg - channelBase) % channelStride) lane value idcAccepts
  else d

/-- A word written to a register, the most significant byte first. -/
def writeWord (d : Dmac) (addr : Nat) (value : Word) (idcAccepts : Bool) : Dmac :=
  (((d.writeByte addr ((value >>> 24).setWidth 8) idcAccepts).writeByte (addr + 1) ((value >>> 16).setWidth 8) idcAccepts).writeByte
    (addr + 2) ((value >>> 8).setWidth 8) idcAccepts).writeByte (addr + 3) (value.setWidth 8) idcAccepts

/-- `read_register` of a channel. -/
def Channel.readRegister (ch : Channel) (field : Nat) (priority : Word) : Word :=
  if field = 0x00 then ch.src
  else if field = 0x04 then ch.dst
  else if field = 0x08 then ch.count
  else if field = 0x0C then ch.control &&& ~~~0x300#32
  else if field = 0x10 then ch.status
  else if field = 0x14 then ch.remain
  else if field = 0x18 then priority
  else 0

/-- `read_register`, with the priority of the arbiter. -/
def readRegister (d : Dmac) (addr : Nat) (priority : Word) : Word :=
  let reg := addr / 4 * 4
  if reg = 0x000 then 0x444D4101
  else if reg = 0x004 then if d.enabled = true then 1 else 0
  else if reg = 0x008 then d.channelEnable.setWidth 32
  else if reg = 0x00C then d.irqEnable.setWidth 32
  else if reg = 0x010 then d.irqStatus.setWidth 32
  else if reg ≥ channelBase then
    if (reg - channelBase) / channelStride ≥ channelCount then 0
    else (d.channels ((reg - channelBase) / channelStride)).readRegister ((reg - channelBase) % channelStride) priority
  else 0

/-! ## Beats -/

/-- The memory of the machine: the words at which a memory device answers. -/
structure Space where
  mapped : Word -> Bool
  whole : ∀ a b : Word, a.toNat / 4 = b.toNat / 4 -> mapped a = mapped b

abbrev Memory := Word -> Byte

/-- A beat inside one of the memory windows. -/
def inWindow (address : Word) (width : Nat) : Bool :=
  address.toNat < 0x01000000 ∧ address.toNat + width ≤ 0x01000000 ∨
    address.toNat ≥ 0x10000000 ∧ address.toNat + width ≤ 0x10400000 ∨
    address.toNat ≥ 0x18000000 ∧ address.toNat + width ≤ 0x18100000

/-- `expansion_slot_for_beat`. -/
def expansionSlotForBeat (address : Word) (width : Nat) : Option Nat :=
  if 0xA0000000 ≤ address.toNat ∧ address.toNat < 0xA0000000 + 8 * 0x02000000 then
    let slot := (address.toNat - 0xA0000000) / 0x02000000
    if address.toNat + width ≤ 0xA0000000 + (slot + 1) * 0x02000000 then some slot else none
  else none

/-- The address of byte `k` of a beat. -/
def byteAddress (address : Word) (k : Nat) : Word := address + BitVec.ofNat 32 k

/-- Byte `k` of a value of so many bytes. -/
def byteOf (value : Word) (width k : Nat) : Byte := (value >>> ((width - k - 1) * 8)).setWidth 8

/-- The loop over the bytes of a write; no value if a byte has no device. -/
def writeBytes (space : Space) (op : DmaOp) : List Nat -> Memory -> Option Word × Memory
  | [], m => (some op.value, m)
  | k :: rest, m =>
    if space.mapped (byteAddress op.address k) = true then
      writeBytes space op rest (Function.update m (byteAddress op.address k) (byteOf op.value op.width k))
    else (none, m)

/-- The loop over the bytes of a read. -/
def readBytes (space : Space) (m : Memory) (address : Word) : List Nat -> Word -> Option Word
  | [], value => some value
  | k :: rest, value =>
    if space.mapped (byteAddress address k) = true then
      readBytes space m address rest (value <<< 8 ||| (m (byteAddress address k)).setWidth 32)
    else none

/-- `execute_dma_op`, with the answer of a device that is no memory. -/
def executeDmaOp (space : Space) (m : Memory) (op : DmaOp) (answer : Option Word) : Option Word × Memory :=
  if op.address = idcDataAddress then if op.width ≠ 1 then (none, m) else (answer, m)
  else if op.address.toNat + op.width ≥ 2 ^ 32 then (none, m)
  else if ¬ (inWindow op.address op.width = true ∨ (op.write = true ∧ op.width = 4 ∧ op.address = 0x8003002C#32) ∨
      (expansionSlotForBeat op.address op.width).isSome = true) ∨ op.address.toNat % op.width ≠ 0 then (none, m)
  else if inWindow op.address op.width = false then (answer, m)
  else if op.write = true then writeBytes space op (List.range op.width) m
  else (readBytes space m op.address (List.range op.width) 0, m)

/-! ## The system -/

/-- The controller and the memory. -/
structure Sys where
  dmac : Dmac
  memory : Memory

/-- `service_dma_request` for a channel that is granted the bus. -/
def service (space : Space) (s : Sys) (index : Nat) (answer : Option Word) (boundary : Bool) : Sys :=
  match (s.dmac.channels index).nextOp with
  | none => s
  | some op =>
    match executeDmaOp space s.memory op answer with
    | (some value, m) => { dmac := s.dmac.completeOp index (if op.write = true then op.value else value) boundary, memory := m }
    | (none, m) => { dmac := s.dmac.fail index 2, memory := m }

end Dmac
end Src32.Devices
