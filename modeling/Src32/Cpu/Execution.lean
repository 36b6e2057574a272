import Src32.Cpu.Access
import Src32.Cpu.Instructions

namespace Src32.Cpu

/-!
# The scalar and the cached interpreter

The parts of `cpu.rs` that execute instructions and take traps, for both
interpreters: `tick_scalar` works on one instruction in several phases,
`tick_cached` commits most instructions in the tick that fetches them.  The
register block shows the CPU state to the bus; both ticks take it over before a
fetch and copy the state to it when they end.

Cycle counters, the decode cache and traces are left out.  What devices do
between two ticks is an input.
-/

/-! ## Traps -/

/-- Every exception, the denied accesses among them. -/
inductive Raised where
  | illegalInstruction
  | privilegedInstruction
  /-- Call number and context byte. -/
  | syscall (imm : BitVec 16)
  | denied (exception : Exception)

def causeException : Word := 0x80000000

def illegalInstructionVector : Word := 0xFFFF0004
def busErrorVector : Word := 0xFFFF0008
def syscallVector : Word := 0xFFFF000C
def irqVectorBase : Word := 0xFFFF0100

namespace Raised

/-- `cause`. -/
def cause : Raised -> Word
  | illegalInstruction => causeException ||| 1 <<< 16
  | denied .busError => causeException ||| 2 <<< 16
  | syscall imm => causeException ||| 3 <<< 16 ||| imm.setWidth 32
  | privilegedInstruction => causeException ||| 4 <<< 16
  | denied (.protectionFault access) => causeException ||| 5 <<< 16 ||| access.flag
  | denied (.pageFault access protection _) =>
    causeException ||| 6 <<< 16 ||| (access.flag ||| if protection then 8 else 0)

/-- Address of the vector word that holds the handler address. -/
def vector : Raised -> Word
  | illegalInstruction | privilegedInstruction => illegalInstructionVector
  | denied _ => busErrorVector
  | syscall _ => syscallVector

/-- The address that goes to VFAULT. -/
def faultAddr : Raised -> Option Word
  | denied (.pageFault _ _ addr) => some addr
  | _ => none

end Raised

theorem banked (index : Fin 3) : 28 + index.val < 32 := by omega

theorem bank_index {sr : Nat} (bank : srUsp ≤ sr ∧ sr ≤ srUgp) : sr - srUsp < 3 := by
  unfold srUsp srUgp at bank
  unfold srUsp
  omega

namespace SystemState

/-- STATUS. -/
def status (s : SystemState) : Word :=
  (if s.ie then statusIE else 0) ||| (if s.pie then statusPIE else 0) ||| (if s.user then statusU else 0) |||
    (if s.pu then statusPU else 0) ||| if s.psm = .short then statusPSM else 0

/-- The user copies of R28..R30: in U mode the live registers, in S mode the saved bank. -/
def userBank (s : SystemState) (reg : Registers) : Vector Word 3 :=
  if s.user then Vector.ofFn fun index : Fin 3 => getElem reg (28 + index.val) (banked index) else s.otherBank

/-- `MFSR`; `none` for an unknown SR number. -/
def readSr (s : SystemState) (sr : Nat) (reg : Registers) : Option Word :=
  if sr = srStatus then some s.status
  else if sr = srEpc then some s.epc
  else if sr = srCause then some s.cause
  else if bank : srUsp ≤ sr ∧ sr ≤ srUgp then
    have index : sr - srUsp < 3 := bank_index bank
    some (s.userBank reg)[sr - srUsp]
  else if sr = srVctl then some (if s.vm.enabled then 1 else 0)
  else if sr = srPtbr then some s.vm.ptbr
  else if sr = srVfault then some s.vm.vfault
  else if sr = srTlbflush ∨ sr = srTlbinv then some 0
  else
    match regionField sr with
    | none => none
    | some (region, field) =>
      let named := s.regions.get region
      some (if field.val = 0 then named.start else if field.val = 1 then named.stop else named.flags)

/-- A byte of the access raises a bus error. -/
def faults (s : SystemState) (bus : Bus) (va : Word) (size : Nat) : Bool :=
  (List.range size).any fun index => bus.fault (s.physical (va + BitVec.ofNat 32 index))

end SystemState

/-! ## The machine -/

/-- Current phase of the CPU. -/
inductive CpuState where
  | fetch
  | decode
  | execute
  | memRead
  | memWrite
  | mul
  | div
  | writeback
  | halt
  deriving DecidableEq

/-- `CpuRegisterBlock` without the vectors, which are words of the bus here. -/
structure RegisterBlock where
  regs : Registers
  pc : Word
  epc : Word
  cause : Word
  status : Word
  instrMode : Word

def cpuRegBase : Word := 0xFFFF0200

namespace RegisterBlock

/-- `read_word`, from the start of the window. -/
def readWord (block : RegisterBlock) (offset : Word) : Word :=
  if offset < 0x80 then block.regs[(offset >>> 2).toNat]?.getD 0
  else if offset = 0x80 then block.pc
  else if offset = 0x84 then block.epc
  else if offset = 0x88 then block.cause
  else if offset = 0x8C then block.status
  else if offset = 0x90 then block.instrMode
  else 0

def read (block : RegisterBlock) (offset : Word) : Byte :=
  (block.readWord (offset &&& ~~~3) >>> (8 * (3 - (offset &&& 3))).toNat).setWidth 8

end RegisterBlock

structure Machine where
  reg : Registers
  pc : Word
  running : Bool
  instrMode : InstructionMode
  sys : SystemState
  irqPending : Bool
  irqPendingNumber : BitVec 4
  irqLine : Bool
  externalIrqLine : Bool
  externalIrqNumber : BitVec 4
  irqcLine : Bool
  irqcNumber : BitVec 4
  block : RegisterBlock
  state : CpuState
  instruction : Option PendingInstruction
  cyclesLeft : Nat
  bus : Bus
  /-- The bus latched an error of the CPU. -/
  busError : Bool

/-- What happens around the CPU before a tick: the devices and the interrupt
controller. -/
structure Surroundings where
  devices : Bus -> Bus
  irqcLine : Bool
  irqcNumber : BitVec 4

namespace Machine

/-- `reset`. -/
def reset (bus : Bus) (pc : Word) : Machine where
  reg := Vector.replicate 32 0
  pc := pc
  running := true
  instrMode := .normal
  sys := SystemState.initial
  irqPending := false
  irqPendingNumber := 0
  irqLine := false
  externalIrqLine := false
  externalIrqNumber := 0
  irqcLine := false
  irqcNumber := 0
  block := ⟨Vector.replicate 32 0, pc, 0, 0, SystemState.initial.status, 0⟩
  state := .fetch
  instruction := none
  cyclesLeft := 0
  bus := bus
  busError := false

/-- `sync_register_block`. -/
def syncRegisterBlock (m : Machine) : Machine :=
  { m with
    block :=
      { regs := m.reg.set 0 0
        pc := m.pc
        epc := m.sys.epc
        cause := m.sys.cause
        status := m.sys.status
        instrMode := if m.instrMode = .short then 1 else 0 } }

/-- `sync_from_register_block`. -/
def syncFromRegisterBlock (m : Machine) : Machine :=
  { m with
    reg := m.block.regs.set 0 0
    pc := m.block.pc
    sys := { m.sys with epc := m.block.epc, cause := m.block.cause }.setStatus m.block.status
    instrMode := if m.block.instrMode &&& 1 ≠ 0 then .short else .normal }

/-- What the CPU reads: the register block lies over the bus. -/
def memory (m : Machine) : Bus :=
  { m.bus with
    byte := fun addr =>
      if cpuRegBase ≤ addr ∧ addr < cpuRegBase + 0x94 then m.block.read (addr - cpuRegBase) else m.bus.byte addr }

/-- `read_reg`; no field of an instruction names a register beyond the last. -/
def readReg (m : Machine) (index : Nat) : Word := if index = 0 then 0 else m.reg[index]?.getD 0

/-- `set_gpr`.  The register block follows when the tick ends. -/
def setGpr (m : Machine) (index : Nat) (value : Word) : Machine :=
  if inside : index < 32 then if index = 0 then m else { m with reg := m.reg.set index value } else m

/-! ### Traps -/

/-- `enter_exception`.  A vector word that still holds its own address halts the CPU. -/
def enterException (m : Machine) (exception : Raised) (epc : Word) : Machine :=
  let (sys, reg) := (m.sys.recordFault exception.faultAddr).enterTrap m.reg epc exception.cause m.instrMode
  let pc := m.memory.readU32Be exception.vector
  { m with
    sys := sys
    reg := reg
    instrMode := .normal
    pc := pc
    instruction := none
    state := if pc = exception.vector then .halt else .fetch
    running := pc ≠ exception.vector }

/-- An interrupt is accepted. -/
def accepts (m : Machine) : Bool := m.sys.ie && m.irqPending

/-- `accept_pending_irq`. -/
def acceptPendingIrq (m : Machine) : Machine :=
  if m.accepts then
    let cause := m.irqPendingNumber.setWidth 32
    let (sys, reg) := m.sys.enterTrap m.reg m.pc cause m.instrMode
    { m with
      sys := sys
      reg := reg
      irqPending := false
      instrMode := .normal
      pc := irqVectorBase + cause * 4
      instruction := none
      running := true
      state := .fetch }
  else m

/-- `access_allowed`: whether it is, and the machine behind the check.  A table walk
takes an error that the bus latched before as its own. -/
def accessAllowed (m : Machine) (addr : Word) (len : Nat) (access : Access) (instructionPc : Word) : Bool × Machine :=
  let bus := if m.busError then { m.memory with fault := fun _ => true } else m.memory
  match m.sys.checkAccess bus addr len access with
  | (.ok (), sys) => (true, { m with sys := sys })
  | (.error raised, sys) =>
    (false, { m with sys := sys, busError := m.busError && decide (raised ≠ Exception.busError) }.enterException (.denied raised) instructionPc)

/-- `fetch_allowed`. -/
def fetchAllowed (m : Machine) : Bool × Machine :=
  m.accessAllowed m.pc (if m.instrMode = .short then 2 else 4) .fetch m.pc

/-! ### Instructions -/

/-- `add_signed`. -/
def addSigned (base : Word) (offset : BitVec 16) : Word := base + offset.signExtend 32

/-- `branch_target`. -/
def branchTarget (nextPc : Word) (offset : BitVec 16) : Word := nextPc + offset.signExtend 32

/-- `data_access`: base register, offset, width and kind of a load or store. -/
def dataAccess : Instruction -> Option (BitVec 5 × BitVec 16 × Nat × Access)
  | .ld _ base offset => some (base, offset, 4, .read)
  | .ldh _ base offset => some (base, offset, 2, .read)
  | .ldb _ base offset => some (base, offset, 1, .read)
  | .st _ base offset => some (base, offset, 4, .write)
  | .sth _ base offset => some (base, offset, 2, .write)
  | .stb _ base offset => some (base, offset, 1, .write)
  | _ => none

/-- A load into a register. -/
def load (m : Machine) (rd : Nat) (addr : Word) (size : Nat) : Machine :=
  { m with busError := m.busError || m.sys.faults m.memory addr size }.setGpr rd (m.sys.readData m.memory addr size)

/-- A store.  What it writes to the register block is overwritten when the tick ends. -/
def store (m : Machine) (addr : Word) (size : Nat) (value : Word) : Machine :=
  { m with
    bus := m.sys.writeData m.bus addr size value
    busError := m.busError || m.sys.faults m.bus addr size }

def divide (lhs rhs : Word) : Word :=
  if rhs = 0 then 0 else if lhs = BitVec.intMin 32 ∧ rhs = -1 then BitVec.intMin 32 else lhs.sdiv rhs

def modulo (lhs rhs : Word) : Word :=
  if rhs = 0 then 0 else if lhs = BitVec.intMin 32 ∧ rhs = -1 then 0 else lhs.srem rhs

/-- `execute_normal` behind its checks. -/
def perform (m : Machine) (insn : Instruction) (instructionPc nextPc : Word) : Machine :=
  let r := fun field : BitVec 5 => m.readReg field.toNat
  let set := fun (field : BitVec 5) (value : Word) => m.setGpr field.toNat value
  match insn with
  | .nop => m
  | .ld rd base offset => m.load rd.toNat (addSigned (r base) offset) 4
  | .st rd base offset => m.store (addSigned (r base) offset) 4 (r rd)
  | .syscall imm => m.enterException (.syscall imm) nextPc
  | .mfsr rd sr =>
    match m.sys.readSr sr.toNat m.reg with
    | some value => set rd value
    | none => m.enterException .illegalInstruction instructionPc
  | .mtsr rs sr =>
    match m.sys.writeSr sr.toNat (r rs) m.reg with
    | some (sys, reg) => { m with sys := sys, reg := reg }
    | none => m.enterException .illegalInstruction instructionPc
  | .ldil rd imm => set rd (r rd &&& 0xFFFF0000 ||| imm.setWidth 32)
  | .ldih rd imm => set rd (r rd &&& 0x0000FFFF ||| imm.setWidth 32 <<< 16)
  | .add rd rs1 rs2 => set rd (r rs1 + r rs2)
  | .addi rd rs1 imm => set rd (r rs1 + imm.signExtend 32)
  | .sub rd rs1 rs2 => set rd (r rs1 - r rs2)
  | .slt rd rs1 rs2 => set rd (if (r rs1).slt (r rs2) then 1 else 0)
  | .beq rs1 rs2 offset => if r rs1 = r rs2 then { m with pc := branchTarget nextPc offset } else m
  | .bne rs1 rs2 offset => if r rs1 ≠ r rs2 then { m with pc := branchTarget nextPc offset } else m
  | .jmp offset => { m with pc := branchTarget nextPc offset }
  | .jal offset => { m.setGpr 31 nextPc with pc := branchTarget nextPc offset }
  | .jr rd => { m with pc := r rd }
  | .jmps offset => { m with pc := branchTarget nextPc offset, instrMode := .short }
  | .jals offset => { m.setGpr 31 nextPc with pc := branchTarget nextPc offset, instrMode := .short }
  | .jrs rd => { m with pc := r rd, instrMode := .short }
  | .jalr rd => { m.setGpr 31 nextPc with pc := r rd }
  | .jalrs rd => { m.setGpr 31 nextPc with pc := r rd, instrMode := .short }
  | .cpuid => (m.setGpr 1 0x53524332).setGpr 2 0x13F
  | .halt => { m with running := false }
  | .iret =>
    let (sys, reg, pc, mode) := m.sys.leaveTrap m.reg
    { m with sys := sys, reg := reg, pc := pc, instrMode := mode }
  | .and rd rs1 rs2 => set rd (r rs1 &&& r rs2)
  | .or rd rs1 rs2 => set rd (r rs1 ||| r rs2)
  | .xor rd rs1 rs2 => set rd (r rs1 ^^^ r rs2)
  | .sll rd rs1 rs2 => set rd (r rs1 <<< (r rs2 &&& 0x1F).toNat)
  | .srl rd rs1 rs2 => set rd (r rs1 >>> (r rs2 &&& 0x1F).toNat)
  | .sla rd rs1 rs2 => set rd (r rs1 <<< (r rs2 &&& 0x1F).toNat)
  | .sra rd rs1 rs2 => set rd ((r rs1).sshiftRight (r rs2 &&& 0x1F).toNat)
  | .sltu rd rs1 rs2 => set rd (if r rs1 < r rs2 then 1 else 0)
  | .mul rd rs1 rs2 => set rd (r rs1 * r rs2)
  | .div rd rs1 rs2 => set rd (divide (r rs1) (r rs2))
  | .mod rd rs1 rs2 => set rd (modulo (r rs1) (r rs2))
  | .mulh rd rs1 rs2 => set rd ((((r rs1).signExtend 64 * (r rs2).signExtend 64).sshiftRight 32).setWidth 32)
  | .divu rd rs1 rs2 => set rd (if r rs2 = 0 then 0 else r rs1 / r rs2)
  | .ldb rd base offset => m.load rd.toNat (addSigned (r base) offset) 1
  | .ldh rd base offset => m.load rd.toNat (addSigned (r base) offset) 2
  | .stb rd base offset => m.store (addSigned (r base) offset) 1 (r rd &&& 0xFF)
  | .sth rd base offset => m.store (addSigned (r base) offset) 2 (r rd &&& 0xFFFF)
  | .unknown _ => m.enterException .illegalInstruction instructionPc

/-- The checks of `execute_normal`, with PC already at the next instruction. -/
def checkNormal (m : Machine) (insn : Instruction) (instructionPc nextPc : Word) : Machine :=
  if m.sys.user && insn.isPrivileged then m.enterException .privilegedInstruction instructionPc
  else
    match dataAccess insn with
    | none => m.perform insn instructionPc nextPc
    | some (base, offset, len, access) =>
      let (allowed, m) := m.accessAllowed (addSigned (m.readReg base.toNat) offset) len access instructionPc
      if allowed then m.perform insn instructionPc nextPc else m

/-- `execute_normal`. -/
def executeNormal (m : Machine) (insn : Instruction) : Machine :=
  { m with pc := m.pc + 4 }.checkNormal insn m.pc (m.pc + 4)

/-- `short_reg_to_gpr`. -/
def shortRegToGpr (sr : BitVec 4) : Nat := if sr.toNat < 15 then sr.toNat else 31

/-- The load or store of a Short-mode instruction. -/
def shortDataAccess : ShortInstruction -> Option (BitVec 4 × Access)
  | .ld _ rs1 => some (rs1, .read)
  | .st rd _ => some (rd, .write)
  | _ => none

/-- `execute_short` behind its checks. -/
def performShort (m : Machine) (insn : ShortInstruction) (instructionPc nextPc : Word) : Machine :=
  let r := fun field : BitVec 4 => m.readReg (shortRegToGpr field)
  let set := fun (field : BitVec 4) (value : Word) => m.setGpr (shortRegToGpr field) value
  match insn with
  | .mov rd rs1 => set rd (r rs1)
  | .add rd rs1 rs2 => set rd (r rs1 + r rs2)
  | .addi rd imm => set rd (r rd + imm.signExtend 32)
  | .ld rd rs1 => m.load (shortRegToGpr rd) (r rs1) 4
  | .st rd rs1 => m.store (r rd) 4 (r rs1)
  | .bz rd offset => if r rd = 0 then { m with pc := branchTarget nextPc (offset.signExtend 16) } else m
  | .bnz rd offset => if r rd ≠ 0 then { m with pc := branchTarget nextPc (offset.signExtend 16) } else m
  | .jr rd => { m with pc := r rd }
  | .jal offset => { m.setGpr 31 nextPc with pc := branchTarget nextPc offset }
  | .ldi rd imm => set rd (imm.setWidth 32)
  | .ret => { m with instrMode := .normal }
  | .unknown _ => m.enterException .illegalInstruction instructionPc

/-- The check of `execute_short`, with PC already at the next instruction. -/
def checkShort (m : Machine) (insn : ShortInstruction) (instructionPc nextPc : Word) : Machine :=
  match shortDataAccess insn with
  | none => m.performShort insn instructionPc nextPc
  | some (base, access) =>
    let (allowed, m) := m.accessAllowed (m.readReg (shortRegToGpr base)) 4 access instructionPc
    if allowed then m.performShort insn instructionPc nextPc else m

/-- `execute_short`. -/
def executeShort (m : Machine) (insn : ShortInstruction) : Machine :=
  { m with pc := m.pc + 2 }.checkShort insn m.pc (m.pc + 2)

/-- The pending instruction is executed. -/
def execute (m : Machine) : Machine :=
  match m.instruction with
  | some (.normal insn) => m.executeNormal insn
  | some (.short insn) => m.executeShort insn
  | _ => m

/-- `commit_pending`. -/
def commitPending (m : Machine) : Machine :=
  let instructionPc := m.pc
  let m := m.execute
  if m.busError then { m with busError := false }.enterException (.denied .busError) instructionPc else m

/-! ### Ticks -/

/-- `refresh_irq_input`: a rising edge latches one request. -/
def refreshIrqInput (m : Machine) : Machine :=
  let level := m.externalIrqLine || m.irqcLine
  let number := if m.externalIrqLine then m.externalIrqNumber else m.irqcNumber
  let m := if level && !m.irqLine then { m with irqPending := true, irqPendingNumber := number } else m
  { m with irqLine := level }

/-- `set_irq_input`. -/
def setIrqInput (m : Machine) (level : Bool) (number : BitVec 4) : Machine :=
  { m with externalIrqLine := level, externalIrqNumber := number }.refreshIrqInput

/-- The devices work and the IRQ inputs are read. -/
def pollDevices (m : Machine) (around : Surroundings) : Machine :=
  { m with
    bus := around.devices m.bus, irqcLine := around.irqcLine, irqcNumber := around.irqcNumber }.refreshIrqInput

/-- The start of a tick: devices and, before a fetch, the register block. -/
def beginTick (m : Machine) (around : Surroundings) : Machine :=
  let m := m.pollDevices around
  if m.state = .fetch then m.syncFromRegisterBlock else m

/-- The instruction at PC, raw or decoded. -/
def fetched (m : Machine) (decoded : Bool) : PendingInstruction :=
  match m.instrMode with
  | .normal =>
    let raw := m.sys.readData m.memory m.pc 4
    if decoded then .normal (decode raw) else .rawNormal raw
  | .short =>
    let raw := (m.sys.readData m.memory m.pc 2).setWidth 16
    if decoded then .short (decodeShort raw) else .rawShort raw

/-- The instruction at PC is fetched. -/
def fetch (m : Machine) (decoded : Bool) : Machine :=
  { m with
    instruction := some (m.fetched decoded)
    busError := m.busError || m.sys.faults m.memory m.pc (if m.instrMode = .short then 2 else 4) }

/-- The phase a decoded instruction goes to, and the cycles it stays there. -/
def dispatch (instruction : PendingInstruction) : CpuState × Option Nat :=
  if instruction.isLoad then (.memRead, none)
  else if instruction.isStore then (.memWrite, none)
  else if instruction.isMul then (.mul, some 3)
  else if instruction.isDiv then (.div, some 16)
  else (.execute, none)

/-- The decode phase. -/
def decodePhase (m : Machine) : Machine :=
  let instruction := m.instruction.map fun instruction : PendingInstruction =>
    match instruction with
    | .rawNormal raw => .normal (decode raw)
    | .rawShort raw => .short (decodeShort raw)
    | other => other
  match instruction with
  | none => { m with instruction := none }
  | some instruction =>
    let (state, cycles) := dispatch instruction
    { m with instruction := some instruction, state := state, cyclesLeft := cycles.getD m.cyclesLeft }

/-- An instruction of `tick_scalar` commits. -/
def commitScalar (m : Machine) : Machine :=
  let m := m.commitPending
  { m with state := if m.running then .writeback else .halt }

/-- A phase of `tick_scalar`. -/
def phaseScalar (m : Machine) (phase : CpuState) : Machine :=
  match phase with
  | .fetch =>
    let checked := m.fetchAllowed
    if checked.1 then { checked.2.fetch false with state := .decode } else checked.2
  | .decode => m.decodePhase
  | .execute | .memRead | .memWrite => m.commitScalar
  | .mul | .div =>
    let m := { m with cyclesLeft := m.cyclesLeft - 1 }
    if m.cyclesLeft = 0 then m.commitScalar else m
  | .writeback => { { m with instruction := none }.acceptPendingIrq with state := .fetch }
  | .halt => m

/-- `commit_cached_instruction`. -/
def commitCached (m : Machine) : Machine :=
  let m := { m.commitPending with instruction := none }
  if m.running then { m with state := .fetch }.acceptPendingIrq else { m with state := .halt }

/-- `issue_cached_instruction`. -/
def issueCached (m : Machine) (instruction : PendingInstruction) : Machine :=
  if instruction.isMul then { m with cyclesLeft := 2, state := .mul }
  else if instruction.isDiv then { m with cyclesLeft := 15, state := .div }
  else m.commitCached

/-- A phase of `execute_cached_cycle`, which enters no other phase of the scalar
interpreter. -/
def phaseCached (m : Machine) (phase : CpuState) : Machine :=
  match phase with
  | .fetch =>
    let checked := m.fetchAllowed
    if checked.1 then (checked.2.fetch true).issueCached (checked.2.fetched true) else checked.2
  | .mul | .div =>
    let m := { m with cyclesLeft := m.cyclesLeft - 1 }
    if m.cyclesLeft = 0 then m.commitCached else m
  | _ => m

/-- The current phase of either interpreter. -/
def phase (m : Machine) (cached : Bool) : Machine :=
  if cached then m.phaseCached m.state else m.phaseScalar m.state

/-- `tick_scalar` and, with the decode cache, `tick_cached`. -/
def tick (m : Machine) (cached : Bool) (around : Surroundings) : Machine :=
  let m := m.beginTick around
  if m.running then (m.phase cached).syncRegisterBlock
  else
    let m := { m with state := .halt }
    if m.accepts then (m.acceptPendingIrq.phase cached).syncRegisterBlock else m

end Machine

/-! ## Runs -/

/-- What happens to the CPU. -/
inductive Event where
  | tick (around : Surroundings)
  | irqInput (level : Bool) (number : BitVec 4)

namespace Machine

def after (m : Machine) (cached : Bool) : Event -> Machine
  | .tick around => m.tick cached around
  | .irqInput level number => m.setIrqInput level number

end Machine

/-- The CPU from reset. -/
def interpreter (cached : Bool) : System Machine Event where
  initial := fun m => ∃ bus pc, m = Machine.reset bus pc
  step := fun m event next => next = m.after cached event

end Src32.Cpu
