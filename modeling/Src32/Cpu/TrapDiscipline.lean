import Src32.Cpu.Execution

namespace Src32.Cpu

/-!
# The discipline of traps

A user program reaches neither the state of the traps nor the supervisor copies
of R28..R30, IRET takes back what a trap entry saved, and only IRET enters U
mode.  The register block never lets a stale copy in: it shows the state of the
CPU at the end of every tick.
-/

/-! ## STATUS and the register block -/

section Status

variable (s : SystemState)

theorem status_bits : (s.status &&& statusIE ≠ 0 ↔ s.ie = true) ∧ (s.status &&& statusPIE ≠ 0 ↔ s.pie = true) ∧
    (s.status &&& statusU ≠ 0 ↔ s.user = true) ∧ (s.status &&& statusPU ≠ 0 ↔ s.pu = true) ∧
    (s.status &&& statusPSM ≠ 0 ↔ s.psm = .short) := by
  unfold SystemState.status
  generalize s.ie = ie
  generalize s.pie = pie
  generalize s.user = user
  generalize s.pu = pu
  generalize s.psm = psm
  cases ie <;> cases pie <;> cases user <;> cases pu <;> cases psm <;> decide

theorem setStatus_status : s.setStatus s.status = s := by
  obtain ⟨ie, pie, _, pu, psm⟩ := status_bits s
  have ie' : decide (s.status &&& statusIE ≠ 0) = s.ie := by
    rw [Bool.eq_iff_iff, decide_eq_true_iff]
    exact ie
  have pie' : decide (s.status &&& statusPIE ≠ 0) = s.pie := by
    rw [Bool.eq_iff_iff, decide_eq_true_iff]
    exact pie
  have pu' : decide (s.status &&& statusPU ≠ 0) = s.pu := by
    rw [Bool.eq_iff_iff, decide_eq_true_iff]
    exact pu
  have psm' : (if s.status &&& statusPSM ≠ 0 then InstructionMode.short else .normal) = s.psm := by
    cases mode : s.psm with
    | normal =>
      rw [if_neg]
      rw [psm, mode]
      exact InstructionMode.noConfusion
    | short => rw [if_pos (psm.mpr mode)]
  unfold SystemState.setStatus
  rw [ie', pie', pu', psm']

end Status

theorem usp_inside : 28 < 32 := by decide

theorem ufp_inside : 29 < 32 := by decide

theorem ugp_inside : 30 < 32 := by decide

theorem usp_bank : 0 < 3 := by decide

theorem ufp_bank : 1 < 3 := by decide

theorem ugp_bank : 2 < 3 := by decide

theorem zero_inside : 0 < 32 := by decide

/-- R0. -/
abbrev r0 (reg : Registers) : Word := getElem reg 0 zero_inside

/-- R28..R30 replaced. -/
def setBank (reg : Registers) (bank : Vector Word 3) : Registers :=
  ((reg.set 28 (getElem bank 0 usp_bank) usp_inside).set 29 (getElem bank 1 ufp_bank) ufp_inside).set 30
    (getElem bank 2 ugp_bank) ugp_inside

theorem setBank_zero (reg : Registers) (bank : Vector Word 3) : r0 (setBank reg bank) = r0 reg := by
  unfold setBank
  simp only [Vector.getElem_set, Nat.reduceEqDiff, ite_false]

theorem setBank_setBank (reg : Registers) (old bank : Vector Word 3) : setBank (setBank reg old) bank = setBank reg bank := by
  ext i inside
  unfold setBank
  simp only [Vector.getElem_set]
  split_ifs <;> rfl

theorem bank_setBank (reg : Registers) (bank : Vector Word 3) :
    (Vector.ofFn fun index : Fin 3 => getElem (setBank reg bank) (28 + index.val) (banked index)) = bank := by
  ext i inside
  rw [Vector.getElem_ofFn]
  unfold setBank
  simp only [Vector.getElem_set]
  rcases (by omega : i = 0 ∨ i = 1 ∨ i = 2) with rfl | rfl | rfl <;> rfl

namespace Machine

variable {m : Machine}

theorem set_zero {reg : Registers} (zero : r0 reg = 0) : reg.set 0 0 zero_inside = reg := by
  apply Vector.ext
  intro i inside
  rw [Vector.getElem_set]
  split_ifs with first
  · subst first
    exact zero.symm
  · rfl

/-- Taking a current register block over changes nothing. -/
theorem syncFrom_of_shown (shown : m.block = m.syncRegisterBlock.block) (zero : r0 m.reg = 0) :
    m.syncFromRegisterBlock = m := by
  have regs : m.block.regs = m.reg := by
    rw [shown]
    exact set_zero zero
  have pc : m.block.pc = m.pc := congrArg RegisterBlock.pc shown
  have epc : m.block.epc = m.sys.epc := congrArg RegisterBlock.epc shown
  have cause : m.block.cause = m.sys.cause := congrArg RegisterBlock.cause shown
  have status : m.block.status = m.sys.status := congrArg RegisterBlock.status shown
  have mode : (if m.block.instrMode &&& 1 ≠ 0 then InstructionMode.short else .normal) = m.instrMode := by
    rw [show m.block.instrMode = if m.instrMode = .short then 1 else 0 from congrArg RegisterBlock.instrMode shown]
    cases m.instrMode <;> rfl
  unfold syncFromRegisterBlock
  rw [regs, pc, epc, cause, status, mode, set_zero zero, setStatus_status]

/-! ## What an instruction does -/

theorem setGpr_sys (index : Nat) (value : Word) : (m.setGpr index value).sys = m.sys := by
  unfold setGpr
  split_ifs <;> rfl

theorem setGpr_running (index : Nat) (value : Word) : (m.setGpr index value).running = m.running := by
  unfold setGpr
  split_ifs <;> rfl

theorem setGpr_zero (index : Nat) (value : Word) : r0 (m.setGpr index value).reg = r0 m.reg := by
  unfold setGpr
  split_ifs with inside first
  · rfl
  · exact Vector.getElem_set_ne inside (by decide) first
  · rfl

/-- It only moves data: the trap state is left alone. -/
structure Calm (m next : Machine) : Prop where
  sys : next.sys = m.sys
  zero : r0 next.reg = r0 m.reg
  running : next.running = m.running

theorem Calm.refl : Calm m m := ⟨rfl, rfl, rfl⟩

theorem Calm.setGpr (index : Nat) (value : Word) : Calm m (m.setGpr index value) :=
  ⟨setGpr_sys .., setGpr_zero .., setGpr_running ..⟩

/-- What an instruction at `origin` does behind its checks. -/
inductive Performed (origin : Word) (m : Machine) : Instruction -> Machine -> Prop where
  | calm {insn : Instruction} {next : Machine} (calm : Calm m next) : Performed origin m insn next
  | raises {insn : Instruction} (exception : Raised) : Performed origin m insn (m.enterException exception origin)
  | calls {insn : Instruction} (imm : BitVec 16) : Performed origin m insn (m.enterException (.syscall imm) (origin + 4))
  | halts : Performed origin m .halt { m with running := false }
  | writes (rs : BitVec 5) (sr : BitVec 16) {value : Word} {sys : SystemState} {reg : Registers}
      (written : m.sys.writeSr sr.toNat value m.reg = some (sys, reg)) :
      Performed origin m (.mtsr rs sr) { m with sys := sys, reg := reg }
  | returns : Performed origin m .iret { m with
      sys := (m.sys.leaveTrap m.reg).1
      reg := (m.sys.leaveTrap m.reg).2.1
      pc := (m.sys.leaveTrap m.reg).2.2.1
      instrMode := (m.sys.leaveTrap m.reg).2.2.2 }

theorem perform_cases (insn : Instruction) (origin : Word) : Performed origin m insn (m.perform insn origin (origin + 4)) := by
  have jumps : ∀ {insn : Instruction} {index : Nat} {value pc : Word} {mode : InstructionMode},
      Performed origin m insn { m.setGpr index value with pc := pc, instrMode := mode } := fun {_ index value _ _} =>
    .calm ⟨setGpr_sys index value, setGpr_zero index value, setGpr_running index value⟩
  have moves : ∀ {insn : Instruction} {pc : Word} {mode : InstructionMode},
      Performed origin m insn { m with pc := pc, instrMode := mode } := .calm ⟨rfl, rfl, rfl⟩
  have sets : ∀ {insn : Instruction} {index : Nat} {value : Word}, Performed origin m insn (m.setGpr index value) :=
    .calm (.setGpr _ _)
  cases insn with
  | mfsr rd sr =>
    unfold perform
    dsimp only
    cases m.sys.readSr sr.toNat m.reg with
    | none => exact .raises _
    | some value => exact sets
  | mtsr rs sr =>
    unfold perform
    dsimp only
    cases written : m.sys.writeSr sr.toNat (m.readReg rs.toNat) m.reg with
    | none => exact .raises _
    | some result => exact .writes rs sr written
  | beq | bne =>
    unfold perform
    dsimp only
    split_ifs
    · exact .calm ⟨rfl, rfl, rfl⟩
    · exact .calm .refl
  | ld | ldh | ldb => exact .calm ⟨setGpr_sys .., setGpr_zero .., setGpr_running ..⟩
  | st | sth | stb => exact .calm ⟨rfl, rfl, rfl⟩
  | nop => exact .calm .refl
  | halt => exact .halts
  | iret => exact .returns
  | syscall => exact .calls _
  | unknown => exact .raises _
  | jmp | jr | jmps | jrs => exact moves
  | jal | jalr | jals | jalrs => exact .calm ⟨setGpr_sys .., setGpr_zero .., setGpr_running ..⟩
  | cpuid =>
    exact .calm ⟨(setGpr_sys ..).trans (setGpr_sys ..), (setGpr_zero ..).trans (setGpr_zero ..),
      (setGpr_running ..).trans (setGpr_running ..)⟩
  | add | addi | sub | slt | sltu | and | or | xor | sll | srl | sla | sra | mul | div | mod | mulh | divu | ldil | ldih =>
    exact sets

end Machine

/-! ## Checked accesses -/

/-- Nothing but the TLB changed. -/
structure Kept (s t : SystemState) : Prop where
  same : t = { s with vm := t.vm }
  enabled : t.vm.enabled = s.vm.enabled
  ptbr : t.vm.ptbr = s.vm.ptbr
  vfault : t.vm.vfault = s.vm.vfault

theorem Kept.refl (s : SystemState) : Kept s s := ⟨rfl, rfl, rfl, rfl⟩

variable {t s : SystemState}

theorem Kept.of_eq (same : t = s) : Kept s t := same ▸ Kept.refl s

theorem Kept.trans {u : SystemState} (first : Kept s t) (second : Kept t u) : Kept s u := by
  refine ⟨?_, second.enabled.trans first.enabled, second.ptbr.trans first.ptbr, second.vfault.trans first.vfault⟩
  rw [second.same, first.same]

theorem Kept.user (kept : Kept s t) : t.user = s.user := by
  have same := congrArg SystemState.user kept.same
  exact same

theorem checkAccess_kept (s : SystemState) (bus : Bus) (addr : Word) (len : Nat) (access : Access) :
    Kept s (s.checkAccess bus addr len access).2 := by
  unfold SystemState.checkAccess
  by_cases physical : (!s.translating) = true
  · rw [if_pos physical]
    exact Kept.refl s
  · rw [if_neg physical]
    have kept := checkPages_induction
      (motive := fun after => after.enabled = s.vm.enabled ∧ after.ptbr = s.vm.ptbr ∧ after.vfault = s.vm.vfault) bus
      addr (addr + BitVec.ofNat 32 (len - 1)) access
      (fun vm entry after page fault _ holds found => by
        rcases pageEntry_cases found with ⟨_, rfl⟩ | ⟨_, _, rfl⟩
        · exact holds
        · exact holds)
      len (firstPage_small addr) ⟨rfl, rfl, rfl⟩
    exact ⟨rfl, kept.1, kept.2.1, kept.2.2⟩

namespace Machine

variable {m x : Machine}

/-- It moves data and fills the TLB. -/
structure Quiet (m next : Machine) : Prop where
  kept : Kept m.sys next.sys
  zero : r0 next.reg = r0 m.reg
  running : next.running = m.running

theorem Quiet.refl : Quiet m m := ⟨.refl _, rfl, rfl⟩

variable {next : Machine} {origin epc : Word}

theorem Quiet.trans (first : Quiet m x) (second : Quiet x next) : Quiet m next :=
  ⟨first.kept.trans second.kept, second.zero.trans first.zero, second.running.trans first.running⟩

/-- A trap entry of an instruction at `origin`, and the EPC it records. -/
inductive TrapEntry (origin : Word) (x : Machine) : Word -> Machine -> Prop where
  | irq (accepts : x.accepts = true) : TrapEntry origin x x.pc x.acceptPendingIrq
  | exception (exception : Raised) (latched : Bool) :
      TrapEntry origin x origin ({ x with busError := latched }.enterException exception origin)
  | syscall (imm : BitVec 16) : TrapEntry origin x (origin + 4) (x.enterException (.syscall imm) (origin + 4))

/-- An access that is allowed fills the TLB; one that is denied traps. -/
inductive Checked (m : Machine) (origin : Word) : Bool × Machine -> Prop where
  | allowed {sys : SystemState} (kept : Kept m.sys sys) : Checked m origin (true, { m with sys := sys })
  | denied {sys : SystemState} (kept : Kept m.sys sys) (latched : Bool) (exception : Exception) :
      Checked m origin (false, { m with sys := sys, busError := latched }.enterException (.denied exception) origin)

theorem accessAllowed_cases (addr : Word) (len : Nat) (access : Access) (origin : Word) :
    Checked m origin (m.accessAllowed addr len access origin) := by
  unfold accessAllowed
  dsimp only
  generalize (if m.busError then { m.memory with fault := fun _ => true } else m.memory) = bus
  have kept := checkAccess_kept m.sys bus addr len access
  cases checked : m.sys.checkAccess bus addr len access with
  | mk result sys =>
    rw [checked] at kept
    cases result with
    | ok => exact .allowed kept
    | error raised => exact .denied kept _ raised

/-- What the pending instruction of the machine does. -/
inductive Executed (m : Machine) : Machine -> Prop where
  | quiet {next : Machine} (quiet : Quiet m next) : Executed m next
  | raises {x next : Machine} {epc : Word} (kept : Kept m.sys x.sys) (reg : x.reg = m.reg) (mode : x.instrMode = m.instrMode)
      (entry : TrapEntry m.pc x epc next) : Executed m next
  | privileged {insn : Instruction} {next : Machine} (supervisor : m.sys.user = false)
      (pending : m.instruction = some (.normal insn)) (performed : Performed m.pc { m with pc := m.pc + 4 } insn next) :
      Executed m next

theorem Performed.executed {insn : Instruction} {sys : SystemState} (kept : Kept m.sys sys)
    (special : insn.isPrivileged = true -> sys = m.sys ∧ m.sys.user = false ∧ m.instruction = some (.normal insn))
    (performed : Performed m.pc { m with pc := m.pc + 4, sys := sys } insn next) : Executed m next := by
  cases performed with
  | calm calm => exact .quiet ⟨kept.trans (.of_eq calm.sys), calm.zero, calm.running⟩
  | raises exception =>
    exact .raises (x := { m with pc := m.pc + 4, sys := sys }) kept rfl rfl (.exception exception m.busError)
  | calls imm => exact .raises (x := { m with pc := m.pc + 4, sys := sys }) kept rfl rfl (.syscall imm)
  | halts =>
    obtain ⟨rfl, supervisor, pending⟩ := special rfl
    exact .privileged supervisor pending .halts
  | writes rs sr written =>
    obtain ⟨rfl, supervisor, pending⟩ := special rfl
    exact .privileged supervisor pending (.writes rs sr written)
  | returns =>
    obtain ⟨rfl, supervisor, pending⟩ := special rfl
    exact .privileged supervisor pending .returns

theorem executeNormal_cases {insn : Instruction} (pending : m.instruction = some (.normal insn)) :
    Executed m (m.executeNormal insn) := by
  unfold executeNormal checkNormal
  dsimp only
  by_cases denied : (m.sys.user && insn.isPrivileged) = true
  · rw [if_pos denied]
    exact .raises (x := { m with pc := m.pc + 4 }) (.refl _) rfl rfl (.exception .privilegedInstruction m.busError)
  · rw [if_neg denied]
    have supervisor : insn.isPrivileged = true -> m.sys.user = false := by
      intro privileged
      rw [privileged, Bool.and_true] at denied
      exact Bool.eq_false_of_not_eq_true denied
    cases accessed : dataAccess insn with
    | none => exact (perform_cases insn m.pc).executed (.refl _) fun privileged => ⟨rfl, supervisor privileged, pending⟩
    | some access =>
      obtain ⟨base, offset, len, access⟩ := access
      dsimp only
      have checked := accessAllowed_cases (m := { m with pc := m.pc + 4 })
        (addSigned (readReg { m with pc := m.pc + 4 } base.toNat) offset) len access m.pc
      generalize accessAllowed { m with pc := m.pc + 4 } (addSigned (readReg { m with pc := m.pc + 4 } base.toNat) offset)
        len access m.pc = result at checked ⊢
      cases checked with
      | allowed kept =>
        refine (perform_cases insn m.pc).executed kept fun privileged => ?_
        cases insn <;> first | (cases accessed; done) | (cases privileged; done)
      | denied kept latched exception =>
        exact .raises (x := { m with pc := m.pc + 4, sys := _ }) kept rfl rfl (.exception (.denied exception) latched)

/-- Short-mode instructions move data or trap. -/
theorem performShort_cases (insn : ShortInstruction) (origin nextPc : Word) :
    Calm m (m.performShort insn origin nextPc) ∨
      m.performShort insn origin nextPc = m.enterException .illegalInstruction origin := by
  cases insn with
  | bz | bnz =>
    left
    unfold performShort
    dsimp only
    split_ifs
    · exact ⟨rfl, rfl, rfl⟩
    · exact .refl
  | ld | jal => exact Or.inl ⟨setGpr_sys .., setGpr_zero .., setGpr_running ..⟩
  | st | jr | ret => exact Or.inl ⟨rfl, rfl, rfl⟩
  | unknown => exact Or.inr rfl
  | mov | add | addi | ldi => exact Or.inl (.setGpr _ _)

theorem executeShort_cases (insn : ShortInstruction) : Executed m (m.executeShort insn) := by
  have performs : ∀ sys, Kept m.sys sys ->
      Executed m (performShort { m with pc := m.pc + 2, sys := sys } insn m.pc (m.pc + 2)) := by
    intro sys kept
    rcases performShort_cases (m := { m with pc := m.pc + 2, sys := sys }) insn m.pc (m.pc + 2) with calm | raised
    · exact .quiet ⟨kept.trans (.of_eq calm.sys), calm.zero, calm.running⟩
    · rw [raised]
      exact .raises (x := { m with pc := m.pc + 2, sys := sys }) kept rfl rfl (.exception _ m.busError)
  unfold executeShort checkShort
  dsimp only
  cases shortDataAccess insn with
  | none => exact performs m.sys (.refl _)
  | some access =>
    obtain ⟨base, access⟩ := access
    dsimp only
    have checked := accessAllowed_cases (m := { m with pc := m.pc + 2 })
      (readReg { m with pc := m.pc + 2 } (shortRegToGpr base)) 4 access m.pc
    generalize accessAllowed { m with pc := m.pc + 2 } (readReg { m with pc := m.pc + 2 } (shortRegToGpr base)) 4
      access m.pc = result at checked ⊢
    cases checked with
    | allowed kept => exact performs _ kept
    | denied kept latched exception =>
      exact .raises (x := { m with pc := m.pc + 2, sys := _ }) kept rfl rfl (.exception (.denied exception) latched)

theorem execute_cases (m : Machine) : Executed m m.execute := by
  unfold execute
  cases pending : m.instruction with
  | none => exact .quiet .refl
  | some instruction =>
    cases instruction with
    | rawNormal | rawShort => exact .quiet .refl
    | normal insn => exact executeNormal_cases pending
    | short insn => exact executeShort_cases insn

/-! ## Trap entries -/

@[simp] theorem enterException_user (exception : Raised) (epc : Word) :
    (m.enterException exception epc).sys.user = false := by
  unfold enterException SystemState.enterTrap SystemState.recordFault
  dsimp only
  split_ifs with user
  · rfl
  · exact Bool.eq_false_of_not_eq_true user

theorem enterTrap_zero (s : SystemState) (reg : Registers) (epc cause : Word) (mode : InstructionMode) :
    r0 (s.enterTrap reg epc cause mode).2 = r0 reg := by
  unfold SystemState.enterTrap
  dsimp only
  split_ifs
  · exact setBank_zero reg s.otherBank
  · rfl

theorem TrapEntry.user (entry : TrapEntry origin x epc next) : next.sys.user = false := by
  cases entry with
  | irq accepts =>
    unfold acceptPendingIrq SystemState.enterTrap
    rw [if_pos accepts]
    dsimp only
    split_ifs with user
    · rfl
    · exact Bool.eq_false_of_not_eq_true user
  | exception | syscall => exact enterException_user ..

theorem TrapEntry.zero (entry : TrapEntry origin x epc next) :
    r0 next.reg = r0 x.reg := by
  cases entry with
  | irq accepts =>
    unfold acceptPendingIrq
    rw [if_pos accepts]
    exact enterTrap_zero ..
  | exception | syscall => exact enterTrap_zero ..

/-- After a trap no interrupt is accepted. -/
theorem TrapEntry.masked (entry : TrapEntry origin x epc next) :
    next.sys.ie = false := by
  have masks : ∀ (s : SystemState) (reg : Registers) (epc cause : Word) (mode : InstructionMode),
      (s.enterTrap reg epc cause mode).1.ie = false := by
    intro s reg epc cause mode
    unfold SystemState.enterTrap
    dsimp only
    split_ifs <;> rfl
  cases entry with
  | irq accepts =>
    unfold acceptPendingIrq
    rw [if_pos accepts]
    exact masks ..
  | exception => exact masks ..
  | syscall => exact masks ..

/-- A system register write leaves the mode alone. -/
theorem writeSr_kept {s sys : SystemState} {sr : Nat} {value : Word} {reg next : Registers}
    (written : s.writeSr sr value reg = some (sys, next)) : sys.user = s.user ∧ r0 next = r0 reg := by
  have keeps : ∀ (t : SystemState), some (t, reg) = some (sys, next) -> t.user = s.user ->
      sys.user = s.user ∧ r0 next = r0 reg := by
    rintro t ⟨⟩ same
    exact ⟨same, rfl⟩
  unfold SystemState.writeSr at written
  by_cases status : sr = srStatus
  · rw [if_pos status] at written; exact keeps _ written rfl
  rw [if_neg status] at written
  by_cases epc : sr = srEpc
  · rw [if_pos epc] at written; exact keeps _ written rfl
  rw [if_neg epc] at written
  by_cases cause : sr = srCause
  · rw [if_pos cause] at written; exact keeps _ written rfl
  rw [if_neg cause] at written
  by_cases bank : srUsp ≤ sr ∧ sr ≤ srUgp
  · rw [dif_pos bank] at written
    by_cases current : s.user = true
    · rw [if_pos current] at written
      cases written
      exact ⟨rfl, Vector.getElem_set_ne _ _ (by omega)⟩
    · rw [if_neg current] at written; exact keeps _ written rfl
  rw [dif_neg bank] at written
  by_cases vctl : sr = srVctl
  · rw [if_pos vctl] at written; exact keeps _ written rfl
  rw [if_neg vctl] at written
  by_cases ptbr : sr = srPtbr
  · rw [if_pos ptbr] at written; exact keeps _ written rfl
  rw [if_neg ptbr] at written
  by_cases vfault : sr = srVfault
  · rw [if_pos vfault] at written; exact keeps _ written rfl
  rw [if_neg vfault] at written
  by_cases flush : sr = srTlbflush
  · rw [if_pos flush] at written; exact keeps _ written rfl
  rw [if_neg flush] at written
  by_cases inval : sr = srTlbinv
  · rw [if_pos inval] at written; exact keeps _ written rfl
  rw [if_neg inval] at written
  cases named : SystemState.regionField sr with
  | none =>
    rw [named] at written
    cases written
  | some place =>
    rw [named] at written
    exact keeps _ written rfl
/-! ## One tick -/

/-- What a phase may do in any mode: only IRET enters U mode, and only where PU is set. -/
structure Lawful (m next : Machine) : Prop where
  zero : r0 next.reg = r0 m.reg
  running : next.sys.user = true -> next.running = m.running
  entered : m.sys.user = false -> next.sys.user = true -> ∃ x : Machine, Kept m.sys x.sys ∧
    x.instruction = some (.normal .iret) ∧ x.sys.pu = true ∧ next.sys = x.execute.sys

theorem Quiet.lawful (quiet : Quiet m next) : Lawful m next := by
  refine ⟨quiet.zero, fun _ => quiet.running, fun supervisor user => ?_⟩
  rw [quiet.kept.user, supervisor] at user
  cases user

theorem TrapEntry.lawful (zero : r0 x.reg = r0 m.reg) (entry : TrapEntry origin x epc next) : Lawful m next := by
  have supervisor : ∀ {p : Prop}, next.sys.user = true -> p := fun user =>
    absurd (entry.user.symm.trans user) Bool.noConfusion
  exact ⟨entry.zero.trans zero, supervisor, fun _ => supervisor⟩

theorem Lawful.after_quiet (quiet : Quiet m x) (lawful : Lawful x next) : Lawful m next := by
  refine ⟨lawful.zero.trans quiet.zero, fun user => (lawful.running user).trans quiet.running, fun supervisor user => ?_⟩
  obtain ⟨at_, kept, iret, pu, same⟩ := lawful.entered (quiet.kept.user.trans supervisor) user
  exact ⟨at_, quiet.kept.trans kept, iret, pu, same⟩

/-- Fields that no trap reads may change behind it. -/
theorem Lawful.aside {later : Machine} (lawful : Lawful m next) (sys : later.sys = next.sys)
    (reg : later.reg = next.reg) (running : later.running = next.running) : Lawful m later := by
  refine ⟨reg ▸ lawful.zero, fun user => ?_, fun supervisor user => ?_⟩
  · rw [sys] at user
    rw [running]
    exact lawful.running user
  · rw [sys] at user ⊢
    exact lawful.entered supervisor user

theorem leaveTrap_user {s : SystemState} {reg : Registers} (supervisor : s.user = false)
    (user : (s.leaveTrap reg).1.user = true) : s.pu = true := by
  unfold SystemState.leaveTrap at user
  dsimp only at user
  split_ifs at user with saved
  · rw [Bool.and_eq_true] at saved
    exact saved.1
  · rw [supervisor] at user
    cases user

theorem leaveTrap_zero (s : SystemState) (reg : Registers) : r0 (s.leaveTrap reg).2.1 = r0 reg := by
  unfold SystemState.leaveTrap
  dsimp only
  split_ifs
  · exact setBank_zero reg s.otherBank
  · rfl

theorem execute_lawful (m : Machine) : Lawful m m.execute := by
  have executed := execute_cases m
  generalize result : m.execute = next at executed
  cases executed with
  | quiet quiet => exact quiet.lawful
  | raises kept reg mode entry => exact entry.lawful (congrArg r0 reg)
  | privileged supervisor pending performed =>
    have stays : ∀ {p : Prop}, m.sys.user = true -> p := fun user => absurd (supervisor.symm.trans user) Bool.noConfusion
    cases performed with
    | calm calm => exact ⟨calm.zero, fun _ => calm.running, fun _ user => stays (calm.sys ▸ user)⟩
    | raises exception => exact (TrapEntry.exception exception m.busError).lawful (x := { m with pc := m.pc + 4 }) rfl
    | calls imm => exact (TrapEntry.syscall imm).lawful (x := { m with pc := m.pc + 4 }) rfl
    | halts => exact ⟨rfl, stays, fun _ => stays⟩
    | writes rs sr written =>
      obtain ⟨same, zero⟩ := writeSr_kept written
      exact ⟨zero, fun _ => rfl, fun _ user => stays (same.symm.trans user)⟩
    | returns =>
      exact ⟨leaveTrap_zero m.sys m.reg, fun _ => rfl, fun supervisor user =>
        ⟨m, .refl _, pending, leaveTrap_user supervisor user, congrArg Machine.sys result.symm⟩⟩

theorem commitPending_lawful (m : Machine) : Lawful m m.commitPending := by
  have executed := execute_lawful m
  unfold commitPending
  dsimp only
  by_cases latched : m.execute.busError = true
  · rw [if_pos latched]
    exact (TrapEntry.exception (.denied .busError) false).lawful executed.zero
  · rw [if_neg latched]
    exact executed

theorem Lawful.accept (lawful : Lawful m next) : Lawful m next.acceptPendingIrq := by
  by_cases accepts : next.accepts = true
  · have entry : TrapEntry next.pc next next.pc next.acceptPendingIrq := .irq accepts
    exact entry.lawful lawful.zero
  · rw [acceptPendingIrq, if_neg accepts]
    exact lawful

theorem commitScalar_lawful (m : Machine) : Lawful m m.commitScalar := (commitPending_lawful m).aside rfl rfl rfl

theorem commitCached_lawful (m : Machine) : Lawful m m.commitCached := by
  have committed := commitPending_lawful m
  unfold commitCached
  dsimp only
  split_ifs
  · exact (committed.aside rfl rfl rfl : Lawful m { m.commitPending with instruction := none, state := .fetch }).accept
  · exact committed.aside rfl rfl rfl

/-- The fetch of either interpreter, behind its check. -/
theorem fetchAllowed_lawful {next : Machine -> Machine} (fetched : ∀ x : Machine, Quiet m x -> Lawful m (next x)) :
    Lawful m (if m.fetchAllowed.1 = true then next m.fetchAllowed.2 else m.fetchAllowed.2) := by
  have checked : Checked m m.pc m.fetchAllowed := accessAllowed_cases ..
  generalize m.fetchAllowed = result at checked
  cases checked with
  | allowed kept =>
    rw [if_pos rfl]
    exact fetched _ ⟨kept, rfl, rfl⟩
  | @denied sys kept latched exception =>
    rw [if_neg Bool.false_ne_true]
    have entry : TrapEntry m.pc { m with sys := sys } m.pc
        ({ m with sys := sys, busError := latched }.enterException (.denied exception) m.pc) :=
      .exception (.denied exception) latched
    exact TrapEntry.lawful (m := m) (x := { m with sys := sys }) rfl entry

theorem phaseScalar_lawful (m : Machine) (phase : CpuState) : Lawful m (m.phaseScalar phase) := by
  cases phase with
  | fetch => exact @fetchAllowed_lawful m (fun x => { x.fetch false with state := .decode }) fun _ quiet =>
    quiet.lawful.aside rfl rfl rfl
  | decode =>
    unfold phaseScalar decodePhase
    dsimp only
    split <;> exact Quiet.lawful ⟨.refl _, rfl, rfl⟩
  | execute | memRead | memWrite => exact commitScalar_lawful m
  | mul | div =>
    unfold phaseScalar
    dsimp only
    have counted : Quiet m { m with cyclesLeft := m.cyclesLeft - 1 } := ⟨.refl _, rfl, rfl⟩
    split_ifs
    · exact (commitScalar_lawful _).after_quiet counted
    · exact counted.lawful
  | writeback =>
    have cleared : Quiet m { m with instruction := none } := ⟨.refl _, rfl, rfl⟩
    exact cleared.lawful.accept.aside rfl rfl rfl
  | halt => exact Quiet.lawful .refl

theorem issueCached_lawful (m : Machine) (instruction : PendingInstruction) : Lawful m (m.issueCached instruction) := by
  unfold issueCached
  split_ifs
  · exact Quiet.lawful ⟨.refl _, rfl, rfl⟩
  · exact Quiet.lawful ⟨.refl _, rfl, rfl⟩
  · exact commitCached_lawful m

theorem phaseCached_lawful (m : Machine) (phase : CpuState) : Lawful m (m.phaseCached phase) := by
  cases phase with
  | fetch =>
    refine @fetchAllowed_lawful m (fun x => (x.fetch true).issueCached (x.fetched true)) fun x quiet => ?_
    have fetches : Quiet m (x.fetch true) := quiet.trans ⟨.refl _, rfl, rfl⟩
    exact (issueCached_lawful (x.fetch true) _).after_quiet fetches
  | mul | div =>
    unfold phaseCached
    dsimp only
    have counted : Quiet m { m with cyclesLeft := m.cyclesLeft - 1 } := ⟨.refl _, rfl, rfl⟩
    split_ifs
    · exact (commitCached_lawful _).after_quiet counted
    · exact counted.lawful
  | decode | execute | memRead | memWrite | writeback | halt => exact Quiet.lawful .refl

theorem phase_lawful (m : Machine) (cached : Bool) : Lawful m (m.phase cached) := by
  unfold phase
  split_ifs
  · exact phaseCached_lawful m m.state
  · exact phaseScalar_lawful m m.state

end Machine
end Src32.Cpu
