import Src32.Cpu.TrapDiscipline

namespace Src32.Cpu

/-!
# User programs and trap handlers

What a tick in U mode does to the CPU, that it does not depend on the supervisor
copies of R28..R30, and that a handler that leaves EPC, STATUS and the user bank
alone returns with IRET to what was interrupted.
-/

namespace Machine

variable {m x : Machine}

/-! ## The user program -/

/-- Some trap entry of the instruction at `origin`. -/
def Traps (origin : Word) (x y : Machine) : Prop := ∃ epc, TrapEntry origin x epc y

/-- What a user program can do to the CPU: move data, or be trapped. -/
inductive Guarded (m next : Machine) : Prop where
  | stays (kept : Kept m.sys next.sys)
  | trapped {x y : Machine} (kept : Kept m.sys x.sys) (traps : Relation.TransGen (Traps m.pc) x y) (sys : next.sys = y.sys)
      (reg : next.reg = y.reg) (pc : next.pc = y.pc) (mode : next.instrMode = y.instrMode)

variable {next : Machine} {s : SystemState} {origin epc : Word}

theorem Guarded.aside {later : Machine} (guarded : Guarded m next) (sys : later.sys = next.sys)
    (reg : later.reg = next.reg) (pc : later.pc = next.pc) (mode : later.instrMode = next.instrMode) :
    Guarded m later := by
  cases guarded with
  | stays kept => exact .stays (sys ▸ kept)
  | trapped kept traps sys' reg' pc' mode' =>
    exact .trapped kept traps (sys.trans sys') (reg.trans reg') (pc.trans pc') (mode.trans mode')

theorem Guarded.after_kept (kept : Kept m.sys x.sys) (pc : x.pc = m.pc) (guarded : Guarded x next) :
    Guarded m next := by
  cases guarded with
  | stays later => exact .stays (kept.trans later)
  | trapped later traps sys reg place mode =>
    rw [pc] at traps
    exact .trapped (kept.trans later) traps sys reg place mode

theorem Guarded.entry (kept : Kept m.sys x.sys) (entry : TrapEntry m.pc x epc next) :
    Guarded m next := .trapped kept (.single ⟨epc, entry⟩) rfl rfl rfl rfl

theorem traps_masked {y : Machine} (traps : Relation.TransGen (Traps origin) x y) : y.sys.ie = false := by
  cases traps with
  | single last | tail _ last =>
    obtain ⟨_, entry⟩ := last
    exact entry.masked

theorem commitPending_guarded (user : m.sys.user = true) : Guarded m m.commitPending := by
  have executed := execute_cases m
  unfold commitPending
  dsimp only
  generalize m.execute = next at executed
  have error : TrapEntry m.pc next m.pc ({ next with busError := false }.enterException (.denied .busError) m.pc) :=
    .exception (.denied .busError) false
  cases executed with
  | quiet quiet =>
    split_ifs
    · exact .entry quiet.kept error
    · exact .stays quiet.kept
  | @raises x _ epc kept reg mode entry =>
    split_ifs
    · exact .trapped kept (.tail (.single ⟨epc, entry⟩) ⟨m.pc, error⟩) rfl rfl rfl rfl
    · exact .entry kept entry
  | privileged supervisor =>
    rw [user] at supervisor
    cases supervisor

theorem Guarded.accept (guarded : Guarded m next) : Guarded m next.acceptPendingIrq := by
  by_cases accepts : next.accepts = true
  · cases guarded with
    | stays kept =>
      have entry : TrapEntry m.pc next next.pc next.acceptPendingIrq := .irq accepts
      exact .entry kept entry
    | trapped kept traps sys =>
      -- a trap masks interrupts
      have masked := traps_masked traps
      rw [Machine.accepts, sys, masked] at accepts
      exact absurd accepts Bool.false_ne_true
  · rw [acceptPendingIrq, if_neg accepts]
    exact guarded

theorem commitScalar_guarded (user : m.sys.user = true) : Guarded m m.commitScalar :=
  (commitPending_guarded user).aside rfl rfl rfl rfl

theorem commitCached_guarded (user : m.sys.user = true) : Guarded m m.commitCached := by
  have committed := commitPending_guarded user
  unfold commitCached
  dsimp only
  split_ifs
  · exact (committed.aside rfl rfl rfl rfl : Guarded m { m.commitPending with instruction := none, state := .fetch }).accept
  · exact committed.aside rfl rfl rfl rfl

theorem fetchAllowed_guarded {next : Machine -> Machine}
    (fetched : ∀ sys, Kept m.sys sys -> Guarded m (next { m with sys := sys })) :
    Guarded m (if m.fetchAllowed.1 = true then next m.fetchAllowed.2 else m.fetchAllowed.2) := by
  have checked : Checked m m.pc m.fetchAllowed := accessAllowed_cases ..
  generalize m.fetchAllowed = result at checked
  cases checked with
  | allowed kept =>
    rw [if_pos rfl]
    exact fetched _ kept
  | @denied sys kept latched exception =>
    rw [if_neg Bool.false_ne_true]
    have entry : TrapEntry m.pc { m with sys := sys } m.pc
        ({ m with sys := sys, busError := latched }.enterException (.denied exception) m.pc) :=
      .exception (.denied exception) latched
    exact Guarded.entry (m := m) (x := { m with sys := sys }) kept entry

theorem phaseScalar_guarded (user : m.sys.user = true) (phase : CpuState) : Guarded m (m.phaseScalar phase) := by
  cases phase with
  | fetch => exact @fetchAllowed_guarded m (fun x => { x.fetch false with state := .decode }) fun _ kept => .stays kept
  | decode =>
    unfold phaseScalar decodePhase
    dsimp only
    split <;> exact .stays (.refl _)
  | execute | memRead | memWrite => exact commitScalar_guarded user
  | mul | div =>
    unfold phaseScalar
    dsimp only
    split_ifs
    · exact Guarded.after_kept (m := m) (x := { m with cyclesLeft := m.cyclesLeft - 1 }) (.refl _) rfl (commitScalar_guarded user)
    · exact .stays (.refl _)
  | writeback =>
    have cleared : Guarded m { m with instruction := none } := .stays (.refl _)
    exact cleared.accept.aside rfl rfl rfl rfl
  | halt => exact .stays (.refl _)

theorem issueCached_guarded (user : m.sys.user = true) (instruction : PendingInstruction) :
    Guarded m (m.issueCached instruction) := by
  unfold issueCached
  split_ifs
  · exact .stays (.refl _)
  · exact .stays (.refl _)
  · exact commitCached_guarded user

theorem phaseCached_guarded (user : m.sys.user = true) (phase : CpuState) : Guarded m (m.phaseCached phase) := by
  cases phase with
  | fetch =>
    refine @fetchAllowed_guarded m (fun x => (x.fetch true).issueCached (x.fetched true)) fun sys kept => ?_
    have still : sys.user = true := kept.user.trans user
    exact Guarded.after_kept (m := m) (x := fetch { m with sys := sys } true) kept rfl
      (issueCached_guarded (m := fetch { m with sys := sys } true) still _)
  | mul | div =>
    unfold phaseCached
    dsimp only
    split_ifs
    · exact Guarded.after_kept (m := m) (x := { m with cyclesLeft := m.cyclesLeft - 1 }) (.refl _) rfl (commitCached_guarded user)
    · exact .stays (.refl _)
  | decode | execute | memRead | memWrite | writeback | halt => exact .stays (.refl _)

theorem phase_guarded (user : m.sys.user = true) (cached : Bool) : Guarded m (m.phase cached) := by
  unfold phase
  split_ifs
  · exact phaseCached_guarded user m.state
  · exact phaseScalar_guarded user m.state

/-! ## The supervisor copies -/

/-- The supervisor copies of R28..R30 replaced: the bank that is not current in U
mode, the live registers in S mode. -/
def withBank (m : Machine) (bank : Vector Word 3) : Machine :=
  { m with
    sys := { m.sys with otherBank := if m.sys.user = true then bank else m.sys.otherBank }
    reg := if m.sys.user = true then m.reg else setBank m.reg bank }

theorem withBank_user (user : m.sys.user = true) (bank : Vector Word 3) :
    m.withBank bank = { m with sys := { m.sys with otherBank := bank } } := by
  unfold withBank
  rw [if_pos user, if_pos user]

theorem withBank_supervisor (supervisor : m.sys.user = false) (bank : Vector Word 3) :
    m.withBank bank = { m with reg := setBank m.reg bank } := by
  have other : ¬ m.sys.user = true := fun user => absurd (supervisor.symm.trans user) Bool.noConfusion
  unfold withBank
  rw [if_neg other, if_neg other]

theorem enterTrap_user (user : s.user = true) (reg : Registers) (epc cause : Word) (mode : InstructionMode) :
    s.enterTrap reg epc cause mode =
      ({ s with epc := epc, cause := cause, pie := s.ie, ie := false, pu := true, psm := mode, user := false,
                otherBank := Vector.ofFn fun index : Fin 3 => getElem reg (28 + index.val) (banked index) }, setBank reg s.otherBank) := by
  unfold SystemState.enterTrap
  dsimp only
  rw [if_pos user, user]
  rfl

theorem enterTrap_supervisor (supervisor : s.user = false) (reg : Registers) (epc cause : Word)
    (mode : InstructionMode) : s.enterTrap reg epc cause mode =
      ({ s with epc := epc, cause := cause, pie := s.ie, ie := false, pu := false, psm := mode }, reg) := by
  unfold SystemState.enterTrap
  dsimp only
  rw [if_neg, supervisor]
  rw [supervisor]
  exact Bool.false_ne_true

theorem enterException_withBank (bank : Vector Word 3) (exception : Raised) (epc : Word) :
    (m.withBank bank).enterException exception epc = (m.enterException exception epc).withBank bank := by
  rw [withBank_supervisor (enterException_user exception epc)]
  cases user : m.sys.user with
  | true =>
    rw [withBank_user user]
    unfold enterException
    rw [enterTrap_user (show (m.sys.recordFault exception.faultAddr).user = true from user), enterTrap_user]
    · dsimp only
      rw [setBank_setBank]
      rfl
    · exact user
  | false =>
    rw [withBank_supervisor user]
    unfold enterException
    rw [enterTrap_supervisor (show (m.sys.recordFault exception.faultAddr).user = false from user), enterTrap_supervisor]
    · rfl
    · exact user

theorem acceptPendingIrq_withBank (bank : Vector Word 3) :
    (m.withBank bank).acceptPendingIrq = m.acceptPendingIrq.withBank bank := by
  have same : (m.withBank bank).accepts = m.accepts := rfl
  by_cases accepts : m.accepts = true
  · have entry : TrapEntry m.pc m m.pc m.acceptPendingIrq := .irq accepts
    rw [withBank_supervisor entry.user]
    unfold acceptPendingIrq
    rw [if_pos accepts, if_pos (same.trans accepts)]
    cases user : m.sys.user with
    | true =>
      rw [withBank_user user]
      dsimp only
      rw [enterTrap_user user, enterTrap_user (show ({ m.sys with otherBank := bank } : SystemState).user = true from user)]
      dsimp only
      rw [setBank_setBank]
    | false =>
      rw [withBank_supervisor user]
      dsimp only
      rw [enterTrap_supervisor user, enterTrap_supervisor user]
  · rw [acceptPendingIrq, acceptPendingIrq, if_neg accepts, if_neg (same ▸ accepts)]

section User

variable (user : m.sys.user = true) (bank : Vector Word 3)
include user

/-- What leaves the mode alone and works on the data only. -/
theorem hidden_of_sys {next : Machine} (same : next.sys = m.sys) :
    { next with sys := { next.sys with otherBank := bank } } = next.withBank bank := by
  rw [withBank_user]
  rw [same]
  exact user

omit user in
theorem setGpr_hidden (index : Nat) (value : Word) :
    setGpr { m with sys := { m.sys with otherBank := bank } } index value =
      { m.setGpr index value with sys := { m.sys with otherBank := bank } } := by
  unfold setGpr
  split_ifs <;> rfl

theorem setGpr_withBank (index : Nat) (value : Word) :
    setGpr { m with sys := { m.sys with otherBank := bank } } index value = (m.setGpr index value).withBank bank := by
  rw [setGpr_hidden, ← hidden_of_sys user bank (setGpr_sys index value), setGpr_sys]

theorem branch_withBank (taken : Prop) [Decidable taken] (pc : Word) :
    (if taken then { m with sys := { m.sys with otherBank := bank }, pc := pc }
      else { m with sys := { m.sys with otherBank := bank } }) =
      (if taken then { m with pc := pc } else m : Machine).withBank bank := by
  split_ifs
  · exact @hidden_of_sys m user bank { m with pc := pc } rfl
  · exact @hidden_of_sys m user bank m rfl

theorem load_withBank (rd : Nat) (addr : Word) (size : Nat) :
    load { m with sys := { m.sys with otherBank := bank } } rd addr size = (m.load rd addr size).withBank bank :=
  setGpr_withBank (m := { m with busError := m.busError || m.sys.faults m.memory addr size }) user bank _ _

omit user in
theorem checkAccess_hidden (s : SystemState) (bus : Bus) (addr : Word) (len : Nat) (access : Access) :
    ({ s with otherBank := bank } : SystemState).checkAccess bus addr len access =
      ((s.checkAccess bus addr len access).1, { (s.checkAccess bus addr len access).2 with otherBank := bank }) := by
  unfold SystemState.checkAccess
  by_cases physical : (!s.translating) = true
  · rw [if_pos physical]
    exact if_pos physical
  · rw [if_neg physical]
    exact if_neg physical

theorem accessAllowed_withBank (addr : Word) (len : Nat) (access : Access) (origin : Word) :
    (m.withBank bank).accessAllowed addr len access origin =
      ((m.accessAllowed addr len access origin).1, (m.accessAllowed addr len access origin).2.withBank bank) := by
  rw [withBank_user user]
  unfold accessAllowed
  dsimp only
  have shown : memory { m with sys := { m.sys with otherBank := bank } } = m.memory := rfl
  rw [shown]
  generalize (if m.busError = true then ({ m.memory with fault := fun _ => true } : Bus) else m.memory) = bus
  rw [checkAccess_hidden]
  have kept := checkAccess_kept m.sys bus addr len access
  cases checked : m.sys.checkAccess bus addr len access with
  | mk result sys =>
    rw [checked] at kept
    have still : sys.user = true := kept.user.trans user
    cases result with
    | ok =>
      have same := withBank_user (m := { m with sys := sys }) still bank
      exact congrArg (Prod.mk true) same.symm
    | error raised =>
      dsimp only
      have trapped := @enterException_withBank
        { m with sys := sys, busError := m.busError && decide (raised ≠ Exception.busError) } bank (.denied raised) origin
      rw [withBank_user (m := { m with sys := sys, busError := m.busError && decide (raised ≠ Exception.busError) })
        still] at trapped
      exact congrArg (Prod.mk false) trapped

theorem perform_withBank {insn : Instruction} (unprivileged : insn.isPrivileged = false) (origin nextPc : Word) :
    (m.withBank bank).perform insn origin nextPc = (m.perform insn origin nextPc).withBank bank := by
  rw [withBank_user user]
  have sets : ∀ index value, setGpr { m with sys := { m.sys with otherBank := bank } } index value =
      (m.setGpr index value).withBank bank := setGpr_withBank user bank
  have plain : ∀ {next : Machine}, next.sys = m.sys ->
      { next with sys := { next.sys with otherBank := bank } } = next.withBank bank := hidden_of_sys user bank
  have jumps : ∀ (pc : Word) (mode : InstructionMode),
      { setGpr { m with sys := { m.sys with otherBank := bank } } 31 nextPc with pc := pc, instrMode := mode } =
        ({ m.setGpr 31 nextPc with pc := pc, instrMode := mode } : Machine).withBank bank := by
    intro pc mode
    rw [setGpr_hidden, ← plain]
    · rw [setGpr_sys]
    · exact setGpr_sys ..
  cases insn with
  | mfsr | mtsr | iret | halt => cases unprivileged
  | nop => exact @plain m rfl
  | syscall | unknown =>
    have traps := @enterException_withBank m bank
    rw [withBank_user user] at traps
    exact traps _ _
  | st | sth | stb | jmp | jr | jmps | jrs =>
    refine .trans ?_ (@plain (m.perform _ origin nextPc) ?_)
    · rfl
    · rfl
  | beq | bne => exact branch_withBank user bank _ _
  | jal | jalr | jals | jalrs => exact jumps _ _
  | cpuid =>
    have first := sets 1 0x53524332
    have still : (m.setGpr 1 0x53524332).sys.user = true := (congrArg SystemState.user (setGpr_sys ..)).trans user
    rw [withBank_user still] at first
    have second := setGpr_withBank still bank 2 0x13F
    unfold perform
    dsimp only
    rw [first]
    exact second
  | ld | ldh | ldb => exact load_withBank user bank _ _ _
  | add | addi | sub | slt | sltu | and | or | xor | sll | srl | sla | sra | mul | div | mod | mulh | divu | ldil | ldih =>
    exact sets _ _

theorem performShort_withBank (insn : ShortInstruction) (origin nextPc : Word) :
    (m.withBank bank).performShort insn origin nextPc = (m.performShort insn origin nextPc).withBank bank := by
  rw [withBank_user user]
  cases insn with
  | bz | bnz => exact branch_withBank user bank _ _
  | ld => exact load_withBank user bank _ _ _
  | jal =>
    refine .trans ?_ (@hidden_of_sys m user bank (m.performShort _ origin nextPc) ?_)
    · unfold performShort
      dsimp only
      rw [setGpr_hidden, setGpr_sys]
    · exact setGpr_sys ..
  | st | jr | ret =>
    refine .trans ?_ (@hidden_of_sys m user bank (m.performShort _ origin nextPc) ?_)
    · rfl
    · rfl
  | unknown =>
    have traps := @enterException_withBank m bank
    rw [withBank_user user] at traps
    exact traps _ _
  | mov | add | addi | ldi => exact setGpr_withBank user bank _ _

/-- Behind a check that is allowed the mode is still U. -/
theorem accessAllowed_user {addr : Word} {len : Nat} {access : Access} {origin : Word}
    (allowed : (m.accessAllowed addr len access origin).1 = true) :
    (m.accessAllowed addr len access origin).2.sys.user = true := by
  have checked : Checked m origin (m.accessAllowed addr len access origin) := accessAllowed_cases ..
  generalize m.accessAllowed addr len access origin = result at checked allowed
  cases checked with
  | allowed kept => exact kept.user.trans user
  | denied => cases allowed

theorem checkNormal_withBank (insn : Instruction) (origin nextPc : Word) :
    (m.withBank bank).checkNormal insn origin nextPc = (m.checkNormal insn origin nextPc).withBank bank := by
  have mode : (m.withBank bank).sys.user = m.sys.user := rfl
  unfold checkNormal
  rw [mode]
  by_cases denied : (m.sys.user && insn.isPrivileged) = true
  · rw [if_pos denied, if_pos denied]
    exact enterException_withBank ..
  · rw [if_neg denied, if_neg denied]
    rw [user, Bool.true_and, Bool.not_eq_true] at denied
    cases dataAccess insn with
    | none => exact perform_withBank user bank denied origin nextPc
    | some access =>
      obtain ⟨base, offset, len, access⟩ := access
      have base_ : (m.withBank bank).readReg base.toNat = m.readReg base.toNat := by
        rw [withBank_user user]
        rfl
      dsimp only
      rw [base_, accessAllowed_withBank user]
      dsimp only
      by_cases allowed : (m.accessAllowed (addSigned (m.readReg base.toNat) offset) len access origin).1 = true
      · rw [if_pos allowed, if_pos allowed]
        exact perform_withBank (accessAllowed_user user allowed) bank denied origin nextPc
      · rw [if_neg allowed, if_neg allowed]

theorem checkShort_withBank (insn : ShortInstruction) (origin nextPc : Word) :
    (m.withBank bank).checkShort insn origin nextPc = (m.checkShort insn origin nextPc).withBank bank := by
  unfold checkShort
  cases shortDataAccess insn with
  | none => exact performShort_withBank user bank insn origin nextPc
  | some access =>
    obtain ⟨base, access⟩ := access
    have base_ : (m.withBank bank).readReg (shortRegToGpr base) = m.readReg (shortRegToGpr base) := by
      rw [withBank_user user]
      rfl
    dsimp only
    rw [base_, accessAllowed_withBank user]
    dsimp only
    by_cases allowed : (m.accessAllowed (m.readReg (shortRegToGpr base)) 4 access origin).1 = true
    · rw [if_pos allowed, if_pos allowed]
      exact performShort_withBank (accessAllowed_user user allowed) bank insn origin nextPc
    · rw [if_neg allowed, if_neg allowed]

theorem execute_withBank : (m.withBank bank).execute = m.execute.withBank bank := by
  have pending : (m.withBank bank).instruction = m.instruction := rfl
  unfold execute
  rw [pending]
  cases m.instruction with
  | none => rfl
  | some instruction =>
    cases instruction with
    | rawNormal | rawShort => rfl
    | normal insn => exact checkNormal_withBank (m := { m with pc := m.pc + 4 }) user bank insn m.pc (m.pc + 4)
    | short insn => exact checkShort_withBank (m := { m with pc := m.pc + 2 }) user bank insn m.pc (m.pc + 2)

theorem commitPending_withBank : (m.withBank bank).commitPending = m.commitPending.withBank bank := by
  unfold commitPending
  dsimp only
  rw [execute_withBank user]
  have latched : (m.execute.withBank bank).busError = m.execute.busError := rfl
  rw [latched]
  split_ifs
  · exact @enterException_withBank { m.execute with busError := false } bank (.denied .busError) m.pc
  · rfl

theorem commitScalar_withBank : (m.withBank bank).commitScalar = m.commitScalar.withBank bank := by
  unfold commitScalar
  dsimp only
  rw [commitPending_withBank user]
  rfl

theorem commitCached_withBank : (m.withBank bank).commitCached = m.commitCached.withBank bank := by
  unfold commitCached
  dsimp only
  rw [commitPending_withBank user]
  have running : (m.commitPending.withBank bank).running = m.commitPending.running := rfl
  rw [running]
  split_ifs
  · exact @acceptPendingIrq_withBank { m.commitPending with instruction := none, state := .fetch } bank
  · rfl

theorem fetch_withBank (decoded : Bool) : (m.withBank bank).fetch decoded = (m.fetch decoded).withBank bank ∧
    (m.withBank bank).fetched decoded = m.fetched decoded := by
  rw [withBank_user user, withBank_user (m := m.fetch decoded) user]
  exact ⟨rfl, rfl⟩

theorem fetchAllowed_withBank : (m.withBank bank).fetchAllowed = (m.fetchAllowed.1, m.fetchAllowed.2.withBank bank) :=
  accessAllowed_withBank user bank _ _ _ _

theorem phaseScalar_withBank (phase : CpuState) :
    (m.withBank bank).phaseScalar phase = (m.phaseScalar phase).withBank bank := by
  cases phase with
  | fetch =>
    unfold phaseScalar
    dsimp only
    rw [fetchAllowed_withBank user]
    dsimp only
    by_cases allowed : m.fetchAllowed.1 = true
    · have still : m.fetchAllowed.2.sys.user = true := accessAllowed_user user allowed
      rw [if_pos allowed, if_pos allowed, (fetch_withBank still bank false).1]
      rfl
    · rw [if_neg allowed, if_neg allowed]
  | decode =>
    have pending : (m.withBank bank).instruction = m.instruction := rfl
    unfold phaseScalar decodePhase
    dsimp only
    rw [pending]
    split <;> rfl
  | execute | memRead | memWrite => exact commitScalar_withBank user bank
  | mul | div =>
    have counted := commitScalar_withBank (m := { m with cyclesLeft := m.cyclesLeft - 1 }) user bank
    have left : (m.withBank bank).cyclesLeft = m.cyclesLeft := rfl
    unfold phaseScalar
    dsimp only
    rw [left]
    split_ifs
    · exact counted
    · rfl
  | writeback =>
    have accepted := @acceptPendingIrq_withBank { m with instruction := none } bank
    exact congrArg (fun m : Machine => { m with state := .fetch }) accepted
  | halt => rfl

theorem issueCached_withBank (instruction : PendingInstruction) :
    (m.withBank bank).issueCached instruction = (m.issueCached instruction).withBank bank := by
  unfold issueCached
  split_ifs
  · rfl
  · rfl
  · exact commitCached_withBank user bank

theorem phaseCached_withBank (phase : CpuState) :
    (m.withBank bank).phaseCached phase = (m.phaseCached phase).withBank bank := by
  cases phase with
  | fetch =>
    unfold phaseCached
    dsimp only
    rw [fetchAllowed_withBank user]
    dsimp only
    by_cases allowed : m.fetchAllowed.1 = true
    · have still : m.fetchAllowed.2.sys.user = true := accessAllowed_user user allowed
      obtain ⟨fetches, same⟩ := fetch_withBank still bank true
      rw [if_pos allowed, if_pos allowed, fetches, same]
      exact issueCached_withBank (m := m.fetchAllowed.2.fetch true) still bank _
    · rw [if_neg allowed, if_neg allowed]
  | mul | div =>
    have counted := commitCached_withBank (m := { m with cyclesLeft := m.cyclesLeft - 1 }) user bank
    have left : (m.withBank bank).cyclesLeft = m.cyclesLeft := rfl
    unfold phaseCached
    dsimp only
    rw [left]
    split_ifs
    · exact counted
    · rfl
  | decode | execute | memRead | memWrite | writeback | halt => rfl

theorem phase_withBank (cached : Bool) : (m.withBank bank).phase cached = (m.phase cached).withBank bank := by
  unfold phase
  split_ifs
  · exact phaseCached_withBank user bank m.state
  · exact phaseScalar_withBank user bank m.state

end User

/-! ## Handlers -/

/-- A handler that leaves EPC, STATUS and the user bank as the trap entry left them
resumes what was interrupted.  In S mode the live R28..R30 are its own. -/
structure Resumed (x : Machine) (epc : Word) (left resumed : Machine) : Prop where
  mode : resumed.sys.user = x.sys.user
  instrMode : resumed.instrMode = x.instrMode
  pc : resumed.pc = epc
  enable : resumed.sys.ie = x.sys.ie
  userBank : resumed.sys.userBank resumed.reg = x.sys.userBank x.reg
  supervisor : x.sys.user = false -> resumed.reg = left.reg

/-- What a trap entry saves. -/
structure Saved (x : Machine) (epc : Word) (s : SystemState) : Prop where
  epc : s.epc = epc
  pie : s.pie = x.sys.ie
  user : s.user = false
  pu : s.pu = x.sys.user
  psm : s.psm = x.instrMode
  bank : s.otherBank = x.sys.userBank x.reg

theorem enterTrap_saved (x : Machine) (s : SystemState) (enable : s.ie = x.sys.ie) (mode : s.user = x.sys.user)
    (bank : s.otherBank = x.sys.otherBank) (epc cause : Word) : Saved x epc (s.enterTrap x.reg epc cause x.instrMode).1 := by
  cases user : s.user with
  | true =>
    rw [enterTrap_user user]
    refine ⟨rfl, enable, rfl, user.symm.trans mode, rfl, ?_⟩
    unfold SystemState.userBank
    rw [if_pos (mode.symm.trans user)]
  | false =>
    rw [enterTrap_supervisor user]
    refine ⟨rfl, enable, user, user.symm.trans mode, rfl, ?_⟩
    unfold SystemState.userBank
    rw [← mode, user, if_neg Bool.false_ne_true]
    exact bank

theorem TrapEntry.saved (entry : TrapEntry origin x epc next) :
    Saved x epc next.sys := by
  cases entry with
  | irq accepts =>
    unfold acceptPendingIrq
    rw [if_pos accepts]
    exact enterTrap_saved x x.sys rfl rfl rfl _ _
  | exception exception => exact enterTrap_saved x (x.sys.recordFault exception.faultAddr) rfl rfl rfl _ _
  | syscall imm => exact enterTrap_saved x (x.sys.recordFault none) rfl rfl rfl _ _

theorem status_injective {t : SystemState} (same : s.status = t.status) :
    s.pie = t.pie ∧ s.user = t.user ∧ s.pu = t.pu ∧ s.psm = t.psm := by
  obtain ⟨_, pie, user, pu, psm⟩ := status_bits s
  obtain ⟨_, pie', user', pu', psm'⟩ := status_bits t
  rw [same] at pie user pu psm
  refine ⟨?_, ?_, ?_, ?_⟩
  · exact Bool.eq_iff_iff.mpr (pie.symm.trans pie')
  · exact Bool.eq_iff_iff.mpr (user.symm.trans user')
  · exact Bool.eq_iff_iff.mpr (pu.symm.trans pu')
  · have short := psm.symm.trans psm'
    cases mine : s.psm with
    | short => exact (short.mp mine).symm
    | normal =>
      cases theirs : t.psm with
      | normal => rfl
      | short => exact absurd (mine.symm.trans (short.mpr theirs)) InstructionMode.noConfusion

theorem leaveTrap_returning {reg : Registers} (supervisor : s.user = false) (saved : s.pu = true) :
    s.leaveTrap reg = ({ s with ie := s.pie, user := true,
                                otherBank := Vector.ofFn fun index : Fin 3 => getElem reg (28 + index.val) (banked index) },
      setBank reg s.otherBank, s.epc, s.psm) := by
  unfold SystemState.leaveTrap
  dsimp only
  rw [if_pos]
  · rfl
  · rw [supervisor, saved]
    rfl

theorem leaveTrap_staying {reg : Registers} (saved : s.pu = false) :
    s.leaveTrap reg = ({ s with ie := s.pie }, reg, s.epc, s.psm) := by
  unfold SystemState.leaveTrap
  dsimp only
  rw [if_neg]
  rw [saved]
  exact Bool.false_ne_true

theorem resumes {entered : Machine} (entry : TrapEntry origin x epc entered) {left : Machine}
    (kept : left.sys.epc = entered.sys.epc) (status : left.sys.status = entered.sys.status)
    (bank : left.sys.userBank left.reg = entered.sys.userBank entered.reg) :
    Resumed x epc left (left.executeNormal .iret) := by
  have saved := entry.saved
  obtain ⟨pie, user, pu, psm⟩ := status_injective status
  have supervisor : left.sys.user = false := user.trans saved.user
  have other : left.sys.otherBank = x.sys.userBank x.reg := by
    unfold SystemState.userBank at bank
    rw [supervisor, saved.user, if_neg Bool.false_ne_true, if_neg Bool.false_ne_true] at bank
    exact bank.trans saved.bank
  have runs : left.executeNormal .iret = { left with
      sys := (left.sys.leaveTrap left.reg).1
      reg := (left.sys.leaveTrap left.reg).2.1
      pc := (left.sys.leaveTrap left.reg).2.2.1
      instrMode := (left.sys.leaveTrap left.reg).2.2.2 } := by
    unfold executeNormal checkNormal
    rw [if_neg]
    · rfl
    · rw [supervisor]
      exact Bool.false_ne_true
  rw [runs]
  cases mode : x.sys.user with
  | true =>
    rw [leaveTrap_returning supervisor (pu.trans (saved.pu.trans mode))]
    refine ⟨mode.symm, psm.trans saved.psm, kept.trans saved.epc, pie.trans saved.pie, ?_, fun wrong => ?_⟩
    · exact (bank_setBank left.reg left.sys.otherBank).trans other
    · exact absurd (mode.symm.trans wrong) Bool.noConfusion
  | false =>
    rw [leaveTrap_staying (pu.trans (saved.pu.trans mode))]
    refine ⟨supervisor.trans mode.symm, psm.trans saved.psm, kept.trans saved.epc, pie.trans saved.pie, ?_, fun _ => rfl⟩
    refine Eq.trans ?_ other
    exact if_neg (supervisor ▸ Bool.false_ne_true)

/-! ## Runs -/

/-- The register block shows the CPU, and a CPU in U mode runs. -/
structure Coherent (m : Machine) : Prop where
  block : m.block = m.syncRegisterBlock.block
  zero : r0 m.reg = 0
  running : m.sys.user = true -> m.running = true

/-- The IRQ inputs and the devices leave the CPU alone. -/
structure SameCpu (m next : Machine) : Prop where
  reg : next.reg = m.reg
  pc : next.pc = m.pc
  running : next.running = m.running
  instrMode : next.instrMode = m.instrMode
  sys : next.sys = m.sys
  block : next.block = m.block

theorem SameCpu.coherent (same : SameCpu m next) (coherent : Coherent m) : Coherent next := by
  refine ⟨?_, ?_, ?_⟩
  · rw [same.block, coherent.block]
    unfold syncRegisterBlock
    dsimp only
    rw [same.reg, same.pc, same.sys, same.instrMode]
  · rw [same.reg]
    exact coherent.zero
  · rw [same.sys, same.running]
    exact coherent.running

theorem refreshIrqInput_same (m : Machine) : SameCpu m m.refreshIrqInput := by
  unfold refreshIrqInput
  dsimp only
  split_ifs <;> exact ⟨rfl, rfl, rfl, rfl, rfl, rfl⟩

theorem refreshIrqInput_withBank (bank : Vector Word 3) :
    (m.withBank bank).refreshIrqInput = m.refreshIrqInput.withBank bank := by
  have same : (((m.withBank bank).externalIrqLine || (m.withBank bank).irqcLine) && !(m.withBank bank).irqLine) =
      ((m.externalIrqLine || m.irqcLine) && !m.irqLine) := rfl
  unfold refreshIrqInput
  dsimp only
  by_cases edge : ((m.externalIrqLine || m.irqcLine) && !m.irqLine) = true
  · rw [if_pos edge, if_pos (same.trans edge)]
    rfl
  · rw [if_neg edge, if_neg (same ▸ edge)]
    rfl

theorem setIrqInput_same (m : Machine) (level : Bool) (number : BitVec 4) : SameCpu m (m.setIrqInput level number) := by
  have refreshed := refreshIrqInput_same { m with externalIrqLine := level, externalIrqNumber := number }
  exact ⟨refreshed.reg, refreshed.pc, refreshed.running, refreshed.instrMode, refreshed.sys, refreshed.block⟩

theorem pollDevices_same (m : Machine) (around : Surroundings) : SameCpu m (m.pollDevices around) := by
  have refreshed := refreshIrqInput_same { m with
    bus := around.devices m.bus, irqcLine := around.irqcLine, irqcNumber := around.irqcNumber }
  exact ⟨refreshed.reg, refreshed.pc, refreshed.running, refreshed.instrMode, refreshed.sys, refreshed.block⟩

/-- A register block that shows the CPU brings nothing in. -/
theorem beginTick_coherent (coherent : Coherent m) (around : Surroundings) : m.beginTick around = m.pollDevices around := by
  have polled := (pollDevices_same m around).coherent coherent
  unfold beginTick
  dsimp only
  split_ifs
  · exact syncFrom_of_shown polled.block polled.zero
  · rfl

/-- A tick of a CPU that runs, of one that an interrupt wakes, and of one that
stays halted. -/
theorem tick_cases (coherent : Coherent m) (cached : Bool) (around : Surroundings) :
    (m.running = true ∧ m.tick cached around = ((m.pollDevices around).phase cached).syncRegisterBlock) ∨
      (m.running = false ∧ ∃ halted, SameCpu m halted ∧ halted.accepts = true ∧
        m.tick cached around = (halted.acceptPendingIrq.phase cached).syncRegisterBlock) ∨
      (m.running = false ∧ SameCpu m (m.tick cached around)) := by
  have polled := pollDevices_same m around
  have halted : SameCpu m { m.pollDevices around with state := .halt } :=
    ⟨polled.reg, polled.pc, polled.running, polled.instrMode, polled.sys, polled.block⟩
  unfold tick
  rw [beginTick_coherent coherent]
  dsimp only
  by_cases running : (m.pollDevices around).running = true
  · rw [if_pos running]
    exact Or.inl ⟨polled.running.symm.trans running, rfl⟩
  · rw [if_neg running]
    rw [polled.running, Bool.not_eq_true] at running
    by_cases accepts : accepts { m.pollDevices around with state := .halt } = true
    · rw [if_pos accepts]
      exact Or.inr (Or.inl ⟨running, _, halted, accepts, rfl⟩)
    · rw [if_neg accepts]
      exact Or.inr (Or.inr ⟨running, halted⟩)

theorem Coherent.tick (coherent : Coherent m) (cached : Bool) (around : Surroundings) : Coherent (m.tick cached around) := by
  rcases tick_cases coherent cached around with ⟨running, ticked⟩ | ⟨_, halted, same, accepts, ticked⟩ | ⟨_, same⟩
  · have polled := pollDevices_same m around
    have lawful := phase_lawful (m.pollDevices around) cached
    rw [ticked]
    refine ⟨rfl, ?_, fun user => ?_⟩
    · exact lawful.zero.trans (polled.coherent coherent).zero
    · exact (lawful.running user).trans (polled.running.trans running)
  · have entry : TrapEntry halted.pc halted halted.pc halted.acceptPendingIrq := .irq accepts
    have lawful := phase_lawful halted.acceptPendingIrq cached
    have woken : halted.acceptPendingIrq.running = true := by
      unfold acceptPendingIrq
      rw [if_pos accepts]
    rw [ticked]
    refine ⟨rfl, ?_, fun user => ?_⟩
    · exact lawful.zero.trans (entry.zero.trans (same.coherent coherent).zero)
    · exact (lawful.running user).trans woken
  · exact same.coherent coherent

theorem isolated_of_reachable {cached : Bool} (reached : (interpreter cached).Reachable m) : Coherent m := by
  refine reached.invariant (motive := Coherent) ?_ ?_
  · rintro start ⟨bus, pc, rfl⟩
    refine ⟨?_, rfl, fun user => ?_⟩
    · unfold syncRegisterBlock
      have zero : (reset bus pc).reg.set 0 0 = (reset bus pc).reg := set_zero rfl
      rw [zero]
      rfl
    · cases user
  · rintro first event second coherent rfl
    cases event with
    | tick around => exact coherent.tick cached around
    | irqInput level number => exact (setIrqInput_same first level number).coherent coherent

/-- The discipline of traps in one state. -/
structure Disciplined (cached : Bool) (m : Machine) : Prop where
  /-- A user program moves data or is trapped. -/
  guarded : m.sys.user = true -> ∀ around, Guarded m (m.tick cached around)
  /-- What it does is the same whatever the supervisor copies are. -/
  hidden : m.sys.user = true -> ∀ around bank,
    (m.withBank bank).tick cached around = ((m.tick cached around).withBank bank).syncRegisterBlock
  /-- Only IRET enters U mode, and only where PU is set. -/
  entered : m.sys.user = false -> ∀ around, (m.tick cached around).sys.user = true -> ∃ x : Machine, Kept m.sys x.sys ∧
    x.instruction = some (.normal .iret) ∧ x.sys.pu = true ∧ (m.tick cached around).sys = x.execute.sys
  /-- A handler that keeps what the trap entry saved resumes what was interrupted. -/
  resumes : ∀ {origin epc : Word} {x entered left : Machine}, TrapEntry origin x epc entered ->
    left.sys.epc = entered.sys.epc -> left.sys.status = entered.sys.status ->
    left.sys.userBank left.reg = entered.sys.userBank entered.reg -> Resumed x epc left (left.executeNormal .iret)

theorem disciplined_of_reachable {cached : Bool} (reached : (interpreter cached).Reachable m) : Disciplined cached m := by
  have coherent := isolated_of_reachable reached
  refine ⟨fun user around => ?_, fun user around bank => ?_, fun supervisor around user => ?_, fun entry => resumes entry⟩
  · have polled := pollDevices_same m around
    rcases tick_cases coherent cached around with ⟨_, ticked⟩ | ⟨halted, _⟩ | ⟨halted, _⟩
    · have guarded : Guarded (m.pollDevices around) ((m.pollDevices around).phase cached) :=
        phase_guarded (polled.sys ▸ user) cached
      have synced : Guarded (m.pollDevices around) ((m.pollDevices around).phase cached).syncRegisterBlock :=
        guarded.aside rfl rfl rfl rfl
      rw [ticked]
      exact synced.after_kept (.of_eq polled.sys) polled.pc
    · exact absurd (halted.symm.trans (coherent.running user)) Bool.noConfusion
    · exact absurd (halted.symm.trans (coherent.running user)) Bool.noConfusion
  · have polled := pollDevices_same m around
    have hidden : Coherent (m.withBank bank) := by
      rw [withBank_user user]
      exact ⟨coherent.block, coherent.zero, coherent.running⟩
    have polls : (m.withBank bank).pollDevices around = (m.pollDevices around).withBank bank :=
      @refreshIrqInput_withBank { m with
        bus := around.devices m.bus, irqcLine := around.irqcLine, irqcNumber := around.irqcNumber } bank
    rcases tick_cases coherent cached around with ⟨running, ticked⟩ | ⟨halted, _⟩ | ⟨halted, _⟩
    · rcases tick_cases hidden cached around with ⟨_, other⟩ | ⟨halted, _⟩ | ⟨halted, _⟩
      · rw [ticked, other, polls, phase_withBank (polled.sys ▸ user)]
        rfl
      · exact absurd (halted.symm.trans running) Bool.noConfusion
      · exact absurd (halted.symm.trans running) Bool.noConfusion
    · exact absurd (halted.symm.trans (coherent.running user)) Bool.noConfusion
    · exact absurd (halted.symm.trans (coherent.running user)) Bool.noConfusion
  · rcases tick_cases coherent cached around with ⟨_, ticked⟩ | ⟨_, halted, same, accepts, ticked⟩ | ⟨_, same⟩
    · have polled := pollDevices_same m around
      rw [ticked] at user ⊢
      obtain ⟨at_, kept, iret, pu, left⟩ := (phase_lawful (m.pollDevices around) cached).entered (polled.sys ▸ supervisor) user
      exact ⟨at_, polled.sys ▸ kept, iret, pu, left⟩
    · -- the interrupt came from S mode, so PU is clear
      have entry : TrapEntry halted.pc halted halted.pc halted.acceptPendingIrq := .irq accepts
      rw [ticked] at user
      obtain ⟨at_, kept, _, pu, _⟩ := (phase_lawful halted.acceptPendingIrq cached).entered entry.user user
      have clear : at_.sys.pu = false := by
        rw [kept.same]
        exact entry.saved.pu.trans ((congrArg SystemState.user same.sys).trans supervisor)
      exact absurd (clear.symm.trans pu) Bool.noConfusion
    · rw [same.sys, supervisor] at user
      cases user

/-! ## Two programs -/

/-- The words of a program from address 0 on. -/
def programBus (words : List Word) : Bus where
  byte := fun addr =>
    (words.getD (addr.toNat / 4) 0 >>> (8 * (3 - addr.toNat % 4))).setWidth 8
  fault := fun _ => false

/-- ADDI R1, R0, 8; MTSR STATUS, R1; IRET. -/
def startUser : Machine := reset (programBus [0x10200008, 0x94010000, 0x80000000]) 0

/-- Nothing happens around the CPU. -/
def quiet : Surroundings := ⟨id, false, 0⟩

theorem user_disciplined : ∃ m, m.sys.user = true ∧ Disciplined true m := by
  have start : (interpreter true).Reachable startUser := .start ⟨_, _, rfl⟩
  have ticks : ∀ m, (interpreter true).Reachable m -> (interpreter true).Reachable (m.tick true quiet) := fun m reached =>
    have step : (interpreter true).step m (.tick quiet) (m.tick true quiet) := rfl
    reached.next step
  refine ⟨((startUser.tick true quiet).tick true quiet).tick true quiet, ?_, ?_⟩
  · decide +kernel
  · exact disciplined_of_reachable (ticks _ (ticks _ (ticks _ start)))

/-- A handler in S mode, entered from S mode, works with the live R28..R30: here
ADDI R28, R0, 1 is still seen behind IRET. -/
theorem supervisor_registers_shared : ¬ ∀ (x entered : Machine) (origin epc : Word) (handler : List Instruction),
    TrapEntry origin x epc entered -> (handler.foldl executeNormal entered).sys.epc = entered.sys.epc ->
    (handler.foldl executeNormal entered).sys.status = entered.sys.status ->
    (handler.foldl executeNormal entered).sys.userBank (handler.foldl executeNormal entered).reg =
      entered.sys.userBank entered.reg ->
    ∀ index : Fin 3, ((handler.foldl executeNormal entered).executeNormal .iret).reg.get ⟨28 + index.val, banked index⟩ =
      x.reg.get ⟨28 + index.val, banked index⟩ := by
  intro restored
  have entry : TrapEntry 0 startUser (0 + 4) (startUser.enterException (.syscall 0) (0 + 4)) := .syscall 0
  have same := restored _ _ _ _ [.addi 28 0 1] entry (by decide +kernel) (by decide +kernel) (by decide +kernel) ⟨0, by decide⟩
  have differs : ((List.foldl executeNormal (startUser.enterException (.syscall 0) (0 + 4)) [.addi 28 0 1]).executeNormal
      .iret).reg.get ⟨28, usp_inside⟩ ≠ startUser.reg.get ⟨28, usp_inside⟩ := by decide +kernel
  exact differs same

end Machine
end Src32.Cpu
