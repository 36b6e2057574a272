import Src32.Cpu.TrapDiscipline

namespace Src32.Cpu

open BitVec (ofNat toNat_add)

/-!
# Kernel code

What the supervisor's own code does: it runs untranslated in the Normal mode,
so an instruction reads and writes registers, words of memory and system
registers and nothing else.  `effect` says what each of the instructions that
hand-written kernel assembly is made of does to those, and the machine follows
it.
-/

/-- Registers, words and system registers of a machine in supervisor mode. -/
structure Supervisor where
  reg : Nat -> Word
  word : Word -> Word
  sys : SystemState

/-- A word of RAM: aligned and below the words of the CPU. -/
def Usable (a : Word) : Prop := a.toNat % 4 = 0 ∧ a.toNat < 0xFFFF0000

instance (a : Word) : Decidable (Usable a) := inferInstanceAs (Decidable (_ ∧ _))

/-- The register file as far as `MFSR` and `MTSR` need it, which in supervisor
mode is not at all. -/
def noRegisters : Registers := Vector.replicate 32 0

namespace Supervisor

/-- R0 stays zero. -/
def set (s : Supervisor) (i : Nat) (value : Word) : Supervisor :=
  if i = 0 then s else { s with reg := Function.update s.reg i value }

def put (s : Supervisor) (a value : Word) : Supervisor := { s with word := Function.update s.word a value }

def withSys (s : Supervisor) (sys : SystemState) : Supervisor := { s with sys := sys }

section Fields

variable (s : Supervisor)

@[simp]
theorem set_reg (i : Nat) (value : Word) (j : Nat) :
    (s.set i value).reg j = if i ≠ 0 ∧ j = i then value else s.reg j := by
  unfold set
  by_cases zero : i = 0
  · rw [if_pos zero, if_neg fun h => h.1 zero]
  · rw [if_neg zero]
    by_cases here : j = i
    · rw [if_pos ⟨zero, here⟩, here]
      exact Function.update_self ..
    · rw [if_neg fun h => here h.2]
      exact Function.update_of_ne here ..

@[simp]
theorem set_word (i : Nat) (value : Word) : (s.set i value).word = s.word := by
  unfold set
  split_ifs
  · rfl
  · rfl

@[simp]
theorem set_sys (i : Nat) (value : Word) : (s.set i value).sys = s.sys := by
  unfold set
  split_ifs
  · rfl
  · rfl

@[simp]
theorem put_reg (a value : Word) : (s.put a value).reg = s.reg := rfl

@[simp]
theorem put_word (a value b : Word) : (s.put a value).word b = if b = a then value else s.word b := by
  unfold put
  exact Function.update_apply ..

@[simp]
theorem put_sys (a value : Word) : (s.put a value).sys = s.sys := rfl

@[simp]
theorem withSys_reg (sys : SystemState) : (s.withSys sys).reg = s.reg := rfl

@[simp]
theorem withSys_word (sys : SystemState) : (s.withSys sys).word = s.word := rfl

@[simp]
theorem withSys_sys (sys : SystemState) : (s.withSys sys).sys = sys := rfl

end Fields

/-- What an instruction that goes on to the next one does, with interrupts disabled
before it and behind it. -/
def effect (s : Supervisor) : Instruction -> Option Supervisor
  | .ld rd base offset =>
    if Usable (Machine.addSigned (s.reg base.toNat) offset) then
      some (s.set rd.toNat (s.word (Machine.addSigned (s.reg base.toNat) offset)))
    else none
  | .st rd base offset =>
    if Usable (Machine.addSigned (s.reg base.toNat) offset) then
      some (s.put (Machine.addSigned (s.reg base.toNat) offset) (s.reg rd.toNat))
    else none
  | .addi rd rs1 imm => some (s.set rd.toNat (s.reg rs1.toNat + imm.signExtend 32))
  | .add rd rs1 rs2 => some (s.set rd.toNat (s.reg rs1.toNat + s.reg rs2.toNat))
  | .and rd rs1 rs2 => some (s.set rd.toNat (s.reg rs1.toNat &&& s.reg rs2.toNat))
  | .ldil rd imm => some (s.set rd.toNat (s.reg rd.toNat &&& (0xFFFF0000 : Word) ||| imm.setWidth 32))
  | .ldih rd imm => some (s.set rd.toNat (s.reg rd.toNat &&& (0x0000FFFF : Word) ||| imm.setWidth 32 <<< 16))
  | .mfsr rd sr => (s.sys.readSr sr.toNat noRegisters).map fun value => s.set rd.toNat value
  | .mtsr rs sr =>
    (s.sys.writeSr sr.toNat (s.reg rs.toNat) noRegisters).bind fun written =>
      if written.1.ie then none else some (s.withSys written.1)
  | _ => none

/-- What a list of them does. -/
def effects (s : Supervisor) : List Instruction -> Option Supervisor
  | [] => some s
  | insn :: rest => (s.effect insn).bind fun t => t.effects rest

theorem effects_append (s : Supervisor) (first second : List Instruction) :
    s.effects (first ++ second) = (s.effects first).bind fun t => t.effects second := by
  induction first generalizing s with
  | nil => rfl
  | cons insn rest ih =>
    change (s.effect insn).bind (fun t => t.effects (rest ++ second)) =
      ((s.effect insn).bind fun t => t.effects rest).bind _
    rw [Option.bind_assoc]
    congr 1
    funext t
    exact ih t

end Supervisor

/-- The machine is at `pc` in supervisor and Normal mode with interrupts disabled,
and `s` is what its code sees. -/
structure Shows (m : Machine) (pc : Word) (s : Supervisor) : Prop where
  reg : ∀ i, m.readReg i = s.reg i
  word : ∀ a, Usable a -> m.bus.readU32Be a = s.word a
  sys : m.sys = s.sys
  pc : m.pc = pc
  supervisor : m.sys.user = false
  masked : m.sys.ie = false
  normal : m.instrMode = .normal

/-! ## Memory -/

theorem readU32Be_congr {bus other : Bus} {a : Word}
    (same : ∀ k < 4, bus.byte (a + ofNat 32 k) = other.byte (a + ofNat 32 k)) :
    bus.readU32Be a = other.readU32Be a := by
  have zero : bus.byte a = other.byte a := by
    have base := same 0 (by decide)
    rwa [show a + ofNat 32 0 = a from BitVec.add_zero a] at base
  have one : bus.byte (a + 1) = other.byte (a + 1) := same 1 (by decide)
  have two : bus.byte (a + 2) = other.byte (a + 2) := same 2 (by decide)
  have three : bus.byte (a + 3) = other.byte (a + 3) := same 3 (by decide)
  unfold Bus.readU32Be
  rw [zero, one, two, three]

theorem writeU32Be_byte (bus : Bus) (a value b : Word) : (bus.writeU32Be a value).byte b =
    if b = a + 3 then value.setWidth 8 else if b = a + 2 then (value >>> 8).setWidth 8
    else if b = a + 1 then (value >>> 16).setWidth 8 else if b = a then (value >>> 24).setWidth 8 else bus.byte b := rfl

theorem read_write_same (bus : Bus) (a value : Word) : (bus.writeU32Be a value).readU32Be a = value := by
  have first : (bus.writeU32Be a value).byte a = (value >>> 24).setWidth 8 := by
    rw [writeU32Be_byte, if_neg (by bv_omega), if_neg (by bv_omega), if_neg (by bv_omega), if_pos rfl]
  have second : (bus.writeU32Be a value).byte (a + 1) = (value >>> 16).setWidth 8 := by
    rw [writeU32Be_byte, if_neg (by bv_omega), if_neg (by bv_omega), if_pos rfl]
  have third : (bus.writeU32Be a value).byte (a + 2) = (value >>> 8).setWidth 8 := by
    rw [writeU32Be_byte, if_neg (by bv_omega), if_pos rfl]
  have last : (bus.writeU32Be a value).byte (a + 3) = value.setWidth 8 := by
    rw [writeU32Be_byte, if_pos rfl]
  unfold Bus.readU32Be
  rw [first, second, third, last, Word.ofBytes_bytes]

theorem read_write_apart (bus : Bus) {a b : Word} (value : Word) (first : Usable a) (second : Usable b) (apart : b ≠ a) :
    (bus.writeU32Be a value).readU32Be b = bus.readU32Be b := by
  obtain ⟨alignedA, lowA⟩ := first
  obtain ⟨alignedB, lowB⟩ := second
  have different : b.toNat ≠ a.toNat := fun same => apart (BitVec.eq_of_toNat_eq same)
  refine readU32Be_congr fun k small => ?_
  have place : (b + ofNat 32 k).toNat = b.toNat + k := by
    rw [toNat_add, BitVec.toNat_ofNat]
    omega
  have away : ∀ j < 4, b + ofNat 32 k ≠ a + ofNat 32 j := by
    intro j inside same
    have numbers := congrArg BitVec.toNat same
    rw [place, toNat_add, BitVec.toNat_ofNat] at numbers
    omega
  have base := away 0 (by decide)
  rw [show a + ofNat 32 0 = a from BitVec.add_zero a] at base
  have one : b + ofNat 32 k ≠ a + 1 := away 1 (by decide)
  have two : b + ofNat 32 k ≠ a + 2 := away 2 (by decide)
  have three : b + ofNat 32 k ≠ a + 3 := away 3 (by decide)
  rw [writeU32Be_byte, if_neg three, if_neg two, if_neg one, if_neg base]

/-- The register block lies above the usable words. -/
theorem memory_usable (m : Machine) {a : Word} (usable : Usable a) : m.memory.readU32Be a = m.bus.readU32Be a := by
  obtain ⟨aligned, low⟩ := usable
  refine readU32Be_congr fun k small => ?_
  have outside : ¬ (cpuRegBase ≤ a + ofNat 32 k ∧ a + ofNat 32 k < cpuRegBase + 0x94) := by
    rintro ⟨above, _⟩
    have reached : (0xFFFF0200 : Nat) ≤ (a + ofNat 32 k).toNat := above
    rw [toNat_add, BitVec.toNat_ofNat] at reached
    omega
  unfold Machine.memory
  exact if_neg outside

/-! ## The machine in supervisor mode -/

section Machine

variable {m : Machine} {pc : Word} {s t : Supervisor}

theorem translating_supervisor {s : SystemState} (supervisor : s.user = false) : s.translating = false := by
  unfold SystemState.translating
  rw [supervisor, Bool.false_and]

theorem accessAllowed_supervisor (supervisor : m.sys.user = false) (addr : Word) (len : Nat) (access : Access)
    (origin : Word) : m.accessAllowed addr len access origin = (true, m) := by
  have allowed : m.sys.allows addr len access = true := by
    unfold SystemState.allows
    rw [supervisor, Bool.not_false, Bool.true_or]
  unfold Machine.accessAllowed SystemState.checkAccess
  rw [translating_supervisor supervisor, allowed]
  rfl

theorem executeNormal_supervisor (supervisor : m.sys.user = false) (insn : Instruction) :
    m.executeNormal insn = { m with pc := m.pc + 4 }.perform insn m.pc (m.pc + 4) := by
  unfold Machine.executeNormal Machine.checkNormal
  dsimp only
  rw [supervisor, Bool.false_and, if_neg Bool.false_ne_true]
  cases Machine.dataAccess insn with
  | none => rfl
  | some access =>
    have allowed := accessAllowed_supervisor (m := { m with pc := m.pc + 4 }) supervisor
      (Machine.addSigned (({ m with pc := m.pc + 4 } : Machine).readReg access.1.toNat) access.2.1) access.2.2.1
      access.2.2.2 m.pc
    dsimp only
    rw [allowed]
    rfl

theorem readReg_setGpr (m : Machine) {i : Nat} (inside : i < 32) (value : Word) (j : Nat) :
    (m.setGpr i value).readReg j = if i = 0 then m.readReg j else Function.update m.readReg i value j := by
  unfold Machine.setGpr
  rw [dif_pos inside]
  split_ifs with zero
  · rfl
  · unfold Machine.readReg
    by_cases here : j = i
    · subst here
      rw [Function.update_self, if_neg zero, Vector.getElem?_set_self inside]
      rfl
    · rw [Function.update_of_ne here, Vector.getElem?_set_ne inside (Ne.symm here)]

theorem field_inside (field : BitVec 5) : field.toNat < 32 := field.isLt

/-- A register is written. -/
theorem Shows.set {next : Word} (shows_ : Shows m pc s) (at_ : m.pc = next) (field : BitVec 5) (value : Word) :
    Shows (m.setGpr field.toNat value) next (s.set field.toNat value) := by
  have inside := field_inside field
  have regs : m.readReg = s.reg := funext shows_.reg
  refine ⟨fun i => ?_, ?_, ?_, ?_, ?_, ?_, ?_⟩
  · rw [readReg_setGpr _ inside, regs]
    unfold Supervisor.set
    split_ifs
    · rfl
    · rfl
  all_goals
    unfold Machine.setGpr
    rw [dif_pos inside]
    try unfold Supervisor.set
    split_ifs
  · exact shows_.word
  · exact shows_.word
  · exact shows_.sys
  · exact shows_.sys
  · exact at_
  · exact at_
  · exact shows_.supervisor
  · exact shows_.supervisor
  · exact shows_.masked
  · exact shows_.masked
  · exact shows_.normal
  · exact shows_.normal

theorem readSr_supervisor {s : SystemState} (supervisor : s.user = false) (sr : Nat) (reg other : Registers) :
    s.readSr sr reg = s.readSr sr other := by
  have bank : s.userBank reg = s.userBank other := by
    unfold SystemState.userBank
    rw [supervisor, if_neg Bool.false_ne_true, if_neg Bool.false_ne_true]
  unfold SystemState.readSr
  rw [bank]

theorem writeSr_supervisor {s : SystemState} (supervisor : s.user = false) (sr : Nat) (value : Word)
    (reg other : Registers) : s.writeSr sr value reg = (s.writeSr sr value other).map fun written => (written.1, reg) := by
  unfold SystemState.writeSr
  by_cases status : sr = srStatus
  · rw [if_pos status, if_pos status]
    rfl
  rw [if_neg status, if_neg status]
  by_cases epc : sr = srEpc
  · rw [if_pos epc, if_pos epc]
    rfl
  rw [if_neg epc, if_neg epc]
  by_cases cause : sr = srCause
  · rw [if_pos cause, if_pos cause]
    rfl
  rw [if_neg cause, if_neg cause]
  by_cases bank : srUsp ≤ sr ∧ sr ≤ srUgp
  · rw [dif_pos bank, dif_pos bank]
    dsimp only
    rw [if_neg (ne_true_of_eq_false supervisor), if_neg (ne_true_of_eq_false supervisor)]
    rfl
  rw [dif_neg bank, dif_neg bank]
  by_cases vctl : sr = srVctl
  · rw [if_pos vctl, if_pos vctl]
    rfl
  rw [if_neg vctl, if_neg vctl]
  by_cases ptbr : sr = srPtbr
  · rw [if_pos ptbr, if_pos ptbr]
    rfl
  rw [if_neg ptbr, if_neg ptbr]
  by_cases vfault : sr = srVfault
  · rw [if_pos vfault, if_pos vfault]
    rfl
  rw [if_neg vfault, if_neg vfault]
  by_cases flush : sr = srTlbflush
  · rw [if_pos flush, if_pos flush]
    rfl
  rw [if_neg flush, if_neg flush]
  by_cases inv : sr = srTlbinv
  · rw [if_pos inv, if_pos inv]
    rfl
  rw [if_neg inv, if_neg inv]
  cases SystemState.regionField sr with
  | none => rfl
  | some field => rfl

/-- The machine does what an instruction's effect says. -/
theorem Shows.perform (shows_ : Shows m pc s) {insn : Instruction} (done : s.effect insn = some t)
    (origin nextPc : Word) : Shows (m.perform insn origin nextPc) pc t := by
  have plain := translating_supervisor shows_.supervisor
  have reads : ∀ field : BitVec 5, m.readReg field.toNat = s.reg field.toNat := fun field => shows_.reg _
  cases insn with
  | ld rd base offset =>
    simp only [Supervisor.effect] at done
    split_ifs at done with usable
    cases done
    have value : m.sys.readData m.memory (Machine.addSigned (s.reg base.toNat) offset) 4 =
        s.word (Machine.addSigned (s.reg base.toNat) offset) := by
      unfold SystemState.readData SystemState.physical
      rw [plain]
      exact (memory_usable m usable).trans (shows_.word _ usable)
    change Shows (m.load rd.toNat (Machine.addSigned (m.readReg base.toNat) offset) 4) pc _
    rw [reads base]
    unfold Machine.load
    rw [value]
    generalize (m.busError || _) = busError
    have latched : Shows { m with busError := busError } pc s :=
      ⟨shows_.reg, shows_.word, shows_.sys, shows_.pc, shows_.supervisor, shows_.masked, shows_.normal⟩
    exact latched.set shows_.pc rd _
  | st rd base offset =>
    simp only [Supervisor.effect] at done
    split_ifs at done with usable
    cases done
    have written : m.sys.writeData m.bus (Machine.addSigned (s.reg base.toNat) offset) 4 (s.reg rd.toNat) =
        m.bus.writeU32Be (Machine.addSigned (s.reg base.toNat) offset) (s.reg rd.toNat) := by
      unfold SystemState.writeData SystemState.physical
      rw [plain]
      rfl
    change Shows (m.store (Machine.addSigned (m.readReg base.toNat) offset) 4 (m.readReg rd.toNat)) pc _
    rw [reads base, reads rd]
    refine ⟨shows_.reg, fun a fits => ?_, shows_.sys, shows_.pc, shows_.supervisor, shows_.masked, shows_.normal⟩
    change (m.sys.writeData m.bus (Machine.addSigned (s.reg base.toNat) offset) 4 (s.reg rd.toNat)).readU32Be a = _
    rw [written, Supervisor.put_word]
    by_cases here : a = Machine.addSigned (s.reg base.toNat) offset
    · rw [if_pos here, here, read_write_same]
    · rw [if_neg here, read_write_apart _ _ usable fits here]
      exact shows_.word a fits
  | addi rd rs1 imm =>
    cases done
    rw [← reads rs1]
    exact shows_.set shows_.pc rd _
  | add rd rs1 rs2 | and rd rs1 rs2 =>
    cases done
    rw [← reads rs1, ← reads rs2]
    exact shows_.set shows_.pc rd _
  | ldil rd imm | ldih rd imm =>
    cases done
    rw [← reads rd]
    exact shows_.set shows_.pc rd _
  | mfsr rd sr =>
    simp only [Supervisor.effect] at done
    rw [← shows_.sys, readSr_supervisor shows_.supervisor sr.toNat noRegisters m.reg] at done
    simp only [Machine.perform]
    cases value : m.sys.readSr sr.toNat m.reg with
    | none =>
      rw [value] at done
      cases done
    | some v =>
      rw [value] at done
      cases done
      exact shows_.set shows_.pc rd v
  | mtsr rs sr =>
    simp only [Supervisor.effect] at done
    have written := writeSr_supervisor shows_.supervisor sr.toNat (s.reg rs.toNat) m.reg noRegisters
    simp only [Machine.perform]
    rw [reads rs, written]
    rw [← shows_.sys] at done
    cases value : m.sys.writeSr sr.toNat (s.reg rs.toNat) noRegisters with
    | none =>
      rw [value] at done
      cases done
    | some pair =>
      rw [value] at done
      simp only [Option.bind_some] at done
      split_ifs at done with enabled
      cases done
      have kept := Machine.writeSr_kept value
      exact ⟨shows_.reg, shows_.word, rfl, shows_.pc, kept.1.trans shows_.supervisor, eq_false_of_ne_true enabled,
        shows_.normal⟩
  | _ => cases done

/-- It goes on behind the instruction. -/
theorem shows_effect (shows_ : Shows m pc s) {insn : Instruction} (done : s.effect insn = some t) :
    Shows (m.executeNormal insn) (pc + 4) t := by
  have moved : Shows { m with pc := m.pc + 4 } (pc + 4) s :=
    ⟨shows_.reg, shows_.word, shows_.sys, congrArg (· + 4) shows_.pc, shows_.supervisor, shows_.masked, shows_.normal⟩
  rw [executeNormal_supervisor shows_.supervisor]
  exact moved.perform done m.pc (m.pc + 4)

end Machine

/-! ## Runs -/

/-- The machine gets from one state to the other by executing instructions of
`code`, with interrupts disabled before each of them. -/
def Executes (code : Word -> Instruction) (m n : Machine) : Prop :=
  Relation.ReflTransGen (fun a b => a.sys.ie = false ∧ b = a.executeNormal (code a.pc)) m n

/-- The instructions lie from `pc` on. -/
def Laid (code : Word -> Instruction) (pc : Word) (list : List Instruction) : Prop :=
  ∀ i insn, list[i]? = some insn -> code (pc + ofNat 32 (4 * i)) = insn

/-- From any machine at `pc` that shows `s` the code gets to one at `next` that
shows `t`. -/
def Gets (code : Word -> Instruction) (pc : Word) (s : Supervisor) (next : Word) (t : Supervisor) : Prop :=
  ∀ m, Shows m pc s -> ∃ n, Executes code m n ∧ Shows n next t

section Runs

variable {code : Word -> Instruction} {m : Machine} {pc : Word} {s t : Supervisor}

theorem Laid.head {insn : Instruction} {rest : List Instruction} (laid : Laid code pc (insn :: rest)) :
    code pc = insn := by
  have first := laid 0 insn rfl
  rwa [show pc + ofNat 32 (4 * 0) = pc from BitVec.add_zero pc] at first

theorem Laid.right {first second : List Instruction} (laid : Laid code pc (first ++ second)) :
    Laid code (pc + ofNat 32 (4 * first.length)) second := by
  intro i insn found
  have there := laid (first.length + i) insn (by
    rw [List.getElem?_append_right (Nat.le_add_right ..), Nat.add_sub_cancel_left]
    exact found)
  rwa [Nat.mul_add, BitVec.ofNat_add, ← BitVec.add_assoc] at there

theorem Laid.left {first second : List Instruction} (laid : Laid code pc (first ++ second)) : Laid code pc first := by
  intro i insn found
  refine laid i insn ?_
  rw [List.getElem?_append_left (List.getElem?_eq_some_iff.mp found).1]
  exact found

theorem Gets.trans {middle next : Word} {u : Supervisor} (first : Gets code pc s middle u) (second : Gets code middle u next t) :
    Gets code pc s next t := by
  intro m shows_
  obtain ⟨x, reached, there⟩ := first m shows_
  obtain ⟨n, further, end_⟩ := second x there
  exact ⟨n, Relation.ReflTransGen.trans reached further, end_⟩

/-- One instruction. -/
theorem Gets.step {insn : Instruction} {next : Word} (here : code pc = insn)
    (stepped : ∀ m, Shows m pc s -> Shows (m.executeNormal insn) next t) : Gets code pc s next t := by
  intro m shows_
  refine ⟨m.executeNormal insn, .single ⟨shows_.masked, ?_⟩, stepped m shows_⟩
  rw [shows_.pc, here]

/-- The code runs through a list of instructions. -/
theorem Gets.effects {list : List Instruction} (laid : Laid code pc list) (done : s.effects list = some t) :
    Gets code pc s (pc + ofNat 32 (4 * list.length)) t := by
  induction list generalizing pc s with
  | nil =>
    cases done
    intro m shows_
    refine ⟨m, .refl, ?_⟩
    rwa [show pc + ofNat 32 (4 * ([] : List Instruction).length) = pc from BitVec.add_zero pc]
  | cons insn rest ih =>
    change (s.effect insn).bind _ = some t at done
    cases first : s.effect insn with
    | none =>
      rw [first] at done
      cases done
    | some u =>
      rw [first] at done
      have behind : Laid code (pc + 4) rest := (show Laid code pc ([insn] ++ rest) from laid).right
      have further := ih behind done
      rw [List.length_cons, Nat.mul_add, Nat.add_comm, BitVec.ofNat_add, ← BitVec.add_assoc]
      exact (Gets.step laid.head fun m shows_ => shows_effect shows_ first).trans further

/-! ## Branches and calls -/

theorem Shows.moved (shows_ : Shows m pc s) (next : Word) : Shows { m with pc := next } next s :=
  ⟨shows_.reg, shows_.word, shows_.sys, rfl, shows_.supervisor, shows_.masked, shows_.normal⟩

theorem Gets.beq {rs1 rs2 : BitVec 5} {offset : BitVec 16} (here : code pc = .beq rs1 rs2 offset) :
    Gets code pc s (if s.reg rs1.toNat = s.reg rs2.toNat then Machine.branchTarget (pc + 4) offset else pc + 4) s := by
  refine Gets.step here fun m shows_ => ?_
  rw [executeNormal_supervisor shows_.supervisor]
  change Shows (if m.readReg rs1.toNat = m.readReg rs2.toNat then _ else _) _ s
  rw [shows_.reg, shows_.reg, shows_.pc]
  split_ifs
  · exact shows_.moved _
  · exact shows_.moved _

theorem Gets.bne {rs1 rs2 : BitVec 5} {offset : BitVec 16} (here : code pc = .bne rs1 rs2 offset) :
    Gets code pc s (if s.reg rs1.toNat = s.reg rs2.toNat then pc + 4 else Machine.branchTarget (pc + 4) offset) s := by
  refine Gets.step here fun m shows_ => ?_
  rw [executeNormal_supervisor shows_.supervisor]
  change Shows (if m.readReg rs1.toNat ≠ m.readReg rs2.toNat then _ else _) _ s
  rw [shows_.reg, shows_.reg, shows_.pc, ite_not]
  split_ifs
  · exact shows_.moved _
  · exact shows_.moved _

theorem Gets.jmp {offset : BitVec 16} (here : code pc = .jmp offset) :
    Gets code pc s (Machine.branchTarget (pc + 4) offset) s := by
  refine Gets.step here fun m shows_ => ?_
  rw [executeNormal_supervisor shows_.supervisor, shows_.pc]
  exact shows_.moved _

theorem Gets.jr {rd : BitVec 5} (here : code pc = .jr rd) : Gets code pc s (s.reg rd.toNat) s := by
  refine Gets.step here fun m shows_ => ?_
  rw [executeNormal_supervisor shows_.supervisor, ← shows_.reg]
  exact shows_.moved _

theorem Gets.jalr {rd : BitVec 5} (here : code pc = .jalr rd) :
    Gets code pc s (s.reg rd.toNat) (s.set 31 (pc + 4)) := by
  refine Gets.step here fun m shows_ => ?_
  rw [executeNormal_supervisor shows_.supervisor, ← shows_.reg, shows_.pc]
  exact ((shows_.moved (pc + 4)).set rfl 31 (pc + 4)).moved _

end Runs

end Src32.Cpu
