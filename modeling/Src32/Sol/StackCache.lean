import Src32.Cpu.Supervisor

namespace Src32.Sol

open Cpu

/-!
# The register stack cache

`_StackCacheEmitter` of `sol_compiler.py`: the top of the operand stack lives in a ring
of the registers R1 to R12, the rest in memory at R28.  Each operation appends
instructions; the ring moves while the compiler runs, the values while they do.
-/

/-! ## Emitted lines -/

/-- An instruction of the Normal mode, or of the Short mode between `JMPS` and `S.RET`. -/
inductive Line where
  | normal (insn : Instruction)
  | short (insn : ShortInstruction)

namespace Line

def addi (rd rs1 : Nat) (imm : BitVec 16) : Line := normal (.addi (BitVec.ofNat 5 rd) (BitVec.ofNat 5 rs1) imm)

def ld (rd : Nat) : Line := normal (.ld (BitVec.ofNat 5 rd) (BitVec.ofNat 5 28) 0)

def st (rd : Nat) : Line := normal (.st (BitVec.ofNat 5 rd) (BitVec.ofNat 5 28) 0)

/-- What a line does in the mode it is met in. -/
def effect (line : Line) (inShort : Bool) (s : Supervisor) : Option (Bool × Supervisor) :=
  match inShort, line with
  | false, normal insn => if insn = .jmps 0 then some (true, s) else (s.effect insn).map fun t => (false, t)
  | true, short (.mov rd rs1) => some (true, s.set (Machine.shortRegToGpr rd) (s.reg (Machine.shortRegToGpr rs1)))
  | true, short .ret => some (false, s)
  | _, _ => none

/-- What lines that begin in the Normal mode do. -/
def run : List Line -> Bool -> Supervisor -> Option (Bool × Supervisor)
  | [], inShort, s => some (inShort, s)
  | line :: rest, inShort, s => (line.effect inShort s).bind fun t => run rest t.1 t.2

end Line

/-- `_short_reg_encodable`. -/
def shortRegEncodable (reg : Nat) : Bool := reg = 31 ∨ reg ≤ 14

/-- The field of a register in a Short-mode instruction. -/
def shortField (reg : Nat) : BitVec 4 := if reg = 31 then 15 else BitVec.ofNat 4 reg

/-- `_emit_reg_move`. -/
def regMove (useShortMode : Bool) (dst src : Nat) : List Line :=
  if dst = src then []
  else if useShortMode && shortRegEncodable dst && shortRegEncodable src then
    [.normal (.jmps 0), .short (.mov (shortField dst) (shortField src)), .short .ret]
  else [.addi dst src 0]

/-! ## The emitter -/

/-- `STACK_CACHE_REGS`: slot `index` is R1 to R12. -/
def stackCacheReg (index : Nat) : Nat := index + 1

/-- `_StackCacheEmitter`, without the lines. -/
structure Cache where
  depth : Nat
  head : Nat

namespace Cache

def capacity : Nat := 12

/-- `_slot_index`. -/
def slotIndex (c : Cache) (depthFromTop : Nat) : Nat := (((c.head : Int) - depthFromTop) % 12).toNat

/-- `_slot_reg`. -/
def slotReg (c : Cache) (depthFromTop : Nat) : Nat := stackCacheReg (c.slotIndex depthFromTop)

/-- `_spill_reg`. -/
def spillReg (reg : Nat) : List Line := [.addi 28 28 (-4), .st reg]

/-- `_fill_new_bottom`. -/
def fillNewBottom (c : Cache) : List Line × Cache :=
  let head := if c.depth = 0 then 0 else c.head
  let slot := if c.depth = 0 then 0 else c.slotIndex c.depth
  ([.ld (stackCacheReg slot), .addi 28 28 4], { depth := c.depth + 1, head := head })

/-- So many rounds of the loop of `ensure_cached`. -/
def fill : Nat -> Cache -> List Line × Cache
  | 0, c => ([], c)
  | n + 1, c => (c.fillNewBottom.1 ++ (fill n c.fillNewBottom.2).1, (fill n c.fillNewBottom.2).2)

/-- `ensure_cached`. -/
def ensureCached (c : Cache) (count : Nat) : Option (List Line × Cache) :=
  if count > capacity then none else some (fill (count - c.depth) c)

/-- `push_from`. -/
def pushFrom (short : Bool) (c : Cache) (src : Nat) : List Line × Cache :=
  if c.depth = capacity then
    let head := (c.head + 1) % 12
    (spillReg (c.slotReg (c.depth - 1)) ++ regMove short (stackCacheReg head) src, { c with head := head })
  else
    let head := if c.depth = 0 then 0 else (c.head + 1) % 12
    (regMove short (stackCacheReg head) src, { depth := c.depth + 1, head := head })

/-- The ring without its top. -/
def popped (c : Cache) : Cache :=
  if c.depth = 1 then { c with depth := 0 }
  else { depth := c.depth - 1, head := (((c.head : Int) - 1) % 12).toNat }

/-- `pop_to`. -/
def popTo (short : Bool) (c : Cache) (dst : Nat) : List Line × Cache :=
  if c.depth = 0 then ([.ld dst, .addi 28 28 4], c) else (regMove short dst (c.slotReg 0), c.popped)

/-- `pop_discard`. -/
def popDiscard (c : Cache) : List Line × Cache := if c.depth = 0 then ([.addi 28 28 4], c) else ([], c.popped)

/-- `peek_to`. -/
def peekTo (short : Bool) (c : Cache) (dst depthFromTop : Nat) : Option (List Line × Cache) :=
  (c.ensureCached (depthFromTop + 1)).map fun filled =>
    (filled.1 ++ regMove short dst (filled.2.slotReg depthFromTop), filled.2)

/-- The moves of `swap_top_two` and of `rot`, each to a register from another. -/
def moves (short : Bool) (list : List (Nat × Nat)) : List Line := list.flatMap fun move => regMove short move.1 move.2

/-- `swap_top_two`. -/
def swapTopTwo (short : Bool) (c : Cache) : Option (List Line × Cache) :=
  (c.ensureCached 2).map fun filled =>
    (filled.1 ++ moves short [(13, filled.2.slotReg 0), (filled.2.slotReg 0, filled.2.slotReg 1), (filled.2.slotReg 1, 13)],
      filled.2)

/-- The `rot` of `_emit_instruction`. -/
def rot (short : Bool) (c : Cache) : Option (List Line × Cache) :=
  (c.ensureCached 3).map fun filled =>
    (filled.1 ++ moves short [(13, filled.2.slotReg 2), (14, filled.2.slotReg 1), (15, filled.2.slotReg 0),
      (filled.2.slotReg 0, 13), (filled.2.slotReg 1, 15), (filled.2.slotReg 2, 14)], filled.2)

/-- The spills of the slots below `depth`, the deepest first. -/
def spills (c : Cache) : Nat -> List Line
  | 0 => []
  | n + 1 => spillReg (c.slotReg n) ++ spills c n

/-- `flush`. -/
def flush (c : Cache) : List Line × Cache := (c.spills c.depth, { c with depth := 0 })

end Cache

/-! ## Operations -/

/-- The registers between the operations: R13 to R15. -/
structure Scratch where
  reg : Nat
  least : 13 ≤ reg
  most : reg ≤ 15

inductive CacheOp where
  | pushFrom (src : Scratch)
  | popTo (dst : Scratch)
  | popDiscard
  | peekTo (dst : Scratch) (depthFromTop : Nat)
  | ensureCached (count : Nat)
  | swapTopTwo
  | rot
  | flush

/-- What an operation appends; none if it raises. -/
def CacheOp.emit (short : Bool) (c : Cache) : CacheOp -> Option (List Line × Cache)
  | pushFrom src => some (c.pushFrom short src.reg)
  | popTo dst => some (c.popTo short dst.reg)
  | popDiscard => some c.popDiscard
  | peekTo dst depthFromTop => c.peekTo short dst.reg depthFromTop
  | ensureCached count => c.ensureCached count
  | swapTopTwo => c.swapTopTwo short
  | rot => c.rot short
  | flush => some c.flush

def emitOps (short : Bool) : Cache -> List CacheOp -> Option (List Line × Cache)
  | c, [] => some ([], c)
  | c, op :: rest => (op.emit short c).bind fun first => (emitOps short first.2 rest).map fun behind => (first.1 ++ behind.1, behind.2)

/-- The operand stack, top first, and the registers outside of the cache. -/
structure Operands where
  stack : List Word
  reg : Nat -> Word

def Operands.set (a : Operands) (reg : Nat) (value : Word) : Operands := { a with reg := Function.update a.reg reg value }

/-- What an operation means; none if the stack is not deep enough for it. -/
def CacheOp.apply (a : Operands) : CacheOp -> Option Operands
  | pushFrom src => some { a with stack := a.reg src.reg :: a.stack }
  | popTo dst => match a.stack with
    | v :: rest => some ({ a with stack := rest }.set dst.reg v)
    | [] => none
  | popDiscard => match a.stack with
    | _ :: rest => some { a with stack := rest }
    | [] => none
  | peekTo dst depthFromTop => a.stack[depthFromTop]?.map fun v => a.set dst.reg v
  | ensureCached count => if count ≤ a.stack.length then some a else none
  | swapTopTwo => match a.stack with
    | v :: w :: rest => some ({ a with stack := w :: v :: rest }.set 13 v)
    | _ => none
  | rot => match a.stack with
    | z :: y :: x :: rest => some ((({ a with stack := x :: z :: y :: rest }.set 13 x).set 14 y).set 15 z)
    | _ => none
  | flush => some a

/-- Operations on a stack of so many words at most. -/
def applyOps (room : Nat) : Operands -> List CacheOp -> Option Operands
  | a, [] => some a
  | a, op :: rest => (op.apply a).bind fun b => if b.stack.length ≤ room then applyOps room b rest else none

/-!
## What the stack cache holds

The ring registers from the head downwards and the words from R28 upwards are together
the operand stack.  A spill moves the deepest register below the words, a load the first
word behind the deepest register, and every other operation works on the registers.
-/

/-! ## Lines -/

section Lines

variable {s t : Supervisor} {short : Bool}

theorem run_append (first second : List Line) (mode : Bool) (s : Supervisor) :
    Line.run (first ++ second) mode s = (Line.run first mode s).bind fun t => Line.run second t.1 t.2 := by
  induction first generalizing mode s with
  | nil => rfl
  | cons line rest ih =>
    rw [List.cons_append, Line.run, Line.run, Option.bind_assoc]
    congr 1
    funext t
    exact ih t.1 t.2

variable {reg rd : Nat}

theorem field_toNat (inside : reg < 32) : (BitVec.ofNat 5 reg).toNat = reg := by
  rw [BitVec.toNat_ofNat]
  exact Nat.mod_eq_of_lt inside

theorem addi_run {rs1 : Nat} (dest : rd < 32) (source : rs1 < 32) (imm : BitVec 16) (rest : List Line) :
    Line.run (.addi rd rs1 imm :: rest) false s = Line.run rest false (s.set rd (s.reg rs1 + imm.signExtend 32)) := by
  rw [Line.run, Line.addi, Line.effect, if_neg (by rintro ⟨⟩)]
  simp only [Supervisor.effect, field_toNat dest, field_toNat source, Option.map_some, Option.bind_some]

theorem addSigned_zero (a : Word) : Machine.addSigned a 0 = a := BitVec.add_zero a

theorem ld_run (dest : rd < 32) (usable : Usable (s.reg 28)) (rest : List Line) :
    Line.run (.ld rd :: rest) false s = Line.run rest false (s.set rd (s.word (s.reg 28))) := by
  rw [Line.run, Line.ld, Line.effect, if_neg (by rintro ⟨⟩)]
  simp only [Supervisor.effect, field_toNat dest, field_toNat (show 28 < 32 by decide), addSigned_zero, if_pos usable,
    Option.map_some, Option.bind_some]

theorem st_run (source : rd < 32) (usable : Usable (s.reg 28)) (rest : List Line) :
    Line.run (.st rd :: rest) false s = Line.run rest false (s.put (s.reg 28) (s.reg rd)) := by
  rw [Line.run, Line.st, Line.effect, if_neg (by rintro ⟨⟩)]
  simp only [Supervisor.effect, field_toNat source, field_toNat (show 28 < 32 by decide), addSigned_zero, if_pos usable,
    Option.map_some, Option.bind_some]

theorem reg_other {j : Nat} (other : j ≠ reg) (value : Word) : (s.set reg value).reg j = s.reg j := by
  rw [Supervisor.set_reg, if_neg (fun both => other both.2)]

theorem reg_same (positive : reg ≠ 0) (value : Word) : (s.set reg value).reg reg = value := by
  rw [Supervisor.set_reg, if_pos ⟨positive, rfl⟩]

theorem set_self (s : Supervisor) (reg : Nat) : s.set reg (s.reg reg) = s := by
  unfold Supervisor.set
  split
  · rfl
  · rw [Function.update_eq_self]

theorem shortField_gpr (encodable : shortRegEncodable reg = true) :
    Machine.shortRegToGpr (shortField reg) = reg := by
  simp only [shortRegEncodable, decide_eq_true_eq] at encodable
  unfold shortField Machine.shortRegToGpr
  obtain rfl | low := encodable
  · decide
  · have place : (BitVec.ofNat 4 reg).toNat = reg := by
      rw [BitVec.toNat_ofNat]
      omega
    rw [if_neg (show ¬ reg = 31 by omega), place, if_pos (show reg < 15 by omega)]

/-- A move in either mode. -/
theorem regMove_run {dst src : Nat} (dest : dst < 32) (source : src < 32) (s : Supervisor) :
    Line.run (regMove short dst src) false s = some (false, s.set dst (s.reg src)) := by
  unfold regMove
  split
  · rename_i same
    rw [same, set_self]
    rfl
  · split
    · rename_i encodable
      rw [Bool.and_eq_true, Bool.and_eq_true] at encodable
      simp only [Line.run, Line.effect, if_true, Option.bind_some, shortField_gpr encodable.1.2, shortField_gpr encodable.2]
    · rw [addi_run dest source, show (0 : BitVec 16).signExtend 32 = 0#32 by decide, BitVec.add_zero]
      rfl

/-- A list of moves, one after the other. -/
theorem moves_run (short : Bool) {list : List (Nat × Nat)} (inside : ∀ move ∈ list, move.1 < 32 ∧ move.2 < 32)
    (s : Supervisor) :
    Line.run (Cache.moves short list) false s =
      some (false, list.foldl (fun s move => s.set move.1 (s.reg move.2)) s) := by
  induction list generalizing s with
  | nil => rfl
  | cons move rest ih =>
    have here := inside move List.mem_cons_self
    rw [Cache.moves, List.flatMap_cons, run_append, regMove_run here.1 here.2]
    exact ih (fun move member => inside move (List.mem_cons_of_mem _ member)) _

end Lines

/-! ## The ring -/

section Ring

variable {c : Cache}

theorem slotReg_bounds (c : Cache) (d : Nat) : 1 ≤ c.slotReg d ∧ c.slotReg d ≤ 12 := by
  unfold Cache.slotReg Cache.slotIndex stackCacheReg
  omega

theorem slotReg_ne (c : Cache) {d e : Nat} (first : d < 12) (second : e < 12) (apart : d ≠ e) :
    c.slotReg d ≠ c.slotReg e := by
  unfold Cache.slotReg Cache.slotIndex stackCacheReg
  omega

theorem slotReg_popped (depth d : Nat) :
    Cache.slotReg { depth := depth, head := (((c.head : Int) - 1) % 12).toNat } d = c.slotReg (d + 1) := by
  unfold Cache.slotReg Cache.slotIndex stackCacheReg
  dsimp only
  omega

theorem slotReg_pushed (depth d : Nat) : Cache.slotReg { depth := depth, head := (c.head + 1) % 12 }
    (d + 1) = c.slotReg d := by
  unfold Cache.slotReg Cache.slotIndex stackCacheReg
  dsimp only
  omega

theorem slotReg_zero {head : Nat} (inside : head < 12) (depth : Nat) :
    Cache.slotReg { depth := depth, head := head } 0 = stackCacheReg head := by
  unfold Cache.slotReg Cache.slotIndex stackCacheReg
  dsimp only
  omega

/-- The slot above the top of a full ring is its deepest. -/
theorem slotReg_full (c : Cache) : c.slotReg 11 = stackCacheReg ((c.head + 1) % 12) := by
  unfold Cache.slotReg Cache.slotIndex stackCacheReg
  omega

/-- The values of so many slots from a depth on. -/
def Cache.slots (c : Cache) (s : Supervisor) (start n : Nat) : List Word :=
  (List.range n).map fun i => s.reg (c.slotReg (start + i))

theorem slots_cons (c : Cache) (s : Supervisor) (start n : Nat) :
    c.slots s start (n + 1) = s.reg (c.slotReg start) :: c.slots s (start + 1) n := by
  unfold Cache.slots
  rw [List.range_succ_eq_map, List.map_cons, List.map_map, Nat.add_zero]
  congr 2
  funext i
  simp only [Function.comp, Nat.succ_eq_add_one]
  congr 2
  omega

theorem slots_snoc (c : Cache) (s : Supervisor) (start n : Nat) :
    c.slots s start (n + 1) = c.slots s start n ++ [s.reg (c.slotReg (start + n))] := by
  unfold Cache.slots
  rw [List.range_succ, List.map_append]
  rfl

theorem slots_congr {c d : Cache} {s t : Supervisor} {start from_ n : Nat}
    (same : ∀ i < n, t.reg (d.slotReg (from_ + i)) = s.reg (c.slotReg (start + i))) :
      d.slots t from_ n = c.slots s start n :=
  List.map_congr_left fun i member => same i (List.mem_range.mp member)

end Ring

/-! ## The memory -/

/-- Where the operand stack has its words: room for so many below the top. -/
structure Region where
  top : Word
  room : Nat
  aligned : top.toNat % 4 = 0
  fits : 4 * room ≤ top.toNat
  high : top.toNat ≤ 0xFFFF0000

/-- The address lies in the region. -/
def Region.Contains (r : Region) (a : Word) : Prop := r.top.toNat - 4 * r.room ≤ a.toNat ∧ a.toNat < r.top.toNat

/-- The words from an address on. -/
def InMemory (word : Word -> Word) : Word -> List Word -> Prop
  | _, [] => True
  | a, v :: rest => word a = v ∧ InMemory word (a + 4) rest

/-- The words behind the ring are at R28. -/
structure Below (r : Region) (s : Supervisor) (rest : List Word) : Prop where
  pointer : (s.reg 28).toNat + 4 * rest.length = r.top.toNat
  room : rest.length ≤ r.room
  words : InMemory s.word (s.reg 28) rest

/-- Nothing but registers and the region changes. -/
structure Aside (r : Region) (s t : Supervisor) : Prop where
  sys : t.sys = s.sys
  word : ∀ a, ¬ r.Contains a -> t.word a = s.word a

section Memory

variable {r : Region} {s t u : Supervisor} {rest : List Word} {v : Word}

theorem Aside.refl (r : Region) (s : Supervisor) : Aside r s s := ⟨rfl, fun _ _ => rfl⟩

theorem Aside.trans (first : Aside r s t) (second : Aside r t u) : Aside r s u :=
  ⟨second.sys.trans first.sys, fun a outside => (second.word a outside).trans (first.word a outside)⟩

theorem Aside.set (reg : Nat) (value : Word) : Aside r s (s.set reg value) :=
  ⟨Supervisor.set_sys .., fun a _ => by rw [Supervisor.set_word]⟩

theorem Below.of_eq (below : Below r s rest) (pointer : t.reg 28 = s.reg 28) (word : t.word = s.word) :
    Below r t rest := by
  refine ⟨?_, below.room, ?_⟩
  · rw [pointer]
    exact below.pointer
  · rw [pointer, word]
    exact below.words

/-- A word in front of others is written. -/
theorem InMemory.put {word : Word -> Word} {a b : Word} (words : InMemory word a rest) (front : b.toNat < a.toNat)
    (fits : a.toNat + 4 * rest.length < 2 ^ 32) (value : Word) : InMemory (Function.update word b value) a rest := by
  induction rest generalizing a with
  | nil => trivial
  | cons v rest ih =>
    rw [List.length_cons] at fits
    have next : (a + 4).toNat = a.toNat + 4 := by
      rw [BitVec.toNat_add, show (4 : Word).toNat = 4 by decide]
      omega
    refine ⟨?_, ih words.2 (by omega) (by omega)⟩
    rw [Function.update_of_ne (by rintro rfl; omega)]
    exact words.1

theorem Below.usable (below : Below r s (v :: rest)) : Usable (s.reg 28) := by
  have pointer := below.pointer
  have aligned := r.aligned
  have high := r.high
  rw [List.length_cons] at pointer
  exact ⟨by omega, by omega⟩

/-- The pointer behind the first word. -/
theorem Below.behind (below : Below r s (v :: rest)) (t : Supervisor) (word : t.word = s.word)
    (pointer : t.reg 28 = s.reg 28 + 4) :
    Below r t rest := by
  have place := below.pointer
  have room := below.room
  have high := r.high
  rw [List.length_cons] at place room
  refine ⟨?_, by omega, ?_⟩
  · rw [pointer, BitVec.toNat_add, show (4 : Word).toNat = 4 by decide]
    omega
  · rw [pointer, word]
    exact below.words.2

/-- `ADDI R28, R28, 4` takes the first word away. -/
theorem Below.discard (below : Below r s (v :: rest)) :
    Line.run [.addi 28 28 4] false s = some (false, s.set 28 (s.reg 28 + 4)) ∧ Below r (s.set 28 (s.reg 28 + 4)) rest := by
  constructor
  · rw [addi_run (by decide) (by decide), show (4 : BitVec 16).signExtend 32 = (4 : Word) by decide]
    rfl
  · exact below.behind _ (Supervisor.set_word ..) (by rw [reg_same (by decide)])

/-- The first word is loaded into a register. -/
theorem Below.load (below : Below r s (v :: rest)) (reg : Nat) (positive : 0 < reg) (inside : reg < 28) :
    Line.run [.ld reg, .addi 28 28 4] false s = some (false, (s.set reg v).set 28 (s.reg 28 + 4)) ∧
      Below r ((s.set reg v).set 28 (s.reg 28 + 4)) rest := by
  have same : (s.set reg v).reg 28 = s.reg 28 := by
    rw [reg_other (by omega)]
  have moved := (below.of_eq same (Supervisor.set_word ..)).discard
  rw [same] at moved
  rw [ld_run (by omega) below.usable, below.words.1]
  exact moved

/-- A register is spilled in front of the words. -/
theorem Below.spill (below : Below r s rest) (more : rest.length < r.room) (reg : Nat) (inside : reg < 28) :
    ∃ t, Line.run (Cache.spillReg reg) false s = some (false, t) ∧ Below r t (s.reg reg :: rest) ∧ Aside r s t ∧
      ∀ j, j ≠ 28 -> t.reg j = s.reg j := by
  have place := below.pointer
  have fits := r.fits
  have high := r.high
  have aligned := r.aligned
  have front : (s.reg 28 - 4).toNat = (s.reg 28).toNat - 4 := by
    rw [BitVec.toNat_sub_of_le (by rw [BitVec.le_def, show (4 : Word).toNat = 4 by decide]; omega)]
    rfl
  have regs : ∀ j, j ≠ 28 -> (s.set 28 (s.reg 28 - 4)).reg j = s.reg j := by
    intro j other
    rw [reg_other other]
  have pointer : (s.set 28 (s.reg 28 - 4)).reg 28 = s.reg 28 - 4 := by
    rw [reg_same (by decide)]
  refine ⟨(s.set 28 (s.reg 28 - 4)).put (s.reg 28 - 4) (s.reg reg), ?_, ⟨?_, more, ?_⟩, ⟨Supervisor.set_sys .., ?_⟩, regs⟩
  · rw [Cache.spillReg, addi_run (by decide) (by decide), show (-4 : BitVec 16).signExtend 32 = -(4 : Word) by decide,
      ← BitVec.sub_eq_add_neg, st_run (by omega), pointer, regs reg (by omega)]
    · rfl
    · rw [pointer]
      exact ⟨by rw [front]; omega, by rw [front]; omega⟩
  · rw [show ((s.set 28 (s.reg 28 - 4)).put (s.reg 28 - 4) (s.reg reg)).reg 28 = s.reg 28 - 4 from pointer, front, List.length_cons]
    omega
  · rw [show ((s.set 28 (s.reg 28 - 4)).put (s.reg 28 - 4) (s.reg reg)).reg 28 = s.reg 28 - 4 from pointer]
    refine ⟨by rw [Supervisor.put_word, if_pos rfl], ?_⟩
    rw [show (s.reg 28 - 4 : Word) + 4 = s.reg 28 from BitVec.sub_add_cancel .., Supervisor.put, Supervisor.set_word]
    exact below.words.put (by omega) (by omega) _
  · intro a outside
    rw [Supervisor.put_word, if_neg, Supervisor.set_word]
    rintro rfl
    exact outside ⟨by rw [front]; omega, by rw [front]; omega⟩

end Memory

end Src32.Sol
