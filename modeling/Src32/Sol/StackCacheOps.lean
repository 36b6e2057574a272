import Src32.Sol.StackCache

namespace Src32.Sol

open Cpu

/-!
# The operations of the stack cache

Each operation does to the registers and the words what it means for the operand stack.
-/

/-- The ring and the words behind it are the operand stack, and the other registers are
those of the operands. -/
structure Sound (r : Region) (c : Cache) (s : Supervisor) (a : Operands) : Prop where
  head : c.head < 12
  depth : c.depth ≤ 12
  split : ∃ rest, a.stack = c.slots s 0 c.depth ++ rest ∧ Below r s rest
  others : ∀ j, ¬ (1 ≤ j ∧ j ≤ 12) -> j ≠ 28 -> s.reg j = a.reg j

/-- Lines lead to a cache that holds the operands. -/
def Reaches (r : Region) (s : Supervisor) (lines : List Line) (c : Cache) (a : Operands) : Prop :=
  ∃ t, Line.run lines false s = some (false, t) ∧ Sound r c t a ∧ Aside r s t

section Operations

variable {r : Region} {c d : Cache} {s t : Supervisor} {a b : Operands} {short : Bool}

theorem Sound.reaches (sound : Sound r c s a) : Reaches r s [] c a := ⟨s, rfl, sound, Aside.refl r s⟩

theorem Reaches.append {first second : List Line} (reaches : Reaches r s first c a)
    (goes : ∀ t, Sound r c t a -> Reaches r t second d b) : Reaches r s (first ++ second) d b := by
  obtain ⟨t, run, sound, aside⟩ := reaches
  obtain ⟨u, next, sound', aside'⟩ := goes t sound
  refine ⟨u, ?_, sound', aside.trans aside'⟩
  rw [run_append, run]
  exact next

theorem slots_length (c : Cache) (s : Supervisor) (start n : Nat) : (c.slots s start n).length = n := by
  rw [Cache.slots, List.length_map, List.length_range]

variable {rest : List Word} {result : List Line × Cache} {ops : List CacheOp} {v : Word}

theorem stack_length (split : a.stack = c.slots s 0 c.depth ++ rest) :
    a.stack.length = c.depth + rest.length := by
  rw [split, List.length_append, slots_length]

/-- A register that is no slot does not change them. -/
theorem slots_set {reg : Nat} (outside : ∀ i < n, c.slotReg (start + i) ≠ reg) (value : Word) :
    c.slots (s.set reg value) start n = c.slots s start n :=
  slots_congr fun i inside => by rw [Supervisor.set_reg, if_neg (fun both => outside i inside both.2)]

/-- The register that a cell is loaded into. -/
theorem fillNewBottom_reg (head : c.head < 12) :
    c.fillNewBottom.1 = [.ld (c.fillNewBottom.2.slotReg c.depth), .addi 28 28 4] ∧ c.fillNewBottom.2.head < 12 ∧
      ∀ i < c.depth, c.fillNewBottom.2.slotReg i = c.slotReg i := by
  unfold Cache.fillNewBottom
  dsimp only
  by_cases empty : c.depth = 0
  · rw [if_pos empty, if_pos empty, empty, slotReg_zero (by decide)]
    exact ⟨rfl, by decide, fun i inside => absurd inside (Nat.not_lt_zero i)⟩
  · rw [if_neg empty, if_neg empty]
    exact ⟨rfl, head, fun _ _ => rfl⟩

theorem Sound.fillNewBottom (sound : Sound r c s a) (room : c.depth < 12) (deep : c.depth < a.stack.length) :
    Reaches r s c.fillNewBottom.1 c.fillNewBottom.2 a := by
  obtain ⟨rest, split, below⟩ := sound.split
  have length := stack_length split
  obtain ⟨lines, head, same⟩ := fillNewBottom_reg sound.head
  have bounds := slotReg_bounds c.fillNewBottom.2 c.depth
  cases rest with
  | nil => exact absurd (show c.depth < c.depth + 0 from length ▸ deep) (Nat.lt_irrefl _)
  | cons v rest =>
    obtain ⟨run, loaded⟩ := below.load (c.fillNewBottom.2.slotReg c.depth) (by omega) (by omega)
    refine ⟨_, by rw [lines]; exact run, ⟨head, room, ⟨rest, ?_, loaded⟩, ?_⟩, (Aside.set _ _).trans (Aside.set _ _)⟩
    · rw [show c.fillNewBottom.2.depth = c.depth + 1 from rfl, slots_snoc, split, Nat.zero_add, List.append_assoc]
      have top : ((s.set (c.fillNewBottom.2.slotReg c.depth) v).set 28 (s.reg 28 + 4)).reg
        (c.fillNewBottom.2.slotReg c.depth) = v := by
        rw [reg_other (by omega), reg_same (by omega)]
      rw [top, List.singleton_append]
      congr 1
      symm
      refine slots_congr fun i inside => ?_
      have other := slotReg_ne c.fillNewBottom.2 (Nat.lt_trans inside room) room (Nat.ne_of_lt inside)
      have range := slotReg_bounds c.fillNewBottom.2 i
      rw [Nat.zero_add, reg_other (by omega), reg_other other, same i inside]
    · intro j ring pointer
      rw [reg_other pointer, reg_other (by omega)]
      exact sound.others j ring pointer

theorem Sound.fill (sound : Sound r c s a) {n : Nat} (room : c.depth + n ≤ 12) (deep : c.depth + n ≤ a.stack.length) :
    Reaches r s (Cache.fill n c).1 (Cache.fill n c).2 a ∧ (Cache.fill n c).2.depth = c.depth + n := by
  induction n generalizing c s with
  | zero => exact ⟨sound.reaches, rfl⟩
  | succ n ih =>
    have one := sound.fillNewBottom (by omega) (by omega)
    have more : c.fillNewBottom.2.depth = c.depth + 1 := rfl
    obtain ⟨t, run, next, aside⟩ := one
    have rest := ih next (by rw [more]; omega) (by rw [more]; omega)
    refine ⟨Reaches.append ⟨t, run, next, aside⟩ fun u held => (ih held (by rw [more]; omega) (by rw [more]; omega)).1, ?_⟩
    rw [Cache.fill, rest.2, more]
    omega

theorem Sound.ensureCached (sound : Sound r c s a) {count : Nat} (emitted : c.ensureCached count = some result)
    (deep : count ≤ a.stack.length) :
    Reaches r s result.1 result.2 a ∧ count ≤ result.2.depth := by
  obtain ⟨rest, split, below⟩ := sound.split
  have length := stack_length split
  have depth := sound.depth
  unfold Cache.ensureCached at emitted
  split at emitted
  · cases emitted
  · rename_i few
    obtain rfl := Option.some.inj emitted
    have filled := sound.fill (n := count - c.depth) (by unfold Cache.capacity at few; omega) (by omega)
    exact ⟨filled.1, by rw [filled.2]; omega⟩

/-! ## Pushes and pops -/

theorem Sound.push (sound : Sound r c s a) (src : Scratch) (more : a.stack.length < r.room) :
    Reaches r s (c.pushFrom short src.reg).1 (c.pushFrom short src.reg).2 { a with stack := a.reg src.reg :: a.stack } := by
  obtain ⟨rest, split, below⟩ := sound.split
  have length := stack_length split
  have least := src.least
  have most := src.most
  have value : s.reg src.reg = a.reg src.reg := sound.others src.reg (by omega) (by omega)
  have head : (c.head + 1) % 12 < 12 := Nat.mod_lt _ (by decide)
  unfold Cache.pushFrom
  by_cases full : c.depth = Cache.capacity
  · rw [if_pos full]
    dsimp only
    have whole : c.depth = 12 := full
    have bounds := slotReg_bounds c 11
    obtain ⟨u, run, spilled, aside, regs⟩ := below.spill (by omega) (c.slotReg 11) (by omega)
    rw [whole, show 12 - 1 = 11 by decide, ← slotReg_full]
    refine ⟨u.set (c.slotReg 11) (u.reg src.reg), ?_, ⟨head, Nat.le_refl 12, ⟨s.reg (c.slotReg 11) :: rest, ?_, ?_⟩, ?_⟩, aside.trans (Aside.set _ _)⟩
    · rw [run_append, run]
      exact regMove_run (by omega) (by omega) u
    · have ring : Cache.slots { depth := 12, head := (c.head + 1) % 12 } (u.set (c.slotReg 11) (u.reg src.reg)) 0 12 =
          a.reg src.reg :: c.slots s 0 11 := by
        have rest : Cache.slots { depth := 12, head := (c.head + 1) % 12 } (u.set (c.slotReg 11) (u.reg src.reg))
          (0 + 1) 11 =
            c.slots s 0 11 := by
          refine slots_congr fun i inside => ?_
          have other := slotReg_ne c (Nat.lt_trans inside (by decide)) (show 11 < 12 by decide) (Nat.ne_of_lt inside)
          have range := slotReg_bounds c i
          rw [show 0 + 1 + i = i + 1 by omega, slotReg_pushed, Nat.zero_add, reg_other other,
            regs _ (by omega)]
        rw [slots_cons, rest, slotReg_zero head, ← slotReg_full, reg_same (by omega), regs _ (by omega), value]
      dsimp only
      rw [ring, split, whole, slots_snoc c s 0 11, List.append_assoc]
      rfl
    · exact spilled.of_eq (by rw [reg_other (by omega)]) (Supervisor.set_word ..)
    · intro j ring pointer
      rw [reg_other (by omega), regs j pointer]
      exact sound.others j ring pointer
  · rw [if_neg full]
    dsimp only
    have room : c.depth < 12 := Nat.lt_of_le_of_ne sound.depth full
    generalize named : (if c.depth = 0 then 0 else (c.head + 1) % 12) = head'
    have inside : head' < 12 := by
      rw [← named]
      split
      · decide
      · exact head
    have top := slotReg_zero inside (c.depth + 1)
    have bounds := slotReg_bounds ({ depth := c.depth + 1, head := head' } : Cache) 0
    rw [top] at bounds
    refine ⟨_, regMove_run (by omega) (by omega) s, ⟨inside, room, ⟨rest, ?_, ?_⟩, ?_⟩, Aside.set _ _⟩
    · have ring : Cache.slots { depth := c.depth + 1, head := head' }
        (s.set (stackCacheReg head') (s.reg src.reg)) 0 (c.depth + 1) =
          a.reg src.reg :: c.slots s 0 c.depth := by
        rw [slots_cons, top, reg_same (by omega), value]
        congr 1
        refine slots_congr fun i below => ?_
        have nonempty : ¬ c.depth = 0 := by omega
        have shift : Cache.slotReg { depth := c.depth + 1, head := head' } (i + 1) = c.slotReg i := by
          rw [← named, if_neg nonempty]
          exact slotReg_pushed _ i
        have other := slotReg_ne ({ depth := c.depth + 1, head := head' } : Cache) (show i + 1 < 12 by omega)
          (show 0 < 12 by decide)
          (Nat.succ_ne_zero i)
        rw [top, shift] at other
        rw [show 0 + 1 + i = i + 1 by omega, shift, Nat.zero_add, reg_other other]
      dsimp only
      rw [ring, split, List.cons_append]
    · exact below.of_eq (by rw [reg_other (by omega)]) (Supervisor.set_word ..)
    · intro j ring pointer
      rw [reg_other (by omega)]
      exact sound.others j ring pointer

/-- The ring without its top. -/
theorem Sound.popped (sound : Sound r c s a) (some_ : c.depth ≠ 0) :
    Sound r c.popped s { a with stack := a.stack.tail } ∧ a.stack = s.reg (c.slotReg 0) :: a.stack.tail := by
  obtain ⟨rest, split, below⟩ := sound.split
  obtain ⟨n, depth⟩ := Nat.exists_eq_succ_of_ne_zero some_
  have bound := sound.depth
  rw [depth, Nat.succ_eq_add_one, slots_cons, List.cons_append] at split
  rw [split, List.tail_cons]
  refine ⟨?_, rfl⟩
  unfold Cache.popped
  by_cases one : c.depth = 1
  · rw [if_pos one]
    obtain rfl : n = 0 := by omega
    exact ⟨sound.head, Nat.zero_le _, ⟨rest, rfl, below⟩, sound.others⟩
  · rw [if_neg one]
    refine ⟨by dsimp only; omega, by dsimp only; omega, ⟨rest, ?_, below⟩, sound.others⟩
    dsimp only
    rw [show c.depth - 1 = n by omega]
    congr 1
    refine slots_congr fun i _ => ?_
    rw [show 0 + 1 + i = i + 1 by omega, ← slotReg_popped n i, Nat.zero_add]

/-- A value goes to a register between the operations. -/
theorem Sound.set (sound : Sound r c s a) (dst : Scratch) (value : Word) :
    Sound r c (s.set dst.reg value) (a.set dst.reg value) := by
  obtain ⟨rest, split, below⟩ := sound.split
  have least := dst.least
  have most := dst.most
  refine ⟨sound.head, sound.depth, ⟨rest, ?_, ?_⟩, ?_⟩
  · rw [slots_set]
    · exact split
    · intro i _
      have bounds := slotReg_bounds c (0 + i)
      omega
  · exact below.of_eq (by rw [reg_other (by omega)]) (Supervisor.set_word ..)
  · intro j ring pointer
    rw [Supervisor.set_reg]
    by_cases own : j = dst.reg
    · rw [if_pos ⟨by omega, own⟩, own]
      exact (Function.update_self dst.reg value a.reg).symm
    · rw [if_neg (fun both => own both.2), sound.others j ring pointer]
      exact (Function.update_of_ne own value a.reg).symm

theorem Sound.pop (sound : Sound r c s a) (dst : Scratch) (deep : a.stack = v :: rest) :
    Reaches r s (c.popTo short dst.reg).1 (c.popTo short dst.reg).2 ({ a with stack := rest }.set dst.reg v) := by
  have least := dst.least
  have most := dst.most
  unfold Cache.popTo
  by_cases empty : c.depth = 0
  · rw [if_pos empty]
    obtain ⟨words, split, below⟩ := sound.split
    rw [empty, deep] at split
    obtain rfl : v :: rest = words := split
    obtain ⟨run, loaded⟩ := below.load dst.reg (by omega) (by omega)
    refine ⟨_, run, ⟨sound.head, sound.depth, ⟨rest, ?_, loaded⟩, ?_⟩, (Aside.set _ _).trans (Aside.set _ _)⟩
    · rw [empty]
      rfl
    · intro j ring pointer
      rw [reg_other pointer]
      exact (sound.set dst v).others j ring pointer
  · rw [if_neg empty]
    obtain ⟨popped, top⟩ := sound.popped empty
    rw [deep, List.tail_cons] at top popped
    have bounds := slotReg_bounds c 0
    refine ⟨_, regMove_run (by omega) (by omega) s, ?_, Aside.set _ _⟩
    rw [← (List.cons.inj top).1]
    exact popped.set dst v

theorem Sound.discard (sound : Sound r c s a) (deep : a.stack = v :: rest) :
    Reaches r s c.popDiscard.1 c.popDiscard.2 { a with stack := rest } := by
  unfold Cache.popDiscard
  by_cases empty : c.depth = 0
  · rw [if_pos empty]
    obtain ⟨words, split, below⟩ := sound.split
    rw [empty, deep] at split
    obtain rfl : v :: rest = words := split
    obtain ⟨run, behind⟩ := below.discard
    refine ⟨_, run, ⟨sound.head, sound.depth, ⟨rest, ?_, behind⟩, ?_⟩, Aside.set _ _⟩
    · rw [empty]
      rfl
    · intro j ring pointer
      rw [reg_other pointer]
      exact sound.others j ring pointer
  · rw [if_neg empty]
    have popped := (sound.popped empty).1
    rw [deep, List.tail_cons] at popped
    exact popped.reaches

/-! ## Reads -/

/-- A slot of the ring goes to a register between the operations. -/
theorem Sound.copy (sound : Sound r c s a) (dst : Scratch) {d : Nat} (inside : d < c.depth)
    (deep : a.stack[d]? = some v) :
    Reaches r s (regMove short dst.reg (c.slotReg d)) c (a.set dst.reg v) := by
  obtain ⟨rest, split, -⟩ := sound.split
  have bounds := slotReg_bounds c d
  have most := dst.most
  have value : s.reg (c.slotReg d) = v := by
    rw [split, List.getElem?_append_left (by rw [slots_length]; exact inside), Cache.slots, List.getElem?_map,
      List.getElem?_range inside, Option.map_some, Nat.zero_add] at deep
    exact Option.some.inj deep
  refine ⟨_, regMove_run (by omega) (by omega) s, ?_, Aside.set _ _⟩
  rw [value]
  exact sound.set dst v

theorem Sound.peek (sound : Sound r c s a) (dst : Scratch) {d : Nat}
    (emitted : c.peekTo short dst.reg d = some result) (deep : a.stack[d]? = some v) :
    Reaches r s result.1 result.2 (a.set dst.reg v) := by
  obtain ⟨filled, ensured, rfl⟩ := Option.map_eq_some_iff.mp emitted
  have long : d < a.stack.length := (List.getElem?_eq_some_iff.mp deep).1
  obtain ⟨reaches, depth⟩ := sound.ensureCached ensured long
  exact reaches.append fun t held => held.copy dst depth deep

/-! ## Moves within the ring -/

theorem slots_append (c : Cache) (s : Supervisor) (start m n : Nat) :
    c.slots s start (m + n) = c.slots s start m ++ c.slots s (start + m) n := by
  induction n with
  | zero => exact (List.append_nil _).symm
  | succ n ih => rw [← Nat.add_assoc, slots_snoc, ih, slots_snoc, List.append_assoc, Nat.add_assoc]

/-- The operands after a move. -/
theorem Operands.set_other {reg j : Nat} (other : j ≠ reg) (value : Word) : (a.set reg value).reg j = a.reg j := by
  rw [Operands.set]
  exact Function.update_of_ne other value a.reg

theorem Operands.set_same (a : Operands) (reg : Nat) (value : Word) : (a.set reg value).reg reg = value := by
  rw [Operands.set]
  exact Function.update_self reg value a.reg

/-- The first `k` slots are the first of the operand stack. -/
theorem Sound.tops (sound : Sound r c s a) {k : Nat} (shallow : k ≤ c.depth) :
    ∃ rest, a.stack = c.slots s 0 k ++ rest := by
  obtain ⟨rest, split, -⟩ := sound.split
  obtain ⟨n, depth⟩ := Nat.exists_eq_add_of_le shallow
  exact ⟨c.slots s (0 + k) n ++ rest, by rw [split, depth, slots_append, List.append_assoc]⟩

/-- They get other values. -/
theorem Sound.rearranged (sound : Sound r c s a) {k : Nat} (shallow : k ≤ c.depth)
    (deeper : ∀ d, k ≤ d -> d < c.depth -> t.reg (c.slotReg d) = s.reg (c.slotReg d)) (word : t.word = s.word)
    (pointer : t.reg 28 = s.reg 28) (others : ∀ j, ¬ (1 ≤ j ∧ j ≤ 12) -> j ≠ 28 -> t.reg j = b.reg j)
    (before : a.stack = c.slots s 0 k ++ rest) (after : b.stack = c.slots t 0 k ++ rest) : Sound r c t b := by
  obtain ⟨words, split, below⟩ := sound.split
  obtain ⟨n, depth⟩ := Nat.exists_eq_add_of_le shallow
  refine ⟨sound.head, sound.depth, ⟨words, ?_, below.of_eq pointer word⟩, others⟩
  rw [before, depth, slots_append, List.append_assoc] at split
  rw [after, List.append_cancel_left split, depth, slots_append, List.append_assoc]
  congr 2
  symm
  refine slots_congr fun i inside => ?_
  exact deeper (0 + k + i) (by omega) (by omega)

theorem Sound.swap (sound : Sound r c s a) (deep : 2 ≤ c.depth) {w : Word} (stack : a.stack = v :: w :: rest) :
    Reaches r s (Cache.moves short [(13, c.slotReg 0), (c.slotReg 0, c.slotReg 1), (c.slotReg 1, 13)]) c
      ({ a with stack := w :: v :: rest }.set 13 v) := by
  have first := slotReg_bounds c 0
  have second := slotReg_bounds c 1
  have apart := slotReg_ne c (show 0 < 12 by decide) (show 1 < 12 by decide) (by decide)
  have bound := sound.depth
  have inside : ∀ move ∈ [(13, c.slotReg 0), (c.slotReg 0, c.slotReg 1), (c.slotReg 1, 13)], move.1 < 32 ∧
    move.2 < 32 := by
    simp only [List.forall_mem_cons, List.not_mem_nil, false_implies, implies_true, and_true]
    omega
  have run := moves_run short inside s
  simp (disch := omega) only [List.foldl_cons, List.foldl_nil, reg_other, reg_same] at run
  have ring (t : Supervisor) : c.slots t 0 2 = [t.reg (c.slotReg 0), t.reg (c.slotReg 1)] := rfl
  obtain ⟨behind, split⟩ := sound.tops deep
  have tops := split
  rw [stack, ring] at tops
  obtain ⟨rfl, rfl, rfl⟩ : v = _ ∧ w = _ ∧ rest = behind := by simpa using tops
  refine ⟨_, run, sound.rearranged deep ?_ ?_ ?_ ?_ split ?_, ((Aside.set _ _).trans (Aside.set _ _)).trans (Aside.set _ _)⟩
  · intro d least most
    have zero := slotReg_ne c (show d < 12 by omega) (show 0 < 12 by decide) (by omega)
    have one := slotReg_ne c (show d < 12 by omega) (show 1 < 12 by decide) (by omega)
    have range := slotReg_bounds c d
    simp (disch := omega) only [reg_other]
  · simp only [Supervisor.set_word]
  · simp (disch := omega) only [reg_other]
  · intro j ring pointer
    have same := sound.others j ring pointer
    simp (disch := omega) only [reg_other]
    by_cases scratch : j = 13
    · rw [scratch, reg_same (by decide), Operands.set_same]
    · rw [reg_other scratch, Operands.set_other scratch]
      exact same
  · simp (disch := omega) only [ring, reg_other, reg_same, Operands.set]
    rfl

theorem Sound.rot (sound : Sound r c s a) (deep : 3 ≤ c.depth) {z y x : Word}
    (stack : a.stack = z :: y :: x :: rest) :
    Reaches r s (Cache.moves short [(13, c.slotReg 2), (14, c.slotReg 1), (15, c.slotReg 0), (c.slotReg 0, 13), (c.slotReg 1, 15),
      (c.slotReg 2, 14)]) c ((({ a with stack := x :: z :: y :: rest }.set 13 x).set 14 y).set 15 z) := by
  have first := slotReg_bounds c 0
  have second := slotReg_bounds c 1
  have third := slotReg_bounds c 2
  have apart := slotReg_ne c (show 0 < 12 by decide) (show 1 < 12 by decide) (by decide)
  have apart' := slotReg_ne c (show 0 < 12 by decide) (show 2 < 12 by decide) (by decide)
  have apart'' := slotReg_ne c (show 1 < 12 by decide) (show 2 < 12 by decide) (by decide)
  have bound := sound.depth
  have inside : ∀ move ∈ [(13, c.slotReg 2), (14, c.slotReg 1), (15, c.slotReg 0), (c.slotReg 0, 13), (c.slotReg 1, 15),
      (c.slotReg 2, 14)], move.1 < 32 ∧ move.2 < 32 := by
    simp only [List.forall_mem_cons, List.not_mem_nil, false_implies, implies_true, and_true]
    omega
  have run := moves_run short inside s
  simp (disch := omega) only [List.foldl_cons, List.foldl_nil, reg_other, reg_same] at run
  have ring (t : Supervisor) : c.slots t 0 3 = [t.reg (c.slotReg 0), t.reg (c.slotReg 1), t.reg (c.slotReg 2)] := rfl
  obtain ⟨behind, split⟩ := sound.tops deep
  have tops := split
  rw [stack, ring] at tops
  obtain ⟨rfl, rfl, rfl, rfl⟩ : z = _ ∧ y = _ ∧ x = _ ∧ rest = behind := by simpa using tops
  refine ⟨_, run, sound.rearranged deep ?_ ?_ ?_ ?_ split ?_, (((((Aside.set _ _).trans (Aside.set _ _)).trans (Aside.set _ _)).trans
    (Aside.set _ _)).trans (Aside.set _ _)).trans (Aside.set _ _)⟩
  · intro d least most
    have zero := slotReg_ne c (show d < 12 by omega) (show 0 < 12 by decide) (by omega)
    have one := slotReg_ne c (show d < 12 by omega) (show 1 < 12 by decide) (by omega)
    have two := slotReg_ne c (show d < 12 by omega) (show 2 < 12 by decide) (by omega)
    have range := slotReg_bounds c d
    simp (disch := omega) only [reg_other]
  · simp only [Supervisor.set_word]
  · simp (disch := omega) only [reg_other]
  · intro j ring pointer
    have same := sound.others j ring pointer
    simp (disch := omega) only [reg_other]
    by_cases last : j = 15
    · rw [last, reg_same (by decide), Operands.set_same]
    · rw [reg_other last, Operands.set_other last]
      by_cases middle : j = 14
      · rw [middle, reg_same (by decide), Operands.set_same]
      · rw [reg_other middle, Operands.set_other middle]
        by_cases scratch : j = 13
        · rw [scratch, reg_same (by decide), Operands.set_same]
        · rw [reg_other scratch, Operands.set_other scratch]
          exact same
  · simp (disch := omega) only [ring, reg_other, reg_same, Operands.set]
    rfl

/-! ## The flush -/

/-- The slots below a depth are spilled, the deepest first. -/
theorem spills_run {n : Nat} (bound : n ≤ 12) (below : Below r s rest) (room : rest.length + n ≤ r.room) :
    ∃ t, Line.run (c.spills n) false s = some (false, t) ∧ Below r t (c.slots s 0 n ++ rest) ∧ Aside r s t ∧
      ∀ j, j ≠ 28 -> t.reg j = s.reg j := by
  induction n generalizing s rest with
  | zero => exact ⟨s, rfl, below, Aside.refl r s, fun _ _ => rfl⟩
  | succ n ih =>
    have bounds := slotReg_bounds c n
    obtain ⟨t, first, spilled, aside, regs⟩ := below.spill (by omega) (c.slotReg n) (by omega)
    obtain ⟨u, run, behind, aside', regs'⟩ := ih (by omega) spilled (by rw [List.length_cons]; omega)
    refine ⟨u, ?_, ?_, aside.trans aside', fun j other => (regs' j other).trans (regs j other)⟩
    · rw [Cache.spills, run_append, first]
      exact run
    · have same : c.slots t 0 n = c.slots s 0 n := by
        refine slots_congr fun i _ => ?_
        have range := slotReg_bounds c (0 + i)
        exact regs _ (by omega)
      rw [slots_snoc, Nat.zero_add, List.append_assoc, ← same]
      exact behind

/-- The whole operand stack is in memory. -/
theorem Sound.flush (sound : Sound r c s a) (room : a.stack.length ≤ r.room) :
    ∃ t, Line.run c.flush.1 false s = some (false, t) ∧ Sound r c.flush.2 t a ∧ Aside r s t ∧ Below r t a.stack := by
  obtain ⟨rest, split, below⟩ := sound.split
  have length := stack_length split
  obtain ⟨t, run, behind, aside, regs⟩ := spills_run sound.depth (c := c) below (by omega)
  rw [← split] at behind
  refine ⟨t, run, ⟨sound.head, Nat.zero_le 12, ⟨a.stack, rfl, behind⟩, ?_⟩, aside, behind⟩
  intro j ring pointer
  rw [regs j pointer]
  exact sound.others j ring pointer

/-! ## Sequences of operations -/

/-- What an operation appends does what it means. -/
theorem CacheOp.step (op : CacheOp) (sound : Sound r c s a) (means : op.apply a = some b)
    (emitted : op.emit short c = some result) (room : b.stack.length ≤ r.room) : Reaches r s result.1 result.2 b := by
  cases op with
  | pushFrom src =>
    obtain rfl := Option.some.inj means
    obtain rfl := Option.some.inj emitted
    exact sound.push src room
  | popTo dst =>
    obtain rfl := Option.some.inj emitted
    simp only [apply] at means
    split at means
    · rename_i stack
      obtain rfl := Option.some.inj means
      exact sound.pop dst stack
    · cases means
  | popDiscard =>
    obtain rfl := Option.some.inj emitted
    simp only [apply] at means
    split at means
    · rename_i stack
      obtain rfl := Option.some.inj means
      exact sound.discard stack
    · cases means
  | peekTo dst depthFromTop =>
    obtain ⟨v, deep, rfl⟩ := Option.map_eq_some_iff.mp means
    exact sound.peek dst emitted deep
  | ensureCached count =>
    obtain ⟨deep, rfl⟩ : count ≤ a.stack.length ∧ a = b := by simpa [apply] using means
    exact (sound.ensureCached emitted deep).1
  | swapTopTwo =>
    simp only [emit, Cache.swapTopTwo, Option.map_eq_some_iff] at emitted
    obtain ⟨filled, ensured, rfl⟩ := emitted
    simp only [apply] at means
    split at means
    · rename_i stack
      obtain rfl := Option.some.inj means
      obtain ⟨reaches, deep⟩ := sound.ensureCached ensured (by simp only [stack, List.length_cons]; omega)
      exact reaches.append fun t held => held.swap deep stack
    · cases means
  | rot =>
    simp only [emit, Cache.rot, Option.map_eq_some_iff] at emitted
    obtain ⟨filled, ensured, rfl⟩ := emitted
    simp only [apply] at means
    split at means
    · rename_i stack
      obtain rfl := Option.some.inj means
      obtain ⟨reaches, deep⟩ := sound.ensureCached ensured (by simp only [stack, List.length_cons]; omega)
      exact reaches.append fun t held => held.rot deep stack
    · cases means
  | flush =>
    obtain rfl := Option.some.inj means
    obtain rfl := Option.some.inj emitted
    obtain ⟨t, run, flushed, aside, -⟩ := sound.flush room
    exact ⟨t, run, flushed, aside⟩

/-- An operation writes R13, R14 or R15. -/
theorem CacheOp.apply_reg (op : CacheOp) (means : op.apply a = some b) {j : Nat} (outside : ¬ (13 ≤ j ∧ j ≤ 15)) :
    b.reg j = a.reg j := by
  have other (dst : Scratch) : j ≠ dst.reg := by
    have least := dst.least
    have most := dst.most
    omega
  unfold apply at means
  split at means <;> try split at means
  all_goals simp only [Option.some.injEq, Option.map_eq_some_iff, reduceCtorEq] at means
  all_goals first
    | subst means
      first | rfl | simp (disch := first | exact other _ | omega) only [Operands.set_other]
    | obtain ⟨v, -, rfl⟩ := means
      exact Operands.set_other (other _) v

theorem applyOps_cons {room : Nat} {op : CacheOp} (means : applyOps room a (op :: ops) = some b) :
    ∃ next, op.apply a = some next ∧ next.stack.length ≤ room ∧ applyOps room next ops = some b := by
  obtain ⟨next, applied, rest⟩ := Option.bind_eq_some_iff.mp means
  split at rest
  · exact ⟨next, applied, ‹_›, rest⟩
  · cases rest

theorem applyOps_kept {room : Nat} (means : applyOps room a ops = some b) (start : a.stack.length ≤ room) :
    b.stack.length ≤ room ∧ ∀ j, ¬ (13 ≤ j ∧ j ≤ 15) -> b.reg j = a.reg j := by
  induction ops generalizing a with
  | nil =>
    obtain rfl := Option.some.inj means
    exact ⟨start, fun _ _ => rfl⟩
  | cons op ops ih =>
    obtain ⟨next, applied, fits, rest⟩ := applyOps_cons means
    have kept := ih rest fits
    exact ⟨kept.1, fun j outside => (kept.2 j outside).trans (op.apply_reg applied outside)⟩

/-- Operations on a sound cache lead to a sound cache. -/
theorem emitOps_reaches (sound : Sound r c s a) (means : applyOps r.room a ops = some b)
    (emitted : emitOps short c ops = some result) :
      Reaches r s result.1 result.2 b := by
  induction ops generalizing a c s result with
  | nil =>
    obtain rfl := Option.some.inj means
    obtain rfl := Option.some.inj emitted
    exact sound.reaches
  | cons op ops ih =>
    obtain ⟨next, applied, fits, rest⟩ := applyOps_cons means
    obtain ⟨first, here, behind⟩ := Option.bind_eq_some_iff.mp emitted
    obtain ⟨more, later, rfl⟩ := Option.map_eq_some_iff.mp behind
    exact (op.step sound applied here fits).append fun t held => ih held rest later

/-- Whatever the operations: the ring and the words at R28 are the operand stack, a value
that is popped or peeked is the operand's, R13 to R15 are the only other registers that
change, and a flush leaves the whole stack in memory, top first. -/
theorem stack_cache_refines_the_operands {ops : List CacheOp} {lines : List Line} (sound : Sound r c s a)
    (start : a.stack.length ≤ r.room) (means : applyOps r.room a ops = some b)
    (emitted : emitOps short c ops = some (lines, d)) :
    ∃ t u, Line.run lines false s = some (false, t) ∧ Sound r d t b ∧ Aside r s t ∧
      (∀ j, ¬ (1 ≤ j ∧ j ≤ 15) -> j ≠ 28 -> t.reg j = s.reg j) ∧
      Line.run d.flush.1 false t = some (false, u) ∧ Sound r d.flush.2 u b ∧ Aside r t u ∧ InMemory u.word (u.reg 28) b.stack := by
  obtain ⟨t, run, held, aside⟩ := emitOps_reaches sound means emitted
  obtain ⟨fits, kept⟩ := applyOps_kept means start
  obtain ⟨u, flush, flushed, beside, below⟩ := held.flush fits
  refine ⟨t, u, run, held, aside, fun j outside pointer => ?_, flush, flushed, beside, below.words⟩
  rw [held.others j (by omega) pointer, kept j (by omega), sound.others j (by omega) pointer]

end Operations

/-- Room for sixteen words below 0x1000. -/
def sixteenWords : Region := ⟨0x1000, 16, by decide, by decide, by decide⟩

/-- A machine with 7 in R13, 9 in R14 and 5 as the only word of the operand stack. -/
def oneWord : Supervisor :=
  { reg := Function.update (Function.update (Function.update (fun _ => 0) 13 7) 14 9) 28 0xFFC,
    word := Function.update (fun _ => 0) 0xFFC 5, sys := SystemState.initial }

/-- Two pushes and a `rot`, which loads the word. -/
def rotOverOne : List CacheOp := [.pushFrom ⟨13, by decide, by decide⟩, .pushFrom ⟨14, by decide, by decide⟩, .rot]

theorem stack_cache_refines_the_operands_rot : ∃ lines d b, emitOps true ⟨0, 0⟩ rotOverOne = some (lines, d) ∧
    applyOps 16 ⟨[5], oneWord.reg⟩ rotOverOne = some b ∧ b.stack = [5, 9, 7] ∧
    ∃ t u, Line.run lines false oneWord = some (false, t) ∧ Sound sixteenWords d t b ∧ Aside sixteenWords oneWord t ∧
      (∀ j, ¬ (1 ≤ j ∧ j ≤ 15) -> j ≠ 28 -> t.reg j = oneWord.reg j) ∧ Line.run d.flush.1 false t = some (false, u) ∧
      Sound sixteenWords d.flush.2 u b ∧ Aside sixteenWords t u ∧ InMemory u.word (u.reg 28) b.stack := by
  obtain ⟨result, emitted⟩ : ∃ result, emitOps true ⟨0, 0⟩ rotOverOne = some result := ⟨_, rfl⟩
  obtain ⟨b, applied, stack⟩ : ∃ b, applyOps 16 ⟨[5], oneWord.reg⟩ rotOverOne = some b ∧ b.stack = [5, 9, 7] :=
    ⟨_, rfl, rfl⟩
  have sound : Sound sixteenWords ⟨0, 0⟩ oneWord ⟨[5], oneWord.reg⟩ :=
    ⟨by decide, by decide, ⟨[5], rfl, ⟨by decide, by decide, ⟨by decide, trivial⟩⟩⟩, fun _ _ _ => rfl⟩
  exact ⟨result.1, result.2, b, emitted, applied, stack,
    stack_cache_refines_the_operands sound (by decide) applied emitted⟩

end Src32.Sol
