import Src32.Backend.CtxStub

namespace Src32.Backend

open Cpu
open Supervisor (effects set_reg set_word)

/-!
# The pieces of the trap stub

What each piece of the listing writes.  The registers of a frame are stored and
loaded by induction on the list of registers; the rest is run instruction by
instruction.
-/

/-! ## Frames -/

/-- No word of the frame at `f`. -/
def Outside (f a : Word) : Prop := ∀ i < frameWords, a ≠ slotAt f i

instance (f a : Word) : Decidable (Outside f a) := inferInstanceAs (Decidable (∀ i < frameWords, _))

theorem slotAt_zero (f : Word) : slotAt f 0 = f := BitVec.add_zero f

theorem slotAt_injective {f : Word} {i j : Nat} (first : i < frameWords) (second : j < frameWords)
    (same : slotAt f i = slotAt f j) : i = j := by
  unfold slotAt at same
  unfold frameWords at first second
  have offsets : BitVec.ofNat 32 (4 * i) = BitVec.ofNat 32 (4 * j) := BitVec.add_right_inj f |>.mp same
  have numbers := congrArg BitVec.toNat offsets
  rw [BitVec.toNat_ofNat, BitVec.toNat_ofNat] at numbers
  omega

theorem slotAt_ne {f : Word} {i j : Nat} (first : i < frameWords) (second : j < frameWords) (apart : i ≠ j) :
    slotAt f i ≠ slotAt f j := fun same => apart (slotAt_injective first second same)

section Pieces

variable {k : Labels} {s : Supervisor}

/-! ## Registers of a frame -/

/-- The registers of the list are stored in the frame that R1 holds. -/
theorem storeRegisters_effects (list : List Nat) (inside : ∀ r ∈ list, r < 32)
    (usable : ∀ r ∈ list, Usable (slotAt (s.reg 1) r)) :
    ∃ t, s.effects (storeRegisters list) = some t ∧ t.reg = s.reg ∧ t.sys = s.sys ∧
      (∀ r ∈ list, t.word (slotAt (s.reg 1) r) = s.reg r) ∧
      ∀ a, (∀ r ∈ list, a ≠ slotAt (s.reg 1) r) -> t.word a = s.word a := by
  induction list generalizing s with
  | nil => exact ⟨s, rfl, rfl, rfl, fun _ none => absurd none List.not_mem_nil, fun _ _ => rfl⟩
  | cons r rest ih =>
    have small : r < 32 := inside r List.mem_cons_self
    have behind : ∀ q ∈ rest, q < 32 := fun q member => inside q (List.mem_cons_of_mem r member)
    obtain ⟨t, done, reg, sys, stored, frame⟩ := ih (s := s.put (slotAt (s.reg 1) r) (s.reg r)) behind
      fun q member => usable q (List.mem_cons_of_mem r member)
    refine ⟨t, ?_, reg, sys, fun q member => ?_, fun a apart => ?_⟩
    · change s.effects (st r 1 (slot r) :: storeRegisters rest) = some t
      rw [effects_st small (by decide) (addSigned_slot (s.reg 1) (by omega)) (usable r List.mem_cons_self)]
      exact done
    · by_cases later : q ∈ rest
      · exact stored q later
      · have here : q = r := (List.mem_cons.mp member).resolve_right later
        subst here
        refine (frame _ fun p found => ?_).trans ?_
        · refine slotAt_ne (Nat.lt_trans small (by decide)) (Nat.lt_trans (behind p found) (by decide)) ?_
          rintro rfl
          exact later found
        · rw [Supervisor.put_word, if_pos rfl]
    · refine (frame a fun q member => apart q (List.mem_cons_of_mem r member)).trans ?_
      rw [Supervisor.put_word, if_neg (apart r List.mem_cons_self)]

/-- The registers of the list are loaded from there. -/
theorem loadRegisters_effects (list : List Nat) (inside : ∀ r ∈ list, 1 < r ∧ r < 32)
    (usable : ∀ r ∈ list, Usable (slotAt (s.reg 1) r)) :
    ∃ t, s.effects (loadRegisters list) = some t ∧ t.word = s.word ∧ t.sys = s.sys ∧
      (∀ r ∈ list, t.reg r = s.word (slotAt (s.reg 1) r)) ∧ ∀ r, r ∉ list -> t.reg r = s.reg r := by
  induction list generalizing s with
  | nil => exact ⟨s, rfl, rfl, rfl, fun _ none => absurd none List.not_mem_nil, fun _ _ => rfl⟩
  | cons r rest ih =>
    obtain ⟨above, small⟩ := inside r List.mem_cons_self
    have base : (s.set r (s.word (slotAt (s.reg 1) r))).reg 1 = s.reg 1 := by
      rw [set_reg, if_neg]
      omega
    obtain ⟨t, done, word, sys, loaded, kept⟩ := ih (s := s.set r (s.word (slotAt (s.reg 1) r)))
      (fun q member => inside q (List.mem_cons_of_mem r member)) (by
        intro q member
        rw [base]
        exact usable q (List.mem_cons_of_mem r member))
    rw [base, set_word] at loaded
    refine ⟨t, ?_, word.trans (set_word ..), sys.trans (Supervisor.set_sys ..), fun q member => ?_,
      fun q absent => ?_⟩
    · change s.effects (ld r 1 (slot r) :: loadRegisters rest) = some t
      rw [effects_ld small (by decide) (addSigned_slot (s.reg 1) (by omega)) (usable r List.mem_cons_self)]
      exact done
    · by_cases later : q ∈ rest
      · exact loaded q later
      · have here : q = r := (List.mem_cons.mp member).resolve_right later
        subst here
        rw [kept q later, set_reg, if_pos ⟨by omega, rfl⟩]
    · rw [kept q fun member => absent (List.mem_cons_of_mem r member), set_reg, if_neg]
      rintro ⟨_, rfl⟩
      exact absent List.mem_cons_self

/-! ## Saving -/

/-- Behind the scratch words the depth is in R2. -/
theorem opening_effects {top : Word} (stack : s.reg 28 = top + 8) (low : Usable top) (high : Usable (slotAt top 1))
    (depth : Usable k.depth) (apartLow : k.depth ≠ top) (apartHigh : k.depth ≠ slotAt top 1) :
    ∃ t, s.effects k.opening = some t ∧ t.sys = s.sys ∧ t.reg 2 = s.word k.depth ∧ t.reg 28 = top ∧
      (∀ i, i ≠ 1 -> i ≠ 2 -> i ≠ 28 -> t.reg i = s.reg i) ∧ t.word top = s.reg 1 ∧
      t.word (slotAt top 1) = s.reg 2 ∧ ∀ a, a ≠ top -> a ≠ slotAt top 1 -> t.word a = s.word a := by
  have apart : top ≠ slotAt top 1 := by
    have distinct := slotAt_ne (f := top) (i := 0) (j := 1) (by decide) (by decide) (by decide)
    rwa [slotAt_zero] at distinct
  have down : s.reg 28 + (-8 : BitVec 16).signExtend 32 = top := by
    rw [stack, show (-8 : BitVec 16).signExtend 32 = (-8 : Word) from by decide]
    bv_omega
  refine ⟨((((s.set 28 top).put top (s.reg 1)).put (slotAt top 1) (s.reg 2)).set 1 k.depth).set 2 (s.word k.depth),
    ?_, ?_, ?_, ?_, ?_, ?_, ?_, ?_⟩
  · change s.effects (addi 28 28 (-8) :: st 1 28 0 :: st 2 28 (slot 1) :: (imm 1 k.depth ++ [ld 2 1 0])) = _
    rw [effects_addi (by decide) (by decide) down,
      effects_st (by decide) (by decide) (a := top) (by simp [addSigned_zero]) low,
      effects_st (by decide) (by decide) (a := slotAt top 1) (by simp [addSigned_slot]) high,
      effects_imm (by decide) (by decide),
      effects_ld (by decide) (by decide) (a := k.depth) (by simp [addSigned_zero]) depth]
    simp [effects, apartLow, apartHigh]
  · simp
  · simp
  · simp
  · intro i one two stack
    simp [one, two, stack]
  · simp [apart]
  · simp
  · intro a first second
    simp [first, second]

theorem choosing_effects (current : Usable k.current) :
    ∃ t, s.effects k.choosing = some t ∧ t.sys = s.sys ∧ t.reg 1 = s.word k.current ∧
      (∀ i, i ≠ 1 -> t.reg i = s.reg i) ∧ t.word = s.word := by
  refine ⟨(s.set 1 k.current).set 1 (s.word k.current), ?_, ?_, ?_, ?_, ?_⟩
  · change s.effects (imm 1 k.current ++ [ld 1 1 0]) = _
    rw [effects_imm (by decide) (by decide),
      effects_ld (by decide) (by decide) (a := k.current) (by simp [addSigned_zero]) current, set_word]
    rfl
  · simp
  · simp
  · intro i other
    simp [other]
  · simp

/-- R1 and R2 go from the scratch words into the frame. -/
theorem savingScratch_effects {top : Word} (stack : s.reg 28 = top) (low : Usable top) (high : Usable (slotAt top 1))
    (usable : ∀ i < frameWords, Usable (slotAt (s.reg 1) i)) (apart : Outside (s.reg 1) (slotAt top 1)) :
    ∃ t, s.effects savingScratch = some t ∧ t.sys = s.sys ∧ t.reg 28 = top + 8 ∧
      (∀ i, i ≠ 2 -> i ≠ 28 -> t.reg i = s.reg i) ∧ t.word (slotAt (s.reg 1) 1) = s.word top ∧
      t.word (slotAt (s.reg 1) 2) = s.word (slotAt top 1) ∧
      ∀ a, a ≠ slotAt (s.reg 1) 1 -> a ≠ slotAt (s.reg 1) 2 -> t.word a = s.word a := by
  have different : slotAt (s.reg 1) 1 ≠ slotAt (s.reg 1) 2 := slotAt_ne (by decide) (by decide) (by decide)
  have apartOne : slotAt top 1 ≠ slotAt (s.reg 1) 1 := apart 1 (by decide)
  refine ⟨((((s.set 2 (s.word top)).put (slotAt (s.reg 1) 1) (s.word top)).set 2 (s.word (slotAt top 1))).put
    (slotAt (s.reg 1) 2) (s.word (slotAt top 1))).set 28 (top + 8), ?_, ?_, ?_, ?_, ?_, ?_, ?_⟩
  · change s.effects [ld 2 28 0, st 2 1 (slot 1), ld 2 28 (slot 1), st 2 1 (slot 2), addi 28 28 8] = _
    rw [effects_ld (by decide) (by decide) (a := top) (by simp [addSigned_zero, stack]) low,
      effects_st (by decide) (by decide) (a := slotAt (s.reg 1) 1) (by simp [addSigned_slot]) (usable 1 (by decide)),
      effects_ld (by decide) (by decide) (a := slotAt top 1) (by simp [addSigned_slot, stack]) high,
      effects_st (by decide) (by decide) (a := slotAt (s.reg 1) 2) (by simp [addSigned_slot]) (usable 2 (by decide)),
      effects_addi (by decide) (by decide) (v := top + 8) (by simp [stack])]
    simp [effects, apartOne]
  · simp
  · simp
  · intro i two stack
    simp [two, stack]
  · simp [different]
  · simp
  · intro a first second
    simp [first, second]

/-- The three system registers go into the frame, and R3 is the PU bit. -/
theorem savingState_effects (supervisor : s.sys.user = false) (zero : s.reg 0 = 0)
    (usable : ∀ i < frameWords, Usable (slotAt (s.reg 1) i)) :
    ∃ t, s.effects savingState = some t ∧ t.sys = s.sys ∧ t.reg 3 = s.sys.status &&& statusPU ∧
      (∀ i, i ≠ 2 -> i ≠ 3 -> t.reg i = s.reg i) ∧ t.word (slotAt (s.reg 1) ctxCause) = s.sys.cause ∧
      t.word (slotAt (s.reg 1) ctxEpc) = s.sys.epc ∧ t.word (slotAt (s.reg 1) ctxStatus) = s.sys.status ∧
      ∀ a, a ≠ slotAt (s.reg 1) ctxCause -> a ≠ slotAt (s.reg 1) ctxEpc -> a ≠ slotAt (s.reg 1) ctxStatus ->
        t.word a = s.word a := by
  have first : slotAt (s.reg 1) ctxCause ≠ slotAt (s.reg 1) ctxEpc := slotAt_ne (by decide) (by decide) (by decide)
  have second : slotAt (s.reg 1) ctxCause ≠ slotAt (s.reg 1) ctxStatus := slotAt_ne (by decide) (by decide) (by decide)
  have third : slotAt (s.reg 1) ctxEpc ≠ slotAt (s.reg 1) ctxStatus := slotAt_ne (by decide) (by decide) (by decide)
  have cause : s.sys.readSr srCause noRegisters = some s.sys.cause := rfl
  have epc : s.sys.readSr srEpc noRegisters = some s.sys.epc := rfl
  have status : s.sys.readSr srStatus noRegisters = some s.sys.status := rfl
  refine ⟨((((((((s.set 2 s.sys.cause).put (slotAt (s.reg 1) ctxCause) s.sys.cause).set 2 s.sys.epc).put
    (slotAt (s.reg 1) ctxEpc) s.sys.epc).set 2 s.sys.status).put (slotAt (s.reg 1) ctxStatus) s.sys.status).set 3
    statusPU).set 3 (s.sys.status &&& statusPU)), ?_, ?_, ?_, ?_, ?_, ?_, ?_, ?_⟩
  · change s.effects [mfsr 2 srCause, st 2 1 (slot ctxCause), mfsr 2 srEpc, st 2 1 (slot ctxEpc), mfsr 2 srStatus,
      st 2 1 (slot ctxStatus), addi 3 0 8, and_ 3 2 3] = _
    rw [effects_mfsr (by decide) (by decide) cause,
      effects_st (by decide) (by decide) (a := slotAt (s.reg 1) ctxCause) (by simp [addSigned_slot, ctxCause]) (usable _ (by decide)),
      effects_mfsr (by decide) (by decide) (v := s.sys.epc) (by simpa using epc),
      effects_st (by decide) (by decide) (a := slotAt (s.reg 1) ctxEpc) (by simp [addSigned_slot, ctxEpc]) (usable _ (by decide)),
      effects_mfsr (by decide) (by decide) (v := s.sys.status) (by simpa using status),
      effects_st (by decide) (by decide) (a := slotAt (s.reg 1) ctxStatus) (by simp [addSigned_slot, ctxStatus]) (usable _ (by decide)),
      effects_addi (by decide) (by decide) (v := statusPU) (by simp [zero, statusPU]),
      effects_and (by decide) (by decide) (by decide) (v := s.sys.status &&& statusPU) (by simp)]
    simp [effects]
  · simp
  · simp
  · intro i two three
    simp [two, three]
  · simp [first, second]
  · simp [third]
  · simp
  · intro a one two three
    simp [one, two, three]

/-! ## The banked registers -/

/-- R28, R29 or R30 of a bank. -/
def bankAt (bank : Vector Word 3) (i : Nat) : Word := bank[i]?.getD 0

theorem bankAt_set (bank : Vector Word 3) {i : Nat} (inside : i < 3) (value : Word) (j : Nat) :
    bankAt (bank.set i value inside) j = if j = i then value else bankAt bank j := by
  unfold bankAt
  by_cases here : j = i
  · rw [if_pos here, here, Vector.getElem?_set_self inside]
    rfl
  · rw [if_neg here, Vector.getElem?_set_ne inside (Ne.symm here)]

theorem readSr_bank {sys : SystemState} (supervisor : sys.user = false) {i : Nat} (inside : i < 3) :
    sys.readSr (srUsp + i) noRegisters = some (bankAt sys.otherBank i) := by
  have bank : sys.userBank noRegisters = sys.otherBank := by
    unfold SystemState.userBank
    rw [supervisor, if_neg Bool.false_ne_true]
  unfold bankAt
  rw [← bank]
  rcases (by omega : i = 0 ∨ i = 1 ∨ i = 2) with rfl | rfl | rfl
  · rfl
  · rfl
  · rfl

theorem writeSr_bank {sys : SystemState} (supervisor : sys.user = false) {i : Nat} (inside : i < 3) (value : Word) :
    sys.writeSr (srUsp + i) value noRegisters =
      some ({ sys with otherBank := sys.otherBank.set i value inside }, noRegisters) := by
  rcases (by omega : i = 0 ∨ i = 1 ∨ i = 2) with rfl | rfl | rfl
  all_goals
    change (if sys.user then _ else _) = _
    rw [supervisor, if_neg Bool.false_ne_true]
    rfl

/-- R28 to R30 of user mode go into the frame. -/
theorem savingUser_effects (supervisor : s.sys.user = false) (usable : ∀ i < frameWords, Usable (slotAt (s.reg 1) i)) :
    ∃ t, s.effects savingUser = some t ∧ t.sys = s.sys ∧ (∀ i, i ≠ 2 -> t.reg i = s.reg i) ∧
      (∀ i < 3, t.word (slotAt (s.reg 1) (28 + i)) = bankAt s.sys.otherBank i) ∧
      ∀ a, (∀ i < 3, a ≠ slotAt (s.reg 1) (28 + i)) -> t.word a = s.word a := by
  have first : slotAt (s.reg 1) 28 ≠ slotAt (s.reg 1) 29 := slotAt_ne (by decide) (by decide) (by decide)
  have second : slotAt (s.reg 1) 28 ≠ slotAt (s.reg 1) 30 := slotAt_ne (by decide) (by decide) (by decide)
  have third : slotAt (s.reg 1) 29 ≠ slotAt (s.reg 1) 30 := slotAt_ne (by decide) (by decide) (by decide)
  have usp : s.sys.readSr srUsp noRegisters = some (bankAt s.sys.otherBank 0) := readSr_bank supervisor (i := 0) (by decide)
  have ufp : s.sys.readSr srUfp noRegisters = some (bankAt s.sys.otherBank 1) := readSr_bank supervisor (i := 1) (by decide)
  have ugp : s.sys.readSr srUgp noRegisters = some (bankAt s.sys.otherBank 2) := readSr_bank supervisor (i := 2) (by decide)
  refine ⟨((((((s.set 2 (bankAt s.sys.otherBank 0)).put (slotAt (s.reg 1) 28) (bankAt s.sys.otherBank 0)).set 2
    (bankAt s.sys.otherBank 1)).put (slotAt (s.reg 1) 29) (bankAt s.sys.otherBank 1)).set 2
    (bankAt s.sys.otherBank 2)).put (slotAt (s.reg 1) 30) (bankAt s.sys.otherBank 2)), ?_, ?_, ?_, ?_, ?_⟩
  · change s.effects [mfsr 2 srUsp, st 2 1 (slot 28), mfsr 2 srUfp, st 2 1 (slot 29), mfsr 2 srUgp, st 2 1 (slot 30)] = _
    rw [effects_mfsr (by decide) (by decide) usp,
      effects_st (by decide) (by decide) (a := slotAt (s.reg 1) 28) (by simp [addSigned_slot]) (usable 28 (by decide)),
      effects_mfsr (by decide) (by decide) (v := bankAt s.sys.otherBank 1) (by simpa using ufp),
      effects_st (by decide) (by decide) (a := slotAt (s.reg 1) 29) (by simp [addSigned_slot]) (usable 29 (by decide)),
      effects_mfsr (by decide) (by decide) (v := bankAt s.sys.otherBank 2) (by simpa using ugp),
      effects_st (by decide) (by decide) (a := slotAt (s.reg 1) 30) (by simp [addSigned_slot]) (usable 30 (by decide))]
    simp [effects]
  · simp
  · intro i two
    simp [two]
  · intro i inside
    rcases (by omega : i = 0 ∨ i = 1 ∨ i = 2) with rfl | rfl | rfl
    · simp [first, second]
    · simp [third]
    · simp
  · intro a apart
    have one := apart 0 (by decide)
    have two := apart 1 (by decide)
    have three := apart 2 (by decide)
    simp only [Nat.reduceAdd] at one two three
    simp [one, two, three]

/-! ## Calling -/

/-- The depth is 1, the fresh stack holds the frame and R12 the handler. -/
theorem calling_effects {fresh : Word} (zero : s.reg 0 = 0) (stack : k.stackTop = fresh + 8) (depth : Usable k.depth)
    (argument : Usable fresh) (apart : k.depth ≠ fresh) :
    ∃ t, s.effects k.calling = some t ∧ t.sys = s.sys ∧ t.reg 12 = k.trap ∧ t.reg 28 = fresh ∧ t.reg 29 = 0 ∧
      (∀ i, i ≠ 2 -> i ≠ 3 -> i ≠ 12 -> i ≠ 28 -> i ≠ 29 -> t.reg i = s.reg i) ∧ t.word k.depth = 1 ∧
      t.word fresh = s.reg 1 ∧ ∀ a, a ≠ k.depth -> a ≠ fresh -> t.word a = s.word a := by
  have down : k.stackTop + (-8 : BitVec 16).signExtend 32 = fresh := by
    rw [stack, show (-8 : BitVec 16).signExtend 32 = (-8 : Word) from by decide]
    bv_omega
  refine ⟨((((((((s.set 2 k.depth).set 3 1).put k.depth 1).set 28 k.stackTop).set 29 0).set 28 fresh).put fresh
    (s.reg 1)).set 12 k.trap), ?_, ?_, ?_, ?_, ?_, ?_, ?_, ?_, ?_⟩
  · have listing : k.calling = imm 2 k.depth ++ (addi 3 0 1 :: st 3 2 0 :: (imm 28 k.stackTop ++ (add 29 0 0 ::
        addi 28 28 (-8) :: st 1 28 0 :: (imm 12 k.trap ++ [])))) := rfl
    rw [listing, effects_imm (by decide) (by decide), effects_addi (by decide) (by decide) (v := 1) (by simp [zero]),
      effects_st (by decide) (by decide) (a := k.depth) (by simp [addSigned_zero]) depth,
      effects_imm (by decide) (by decide), effects_add (by decide) (by decide) (by decide) (v := 0) (by simp [zero]),
      effects_addi (by decide) (by decide) (v := fresh) (by simpa using down),
      effects_st (by decide) (by decide) (a := fresh) (by simp [addSigned_zero]) argument,
      effects_imm (by decide) (by decide)]
    simp [effects]
  · simp
  · simp
  · simp
  · simp
  · intro i two three twelve stack frame
    simp [two, three, twelve, stack, frame]
  · simp [apart]
  · simp
  · intro a first second
    simp [first, second]

/-- The frame returned is current, and the depth 0. -/
theorem returning_effects (zero : s.reg 0 = 0) (current : Usable k.current) (depth : Usable k.depth)
    (apart : k.current ≠ k.depth) :
    ∃ t, s.effects k.returning = some t ∧ t.sys = s.sys ∧ (∀ i, i ≠ 2 -> t.reg i = s.reg i) ∧
      t.word k.current = s.reg 1 ∧ t.word k.depth = 0 ∧ ∀ a, a ≠ k.current -> a ≠ k.depth -> t.word a = s.word a := by
  refine ⟨(((s.set 2 k.current).put k.current (s.reg 1)).set 2 k.depth).put k.depth 0, ?_, ?_, ?_, ?_, ?_, ?_⟩
  · change s.effects (imm 2 k.current ++ (st 1 2 0 :: (imm 2 k.depth ++ [st 0 2 0]))) = _
    rw [effects_imm (by decide) (by decide),
      effects_st (by decide) (by decide) (a := k.current) (by simp [addSigned_zero]) current,
      effects_imm (by decide) (by decide),
      effects_st (by decide) (by decide) (a := k.depth) (by simp [addSigned_zero]) depth]
    simp [effects, zero]
  · simp
  · intro i two
    simp [two]
  · simp [apart]
  · simp
  · intro a first second
    simp [first, second]

/-- CAUSE and EPC are the arguments of `kernel_panic`. -/
theorem panicking_effects {low : Word} (stack : s.reg 28 = low + 8) (first : Usable low) (second : Usable (slotAt low 1)) :
    ∃ t, s.effects k.panicking = some t ∧ t.sys = s.sys ∧ t.reg 12 = k.panic ∧ t.reg 28 = low ∧
      t.word low = s.sys.cause ∧ t.word (slotAt low 1) = s.sys.epc ∧
      ∀ a, a ≠ low -> a ≠ slotAt low 1 -> t.word a = s.word a := by
  have apart : low ≠ slotAt low 1 := by
    have distinct := slotAt_ne (f := low) (i := 0) (j := 1) (by decide) (by decide) (by decide)
    rwa [slotAt_zero] at distinct
  have down : s.reg 28 + (-8 : BitVec 16).signExtend 32 = low := by
    rw [stack, show (-8 : BitVec 16).signExtend 32 = (-8 : Word) from by decide]
    bv_omega
  have cause : s.sys.readSr srCause noRegisters = some s.sys.cause := rfl
  have epc : s.sys.readSr srEpc noRegisters = some s.sys.epc := rfl
  refine ⟨(((((s.set 1 s.sys.cause).set 2 s.sys.epc).set 28 low).put low s.sys.cause).put (slotAt low 1) s.sys.epc).set
    12 k.panic, ?_, ?_, ?_, ?_, ?_, ?_, ?_⟩
  · have listing : k.panicking = mfsr 1 srCause :: mfsr 2 srEpc :: addi 28 28 (-8) :: st 1 28 0 :: st 2 28 (slot 1) ::
        (imm 12 k.panic ++ []) := rfl
    rw [listing, effects_mfsr (by decide) (by decide) cause,
      effects_mfsr (by decide) (by decide) (v := s.sys.epc) (by simpa using epc),
      effects_addi (by decide) (by decide) (v := low) (by simpa using down),
      effects_st (by decide) (by decide) (a := low) (by simp [addSigned_zero]) first,
      effects_st (by decide) (by decide) (a := slotAt low 1) (by simp [addSigned_slot]) second,
      effects_imm (by decide) (by decide)]
    simp [effects]
  · simp
  · simp
  · simp
  · simp [apart]
  · simp
  · intro a one two
    simp [one, two]

/-! ## Restoring -/

/-- The bits of STATUS that a frame resumes with. -/
theorem restored_bits (w : Word) : (w &&& 0x1A) &&& statusIE = 0 ∧ (w &&& 0x1A) &&& statusPIE = w &&& statusPIE ∧
    (w &&& 0x1A) &&& statusPU = w &&& statusPU ∧ (w &&& 0x1A) &&& statusPSM = w &&& statusPSM := by
  refine ⟨?_, ?_, ?_, ?_⟩
  · rw [BitVec.and_assoc, show (0x1A : Word) &&& statusIE = 0 by decide]
    exact BitVec.and_zero
  · rw [BitVec.and_assoc, show (0x1A : Word) &&& statusPIE = statusPIE by decide]
  · rw [BitVec.and_assoc, show (0x1A : Word) &&& statusPU = statusPU by decide]
  · rw [BitVec.and_assoc, show (0x1A : Word) &&& statusPSM = statusPSM by decide]

/-- EPC and STATUS come from the frame, and R3 is the PU bit. -/
theorem restoringState_effects (masked : s.sys.ie = false) (zero : s.reg 0 = 0)
    (usable : ∀ i < frameWords, Usable (slotAt (s.reg 1) i)) :
    ∃ t, s.effects restoringState = some t ∧
      t.sys = { s.sys with epc := s.word (slotAt (s.reg 1) ctxEpc) }.setStatus (s.word (slotAt (s.reg 1) ctxStatus) &&& 0x1A) ∧
      t.reg 3 = s.word (slotAt (s.reg 1) ctxStatus) &&& statusPU ∧ (∀ i, i ≠ 2 -> i ≠ 3 -> t.reg i = s.reg i) ∧
      t.word = s.word := by
  obtain ⟨off, _, pu, _⟩ := restored_bits (s.word (slotAt (s.reg 1) ctxStatus))
  have epc : s.sys.writeSr srEpc (s.word (slotAt (s.reg 1) ctxEpc)) noRegisters =
      some ({ s.sys with epc := s.word (slotAt (s.reg 1) ctxEpc) }, noRegisters) := rfl
  generalize saved : ({ s.sys with epc := s.word (slotAt (s.reg 1) ctxEpc) } : SystemState) = sys at epc
  have same : sys.ie = false := by
    rw [← saved]
    exact masked
  have status : sys.writeSr srStatus (s.word (slotAt (s.reg 1) ctxStatus) &&& 0x1A) noRegisters =
      some (sys.setStatus (s.word (slotAt (s.reg 1) ctxStatus) &&& 0x1A), noRegisters) := rfl
  have disabled : (sys.setStatus (s.word (slotAt (s.reg 1) ctxStatus) &&& 0x1A)).ie = false := by
    unfold SystemState.setStatus
    dsimp only
    rw [off]
    rfl
  refine ⟨((((((((s.set 2 (s.word (slotAt (s.reg 1) ctxEpc))).withSys sys).set 2 (s.word (slotAt (s.reg 1) ctxStatus))).set 3
    0x1A).set 2 (s.word (slotAt (s.reg 1) ctxStatus) &&& 0x1A)).withSys
    (sys.setStatus (s.word (slotAt (s.reg 1) ctxStatus) &&& 0x1A))).set 3 statusPU).set 3
    (s.word (slotAt (s.reg 1) ctxStatus) &&& statusPU)), ?_, ?_, ?_, ?_, ?_⟩
  · have listing : restoringState = [ld 2 1 (slot ctxEpc), mtsr srEpc 2, ld 2 1 (slot ctxStatus), addi 3 0 statusRestored,
        and_ 2 2 3, mtsr srStatus 2, addi 3 0 8, and_ 3 2 3] := rfl
    rw [listing, effects_ld (by decide) (by decide) (a := slotAt (s.reg 1) ctxEpc) (by simp [addSigned_slot, ctxEpc])
        (usable _ (by decide)),
      effects_mtsr (by decide) (by decide) (by simpa using epc) same,
      effects_ld (by decide) (by decide) (a := slotAt (s.reg 1) ctxStatus) (by simp [addSigned_slot, ctxStatus])
        (usable _ (by decide)),
      effects_addi (by decide) (by decide) (v := 0x1A) (by simp [zero, statusRestored]),
      effects_and (by decide) (by decide) (by decide) (v := s.word (slotAt (s.reg 1) ctxStatus) &&& 0x1A) (by simp),
      effects_mtsr (by decide) (by decide) (by simpa using status) disabled,
      effects_addi (by decide) (by decide) (v := statusPU) (by simp [zero, statusPU]),
      effects_and (by decide) (by decide) (by decide) (v := s.word (slotAt (s.reg 1) ctxStatus) &&& statusPU) (by simpa using pu)]
    simp [effects]
  · simp
  · simp
  · intro i two three
    simp [two, three]
  · simp

/-- R28 to R30 of user mode come from the frame, and the supervisor stack is
fresh for the next trap. -/
theorem restoringUser_effects (supervisor : s.sys.user = false) (masked : s.sys.ie = false)
    (usable : ∀ i < frameWords, Usable (slotAt (s.reg 1) i)) :
    ∃ t bank, s.effects k.restoringUser = some t ∧ t.sys = { s.sys with otherBank := bank } ∧
      (∀ i < 3, bankAt bank i = s.word (slotAt (s.reg 1) (28 + i))) ∧ t.reg 28 = k.stackTop ∧
      (∀ i, i ≠ 2 -> i ≠ 28 -> t.reg i = s.reg i) ∧ t.word = s.word := by
  generalize usp : s.sys.otherBank.set 0 (s.word (slotAt (s.reg 1) 28)) (by decide) = first
  generalize ufp : first.set 1 (s.word (slotAt (s.reg 1) 29)) (by decide) = second
  generalize ugp : second.set 2 (s.word (slotAt (s.reg 1) 30)) (by decide) = third
  have one : s.sys.writeSr srUsp (s.word (slotAt (s.reg 1) 28)) noRegisters =
      some ({ s.sys with otherBank := first }, noRegisters) := by
    rw [← usp]
    exact writeSr_bank supervisor (i := 0) (by decide) _
  have two : SystemState.writeSr { s.sys with otherBank := first } srUfp (s.word (slotAt (s.reg 1) 29)) noRegisters =
      some ({ s.sys with otherBank := second }, noRegisters) := by
    rw [← ufp]
    exact @writeSr_bank { s.sys with otherBank := first } supervisor 1 (by decide) _
  have three : SystemState.writeSr { s.sys with otherBank := second } srUgp (s.word (slotAt (s.reg 1) 30)) noRegisters =
      some ({ s.sys with otherBank := third }, noRegisters) := by
    rw [← ugp]
    exact @writeSr_bank { s.sys with otherBank := second } supervisor 2 (by decide) _
  have off : ∀ bank, ({ s.sys with otherBank := bank } : SystemState).ie = false := fun _ => masked
  refine ⟨((((((s.set 2 (s.word (slotAt (s.reg 1) 28))).withSys { s.sys with otherBank := first }).set 2
    (s.word (slotAt (s.reg 1) 29))).withSys { s.sys with otherBank := second }).set 2
    (s.word (slotAt (s.reg 1) 30))).withSys { s.sys with otherBank := third }).set 28 k.stackTop, third, ?_, ?_, ?_, ?_, ?_, ?_⟩
  · have listing : k.restoringUser = ld 2 1 (slot 28) :: mtsr srUsp 2 :: ld 2 1 (slot 29) :: mtsr srUfp 2 ::
        ld 2 1 (slot 30) :: mtsr srUgp 2 :: (imm 28 k.stackTop ++ []) := rfl
    rw [listing,
      effects_ld (by decide) (by decide) (a := slotAt (s.reg 1) 28) (by simp [addSigned_slot]) (usable 28 (by decide)),
      effects_mtsr (by decide) (by decide) (by simpa using one) (off first),
      effects_ld (by decide) (by decide) (a := slotAt (s.reg 1) 29) (by simp [addSigned_slot]) (usable 29 (by decide)),
      effects_mtsr (by decide) (by decide) (by simpa using two) (off second),
      effects_ld (by decide) (by decide) (a := slotAt (s.reg 1) 30) (by simp [addSigned_slot]) (usable 30 (by decide)),
      effects_mtsr (by decide) (by decide) (by simpa using three) (off third), effects_imm (by decide) (by decide)]
    simp [effects]
  · simp
  · intro i inside
    rw [← ugp, bankAt_set, ← ufp, bankAt_set, ← usp, bankAt_set]
    rcases (by omega : i = 0 ∨ i = 1 ∨ i = 2) with rfl | rfl | rfl
    · rfl
    · rfl
    · rfl
  · simp
  · intro i two stack
    simp [two, stack]
  · simp

theorem loading_effects (usable : ∀ i < frameWords, Usable (slotAt (s.reg 1) i)) :
    ∃ t, s.effects loading = some t ∧ t.sys = s.sys ∧
      (∀ i, 0 < i -> i < 28 ∨ i = 31 -> t.reg i = s.word (slotAt (s.reg 1) i)) ∧
      (∀ i, 28 ≤ i -> i < 31 -> t.reg i = s.reg i) ∧ t.word = s.word := by
  have bounds : ∀ r ∈ loadedRegisters, 1 < r ∧ r < 32 := by decide
  obtain ⟨u, done, word, sys, loaded, kept⟩ := loadRegisters_effects loadedRegisters bounds fun r member =>
    usable r (Nat.lt_trans (bounds r member).2 (by decide))
  have base : u.reg 1 = s.reg 1 := kept 1 (by decide)
  refine ⟨u.set 1 (u.word (slotAt (s.reg 1) 1)), ?_, ?_, ?_, ?_, ?_⟩
  · unfold loading
    rw [Supervisor.effects_append, done, Option.bind_some,
      effects_ld (by decide) (by decide) (a := slotAt (s.reg 1) 1) (by simp [addSigned_slot, base]) (usable 1 (by decide))]
    rfl
  · rw [Supervisor.set_sys, sys]
  · intro i positive inside
    rw [set_reg, word]
    by_cases one : i = 1
    · rw [if_pos ⟨by decide, one⟩, one]
    · rw [if_neg fun both => one both.2]
      refine loaded i ?_
      unfold loadedRegisters
      rw [List.mem_append, List.mem_range'_1, List.mem_singleton]
      omega
  · intro i above below
    rw [set_reg, if_neg (by omega)]
    refine kept i fun member => ?_
    unfold loadedRegisters at member
    rw [List.mem_append, List.mem_range'_1, List.mem_singleton] at member
    omega
  · rw [set_word, word]

end Pieces

end Src32.Backend
