import Src32.Machine.Word

namespace Src32.Word

/-!
# Words as four bytes

Shifts by a byte, masks of whole bytes and exclusive or work on each of the four
bytes of a word alone.
-/

section Bytes

variable (a b c d e f g h : Byte)

/-- Bit `n` of the word of four bytes. -/
theorem getLsbD_ofBytes (n : Nat) : (ofBytes a b c d).getLsbD n =
    if n < 8 then d.getLsbD n else if n < 16 then c.getLsbD (n - 8) else if n < 24 then b.getLsbD (n - 16)
    else if n < 32 then a.getLsbD (n - 24) else false := by
  unfold ofBytes
  simp only [BitVec.getLsbD_or, BitVec.getLsbD_shiftLeft, BitVec.truncate_eq_setWidth, BitVec.getLsbD_setWidth]
  have da : ∀ {x : Byte} {i : Nat}, 8 ≤ i -> x.getLsbD i = false := fun {x i} wide => BitVec.getLsbD_of_ge x i wide
  rcases (by omega : n < 8 ∨ 8 ≤ n ∧ n < 16 ∨ 16 ≤ n ∧ n < 24 ∨ 24 ≤ n ∧ n < 32 ∨ 32 ≤ n) with
    first | ⟨least, most⟩ | ⟨least, most⟩ | ⟨least, most⟩ | last
  · grind
  · grind
  · grind
  · grind
  · grind

theorem byte_ofBytes : (ofBytes a b c d >>> 24).setWidth 8 = a ∧ (ofBytes a b c d >>> 16).setWidth 8 = b ∧
    (ofBytes a b c d >>> 8).setWidth 8 = c ∧ (ofBytes a b c d).setWidth 8 = d := by
  refine ⟨?_, ?_, ?_, ?_⟩
  all_goals
    apply BitVec.eq_of_getLsbD_eq
    intro n bound
    simp only [BitVec.getLsbD_setWidth, BitVec.getLsbD_ushiftRight, getLsbD_ofBytes]
    grind

/-- The number that the word of four bytes is. -/
theorem toNat_ofBytes : (ofBytes a b c d).toNat = a.toNat * 2 ^ 24 + b.toNat * 2 ^ 16 + c.toNat * 2 ^ 8 + d.toNat := by
  have smallA := a.isLt
  have smallB := b.isLt
  have smallC := c.isLt
  have smallD := d.isLt
  have shifted : ∀ (x : Byte) (k : Nat), k ≤ 24 -> (x.zeroExtend 32 <<< k).toNat = x.toNat <<< k := by
    intro x k most
    have small := x.isLt
    rw [BitVec.toNat_shiftLeft, BitVec.zeroExtend_eq_setWidth, BitVec.toNat_setWidth,
      Nat.mod_eq_of_lt (show x.toNat < 2 ^ 32 by omega),
      Nat.shiftLeft_eq]
    refine Nat.mod_eq_of_lt ?_
    calc x.toNat * 2 ^ k < 2 ^ 8 * 2 ^ k := Nat.mul_lt_mul_of_pos_right small (Nat.two_pow_pos k)
      _ ≤ 2 ^ 8 * 2 ^ 24 := Nat.mul_le_mul_left _ (Nat.pow_le_pow_right (by decide) most)
      _ = 2 ^ 32 := by decide
  have last : (d.zeroExtend 32).toNat = d.toNat := by
    rw [BitVec.zeroExtend_eq_setWidth, BitVec.toNat_setWidth]
    omega
  unfold ofBytes
  rw [BitVec.toNat_or, BitVec.toNat_or, BitVec.toNat_or, shifted a 24 (by decide), shifted b 16 (by decide),
    shifted c 8 (by decide), last, Nat.or_assoc, Nat.or_assoc, ← Nat.shiftLeft_add_eq_or_of_lt smallD c.toNat,
    ← Nat.shiftLeft_add_eq_or_of_lt (show c.toNat <<< 8 + d.toNat < 2 ^ 16 by rw [Nat.shiftLeft_eq]; omega) b.toNat,
    ← Nat.shiftLeft_add_eq_or_of_lt
      (show b.toNat <<< 16 + (c.toNat <<< 8 + d.toNat) < 2 ^ 24 by rw [Nat.shiftLeft_eq, Nat.shiftLeft_eq]; omega) a.toNat]
  simp only [Nat.shiftLeft_eq]
  omega

/-- The bytes of a word are its own. -/
theorem ofBytes_inj : ofBytes a b c d = ofBytes e f g h ↔ a = e ∧ b = f ∧ c = g ∧ d = h := by
  constructor
  · intro same
    obtain ⟨first, second, third, fourth⟩ := byte_ofBytes a b c d
    rw [same] at first second third fourth
    obtain ⟨first', second', third', fourth'⟩ := byte_ofBytes e f g h
    exact ⟨first.symm.trans first', second.symm.trans second', third.symm.trans third', fourth.symm.trans fourth'⟩
  · rintro ⟨rfl, rfl, rfl, rfl⟩
    rfl

theorem ofBytes_xor : ofBytes a b c d ^^^ ofBytes e f g h = ofBytes (a ^^^ e) (b ^^^ f) (c ^^^ g) (d ^^^ h) := by
  apply BitVec.eq_of_getLsbD_eq
  intro n bound
  simp only [BitVec.getLsbD_xor, getLsbD_ofBytes]
  split_ifs <;> rfl

theorem ofBytes_and : ofBytes a b c d &&& ofBytes e f g h = ofBytes (a &&& e) (b &&& f) (c &&& g) (d &&& h) := by
  apply BitVec.eq_of_getLsbD_eq
  intro n bound
  simp only [BitVec.getLsbD_and, getLsbD_ofBytes]
  split_ifs <;> rfl

/-- A shift by a byte. -/
theorem ofBytes_shift : ofBytes a b c d <<< 8 = ofBytes b c d 0 := by
  apply BitVec.eq_of_getLsbD_eq
  intro n bound
  simp only [BitVec.getLsbD_shiftLeft, getLsbD_ofBytes]
  grind

theorem ofBytes_zero : ofBytes 0 0 0 0 = 0 := by decide

theorem xor_same {x y : Byte} : x ^^^ y = 0 ↔ x = y := BitVec.xor_eq_zero_iff

theorem and_none (x : Byte) : x &&& 0 = 0 := BitVec.and_zero

/-- Masks of whole bytes. -/
theorem ofBytes_high : ofBytes a b c d &&& 0xFFFF0000 = ofBytes a b 0 0 := by
  rw [show (0xFFFF0000 : Word) = ofBytes 0xFF 0xFF 0 0 by decide, ofBytes_and,
    show (0xFF : Byte) = BitVec.allOnes 8 by decide, BitVec.and_allOnes, BitVec.and_allOnes, and_none, and_none]

theorem ofBytes_middle : ofBytes a b c d &&& 0x00FFFF00 = ofBytes 0 b c 0 := by
  rw [show (0x00FFFF00 : Word) = ofBytes 0 0xFF 0xFF 0 by decide, ofBytes_and,
    show (0xFF : Byte) = BitVec.allOnes 8 by decide, BitVec.and_allOnes, BitVec.and_allOnes, and_none, and_none]

/-- Multiplication by 0x01010101 spreads a byte. -/
theorem ofBytes_spread : a.setWidth 32 * (0x01010101 : Word) = ofBytes a a a a := by
  revert a
  decide +kernel

end Bytes

/-- A word is made up of its two halves. -/
theorem halves (x value : Word) :
    (x &&& (0x0000FFFF : Word) ||| ((value >>> 16).setWidth 16).setWidth 32 <<< 16) &&& (0xFFFF0000 : Word) |||
      (value.setWidth 16).setWidth 32 = value := by
  have low : (0x0000FFFF : Word) = BitVec.ofNat 32 (2 ^ 16 - 1) := rfl
  have high : (0xFFFF0000 : Word) = ~~~ BitVec.ofNat 32 (2 ^ 16 - 1) := rfl
  rw [low, high]
  apply BitVec.eq_of_getLsbD_eq
  intro n bound
  simp only [BitVec.getLsbD_or, BitVec.getLsbD_and, BitVec.getLsbD_not, BitVec.getLsbD_shiftLeft,
    BitVec.getLsbD_setWidth, BitVec.getLsbD_ushiftRight, BitVec.getLsbD_ofNat, Nat.testBit_two_pow_sub_one]
  rcases (by omega : n < 16 ∨ 16 ≤ n) with below | above
  · grind
  · grind

end Src32.Word
