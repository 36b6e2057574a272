import Src32.Machine.Word

namespace Src32.Word

/-!
# Bit sets, serial numbers and fields

A word is used as a set of small numbers, one bit each, and as a counter that
wraps.  Two values of a wrapping counter are compared by the sign of their
difference, which is right as long as they are less than half the range apart.
A token is a word of two fields.
-/

/-! ## Bits -/

theorem bit_one {i j : Nat} (wide : j < 32) : ((1 : Word) <<< i).getLsbD j = decide (j = i) := by
  rw [BitVec.getLsbD_shiftLeft, show (1 : Word) = 1#32 from rfl, BitVec.getLsbD_one, decide_eq_true wide]
  by_cases same : j = i
  · subst same
    rw [decide_eq_false (Nat.lt_irrefl j), decide_eq_true (Nat.sub_self j), decide_eq_true rfl]
    rfl
  · rw [decide_eq_false same]
    by_cases below : j < i
    · rw [decide_eq_true below]
      rfl
    · have above : j - i ≠ 0 := by omega
      rw [decide_eq_false above, Bool.and_false, Bool.and_false]

theorem bit_set (w : Word) {i j : Nat} (wide : j < 32) :
    (w ||| (1 : Word) <<< i).getLsbD j = (w.getLsbD j || decide (j = i)) := by
  rw [BitVec.getLsbD_or, bit_one wide]

theorem bit_clear (w : Word) {i j : Nat} (wide : j < 32) :
    (w &&& ~~~((1 : Word) <<< i)).getLsbD j = (w.getLsbD j && !decide (j = i)) := by
  rw [BitVec.getLsbD_and, BitVec.getLsbD_not, bit_one wide, decide_eq_true wide, Bool.true_and]

/-! ## Serial numbers -/

/-- Of two numbers less than half the range apart the sign of the difference
tells which comes first. -/
theorem serial_before {a b : Nat} (near : a < b + 2 ^ 31) (close : b < a + 2 ^ 31) :
    (BitVec.ofNat 32 a - BitVec.ofNat 32 b).msb = decide (a < b) := by
  rw [BitVec.msb_eq_decide, BitVec.toNat_sub, BitVec.toNat_ofNat, BitVec.toNat_ofNat]
  rw [decide_eq_decide]
  omega

/-! ## Fields -/

theorem toNat_low (w : Word) : (w &&& 0xFF).toNat = w.toNat % 2 ^ 8 := by
  rw [BitVec.toNat_and]
  exact Nat.and_two_pow_sub_one_eq_mod w.toNat 8

theorem toNat_rest (w : Word) : (w >>> 8).toNat = w.toNat / 2 ^ 8 := by
  rw [BitVec.toNat_ushiftRight, Nat.shiftRight_eq_div_pow]

theorem toNat_mask (w : Word) : (w &&& 0x00FFFFFF).toNat = w.toNat % 2 ^ 24 := by
  rw [BitVec.toNat_and]
  exact Nat.and_two_pow_sub_one_eq_mod w.toNat 24

/-- A small number below the bits of a word. -/
theorem toNat_joined {low : Nat} (small : low < 2 ^ 8) (high : Word) :
    (BitVec.ofNat 32 low ||| high <<< 8).toNat = 2 ^ 8 * (high.toNat % 2 ^ 24) + low := by
  have shifted : (high <<< 8).toNat = 2 ^ 8 * (high.toNat % 2 ^ 24) := by
    rw [BitVec.toNat_shiftLeft, Nat.shiftLeft_eq]
    omega
  have kept : (BitVec.ofNat 32 low).toNat = low := by
    rw [BitVec.toNat_ofNat]
    omega
  rw [BitVec.toNat_or, kept, shifted, Nat.or_comm, Nat.two_pow_add_eq_or_of_lt small]

/-- The fields of a word tell what it was joined from. -/
theorem joined_iff {low : Nat} (small : low < 2 ^ 8) (high w : Word) :
    w = BitVec.ofNat 32 low ||| high <<< 8 ↔ (w &&& 0xFF).toNat = low ∧ high &&& (0x00FFFFFF : Word) = w >>> 8 := by
  rw [← BitVec.toNat_inj, toNat_joined small, ← BitVec.toNat_inj, toNat_low, toNat_mask, toNat_rest]
  have bound := w.isLt
  omega

end Src32.Word
