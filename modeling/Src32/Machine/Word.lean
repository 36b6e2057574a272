import Mathlib.Algebra.Order.Ring.Nat
import Mathlib.Data.List.Basic

namespace Src32

/-!
# Machine words

Every address, register and header field of the machine is a 32-bit word and
every memory cell a byte.  Arithmetic on them wraps, as it does in the C and
Rust sources, so the bounds the programs rely on have to be proved and are
never built into a type.
-/

/-- A 32-bit machine word. -/
abbrev Word := BitVec 32

/-- One byte of memory or of a file. -/
abbrev Byte := BitVec 8

/-- User code can never touch vectors, IRQC or CPU state at or above this. -/
def cpuReserved : Word := 0xFFFF0000

namespace Word

/-- The big-endian word of four bytes. -/
def ofBytes (b0 b1 b2 b3 : Byte) : Word :=
  b0.zeroExtend 32 <<< 24 ||| b1.zeroExtend 32 <<< 16 ||| b2.zeroExtend 32 <<< 8 ||| b3.zeroExtend 32

theorem add_zero (x : Word) : x + 0 = x := BitVec.add_zero x

/-- A word is the sum of its bits outside and inside a mask. -/
theorem and_not_add_and (y mask : Word) : (y &&& ~~~mask).toNat + (y &&& mask).toNat = y.toNat := by
  have apart : (y &&& ~~~mask) &&& (y &&& mask) = 0#32 := by
    have disjoint : ~~~mask &&& mask = 0#32 := BitVec.not_and_self mask
    rw [BitVec.and_assoc, ← BitVec.and_assoc (~~~mask), BitVec.and_comm (~~~mask) y, BitVec.and_assoc,
      disjoint, BitVec.and_zero, BitVec.and_zero]
  rw [← BitVec.toNat_add_of_and_eq_zero apart, BitVec.add_eq_or_of_and_eq_zero _ _ apart,
    ← BitVec.and_or_distrib_left, BitVec.not_or_self, BitVec.and_allOnes]

/-- The low bits of a word are its remainder. -/
theorem and_low (x : Word) (k : Nat) : (x &&& BitVec.ofNat 32 (2 ^ k - 1)).toNat = x.toNat % 2 ^ k := by
  have bound := x.isLt
  rw [BitVec.toNat_and, BitVec.toNat_ofNat]
  by_cases wide : 32 ≤ k
  · have larger : (2 : Nat) ^ 32 ≤ 2 ^ k := Nat.pow_le_pow_right (by decide) wide
    have ones : (2 ^ k - 1) % 2 ^ 32 = 2 ^ 32 - 1 := by
      obtain ⟨rest, rfl⟩ := Nat.exists_eq_add_of_le wide
      rw [Nat.pow_add]
      have positive : 0 < (2 : Nat) ^ rest := Nat.two_pow_pos rest
      omega
    rw [ones, Nat.and_two_pow_sub_one_eq_mod, Nat.mod_eq_of_lt bound, Nat.mod_eq_of_lt (Nat.lt_of_lt_of_le bound larger)]
  · have smaller : (2 : Nat) ^ k < 2 ^ 32 := Nat.pow_lt_pow_right (by decide) (by omega)
    rw [Nat.mod_eq_of_lt (show 2 ^ k - 1 < 2 ^ 32 by omega), Nat.and_two_pow_sub_one_eq_mod]

theorem and_low_eq_zero (x : Word) (k : Nat) : x &&& BitVec.ofNat 32 (2 ^ k - 1) = 0 ↔ x.toNat % 2 ^ k = 0 := by
  rw [← and_low]
  constructor
  · intro zero
    rw [zero]
    rfl
  · intro zero
    exact BitVec.eq_of_toNat_eq zero

/-- The bytes of a word make up the word. -/
theorem ofBytes_bytes (value : Word) :
    ofBytes ((value >>> 24).setWidth 8) ((value >>> 16).setWidth 8) ((value >>> 8).setWidth 8) (value.setWidth 8) =
      value := by
  unfold ofBytes
  apply BitVec.eq_of_getLsbD_eq
  intro n bound
  simp only [BitVec.getLsbD_or, BitVec.getLsbD_shiftLeft, BitVec.truncate_eq_setWidth, BitVec.getLsbD_setWidth,
    BitVec.getLsbD_ushiftRight]
  rcases (by omega : n < 8 ∨ 8 ≤ n ∧ n < 16 ∨ 16 ≤ n ∧ n < 24 ∨ 24 ≤ n) with first | ⟨least, most⟩ | ⟨least, most⟩ | last
  · grind
  · grind
  · grind
  · grind

end Word
end Src32
