import Src32.Machine.Word

namespace Src32

/-!
# Alignment

Addresses rounded up to a power of two.  Moving an address by a multiple of the
power moves the rounded address as far.
-/

namespace Align

/-- A power of two, as the programs test for one. -/
def Power (align : Word) : Prop := align ≠ 0 ∧ align &&& (align - 1) = 0

/-- The next multiple of a power of two. -/
def up (align x : Word) : Word := (x + (align - 1)) &&& ~~~(align - 1)

variable {align : Word}

theorem Power.pos (power : Power align) : 0 < align.toNat := by
  rcases Nat.eq_zero_or_pos align.toNat with zero | pos
  · exact absurd (BitVec.eq_of_toNat_eq zero) power.1
  · exact pos

theorem Power.pred (power : Power align) : (align - 1).toNat = align.toNat - 1 := by
  have pos := power.pos
  bv_omega

theorem Power.exists (power : Power align) : ∃ k, align.toNat = 2 ^ k ∧ k < 32 := by
  have pos := power.pos
  have masked := congrArg BitVec.toNat power.2
  rw [BitVec.toNat_and, power.pred] at masked
  obtain ⟨k, same⟩ := (Nat.and_sub_one_eq_zero_iff_isPowerOfTwo (Nat.pos_iff_ne_zero.mp pos)).mp masked
  refine ⟨k, same, ?_⟩
  have bound := align.isLt
  rw [same] at bound
  exact (Nat.pow_lt_pow_iff_right (by decide)).mp bound

/-- The bits below a power of two are the remainder. -/
theorem Power.mask (power : Power align) (x : Word) : (x &&& (align - 1)).toNat = x.toNat % align.toNat := by
  obtain ⟨k, same, _⟩ := power.exists
  rw [BitVec.toNat_and, power.pred, same]
  exact Nat.and_two_pow_sub_one_eq_mod x.toNat k

theorem Power.divides (power : Power align) : align.toNat ∣ 2 ^ 32 := by
  obtain ⟨k, same, small⟩ := power.exists
  rw [same]
  exact Nat.pow_dvd_pow 2 (Nat.le_of_lt small)

/-- A multiple of a power of two is one of a smaller power. -/
theorem Power.mask_le {small x : Word} (power : Power align) (smaller : Power small) (le : small.toNat ≤ align.toNat)
    (masked : x &&& (align - 1) = 0) : x &&& (small - 1) = 0 := by
  have zero := congrArg BitVec.toNat masked
  rw [power.mask] at zero
  obtain ⟨j, first, _⟩ := smaller.exists
  obtain ⟨k, second, _⟩ := power.exists
  rw [first, second] at le
  have divides : small.toNat ∣ align.toNat := by
    rw [first, second]
    exact Nat.pow_dvd_pow 2 ((Nat.pow_le_pow_iff_right (by decide)).mp le)
  refine BitVec.eq_of_toNat_eq ?_
  rw [smaller.mask]
  exact Nat.mod_eq_zero_of_dvd (Nat.dvd_trans divides (Nat.dvd_of_mod_eq_zero zero))

variable {shift : Word}

/-- A multiple of the power does not change the bits below it. -/
theorem Power.mask_add (power : Power align) (aligned : shift &&& (align - 1) = 0) (x : Word) :
    (x + shift) &&& (align - 1) = x &&& (align - 1) := by
  have zero := congrArg BitVec.toNat aligned
  rw [power.mask] at zero
  refine BitVec.eq_of_toNat_eq ?_
  rw [power.mask, power.mask, BitVec.toNat_add, Nat.mod_mod_of_dvd _ power.divides, Nat.add_mod]
  change (x.toNat % align.toNat + shift.toNat % align.toNat) % align.toNat = _
  rw [show shift.toNat % align.toNat = 0 from zero, Nat.add_zero, Nat.mod_mod]

theorem clear_eq (mask x : Word) : x &&& ~~~mask = x - (x &&& mask) := by
  have whole := Word.and_not_add_and x mask
  bv_omega

/-- Rounding up moves with the address. -/
theorem Power.up_add (power : Power align) (aligned : shift &&& (align - 1) = 0) (x : Word) :
    up align (x + shift) = up align x + shift := by
  unfold up
  have order : x + shift + (align - 1) = x + (align - 1) + shift := by
    rw [BitVec.add_assoc, BitVec.add_comm shift, ← BitVec.add_assoc]
  rw [order, clear_eq, clear_eq, power.mask_add aligned]
  bv_omega

/-- A rounded address is a multiple, so there is room for the bits below it. -/
theorem Power.up_room (power : Power align) (x : Word) : (up align x).toNat + (align - 1).toNat < 2 ^ 32 := by
  have low := power.mask (up align x)
  have clear : up align x &&& (align - 1) = 0 := by
    unfold up
    rw [BitVec.and_assoc, BitVec.and_comm (~~~(align - 1)), BitVec.and_not_self]
    exact BitVec.and_zero
  rw [clear] at low
  have pos := power.pos
  have pred := power.pred
  have limit := (up align x).isLt
  have multiple : align.toNat ∣ (up align x).toNat := Nat.dvd_of_mod_eq_zero low.symm
  have whole := power.divides
  have rest := Nat.dvd_sub whole multiple
  have le := Nat.le_of_dvd (by omega) rest
  omega

end Align
end Src32
