import Src32.Machine.Word

namespace Src32

/-!
# Pages

Rounding of addresses to 4 KiB pages, with the masks the kernel uses.  Rounding
up wraps near the top of the address space.
-/

/-- `MM_PAGE`. -/
def mmPage : Word := 0x1000

/-- `MM_PAGE_MASK`. -/
def mmPageMask : Word := 0xFFF

namespace Page

/-- The start of the page of an address. -/
def down (x : Word) : Word := x &&& ~~~mmPageMask

/-- `page_up`: the next page start. -/
def up (x : Word) : Word := (x + mmPageMask) &&& ~~~mmPageMask

theorem offset_toNat (x : Word) : (x &&& mmPageMask).toNat = x.toNat % 4096 := Word.and_low x 12

theorem down_toNat (x : Word) : (down x).toNat + x.toNat % 4096 = x.toNat := by
  rw [← offset_toNat]
  exact Word.and_not_add_and x mmPageMask

theorem down_le (x : Word) : (down x).toNat ≤ x.toNat := by
  have whole := down_toNat x
  omega

theorem down_aligned (x : Word) : (down x).toNat % 4096 = 0 := by
  have whole := down_toNat x
  omega

theorem up_aligned (x : Word) : (up x).toNat % 4096 = 0 := down_aligned (x + mmPageMask)

/-- Rounding up below the last page. -/
theorem up_toNat {x : Word} (low : x.toNat ≤ 0xFFFFF000) :
    x.toNat ≤ (up x).toNat ∧ (up x).toNat < x.toNat + 4096 := by
  have whole := down_toNat (x + mmPageMask)
  have sum : (x + mmPageMask).toNat = x.toNat + 4095 := by
    unfold mmPageMask
    bv_omega
  change (up x).toNat + (x + mmPageMask).toNat % 4096 = (x + mmPageMask).toNat at whole
  omega

/-- Rounding up in the last page wraps to 0. -/
theorem up_wraps {x : Word} (high : 0xFFFFF000 < x.toNat) : up x = 0 := by
  have whole := down_toNat (x + mmPageMask)
  have sum : (x + mmPageMask).toNat = x.toNat + 4095 - 2 ^ 32 := by
    unfold mmPageMask
    bv_omega
  have bound := x.isLt
  change (up x).toNat + (x + mmPageMask).toNat % 4096 = (x + mmPageMask).toNat at whole
  refine BitVec.eq_of_toNat_eq ?_
  change (up x).toNat = 0
  omega

/-- A page start rounds up to itself. -/
theorem up_of_aligned {x : Word} (aligned : x.toNat % 4096 = 0) : up x = x := by
  have bound := x.isLt
  have near := up_toNat (show x.toNat ≤ 0xFFFFF000 by omega)
  have multiple := up_aligned x
  exact BitVec.eq_of_toNat_eq (by omega)

theorem aligned_iff (x : Word) : x &&& mmPageMask = 0 ↔ x.toNat % 4096 = 0 := Word.and_low_eq_zero x 12

/-- Both of two words are page starts. -/
theorem both_aligned {x y : Word} (masked : (x ||| y) &&& mmPageMask = 0) :
    x.toNat % 4096 = 0 ∧ y.toNat % 4096 = 0 := by
  have zero := (aligned_iff (x ||| y)).mp masked
  rw [BitVec.toNat_or, show (4096 : Nat) = 2 ^ 12 from rfl, Nat.or_mod_two_pow, Nat.or_eq_zero_iff] at zero
  exact zero

end Page
end Src32
