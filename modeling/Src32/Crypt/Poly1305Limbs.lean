import Src32.Crypt.Poly1305
import Src32.Machine.Bytes
import Mathlib.Data.Nat.ModEq
import Mathlib.Tactic.Ring

namespace Src32.Crypt

open Codecs ByteFields

/-!
# One block of Poly1305

A round of the loop multiplies modulo 2^130 - 5.  Every arithmetic that is exact on
results that fit computes it: the bounds on the limbs keep each result in its type.
-/

/-! ## What the RFC says -/

/-- 2^130 - 5. -/
def prime1305 : Nat := 2 ^ 130 - 5

/-- The number of a chunk with a 1 behind it. -/
def chunkValue (chunk : List Byte) : Nat := leNat (chunk ++ [1])

/-- The chunks of 16 bytes, the last may be shorter, evaluated at `r`. -/
def evaluate (r acc : Nat) (message : List Byte) : Nat :=
  if message.length = 0 then acc else evaluate r ((acc + chunkValue (message.take 16)) * r) (message.drop 16)
termination_by message.length
decreasing_by
  rw [List.length_drop]
  omega

/-- The first half of the key, clamped. -/
def clampedR (key : List Byte) : Nat := leNat (key.take 16) &&& 0x0ffffffc0ffffffc0ffffffc0fffffff

/-- The number of the tag. -/
def rfcTag (message key : List Byte) : Nat :=
  (evaluate (clampedR key) 0 message % prime1305 + leNat (key.drop 16)) % 2 ^ 128

/-! ## Arithmetic -/

/-- Results that fit are stored as they are. -/
structure Arithmetic.Exact {m : Type -> Type} [Monad m] (A : Arithmetic m) : Prop where
  w32 : ∀ x < 2 ^ 32, A.w32 x = pure x
  w64 : ∀ x < 2 ^ 64, A.w64 x = pure x

theorem wrapping_exact : wrapping.Exact := ⟨fun _ fits => Nat.mod_eq_of_lt fits, fun _ fits => Nat.mod_eq_of_lt fits⟩

theorem checking_exact : checking.Exact := ⟨fun _ fits => if_pos fits, fun _ fits => if_pos fits⟩

/-- Whatever exact arithmetic the code runs with, `x` is the result. -/
def Yields {α : Type} (code : (m : Type -> Type) -> [Monad m] -> Arithmetic m -> m α) (x : α) : Prop :=
  ∀ (m : Type -> Type) [Monad m] [LawfulMonad m] (A : Arithmetic m), A.Exact -> code m A = pure x

/-- The number of five limbs. -/
def Limbs.value (h : Limbs) : Nat := h.h0 + h.h1 * 2 ^ 26 + h.h2 * 2 ^ 52 + h.h3 * 2 ^ 78 + h.h4 * 2 ^ 104

/-! ## Limbs of byte strings -/

section Loads

variable (p : List Byte)

theorem byteAt_drop (i k : Nat) : byteAt (p.drop i) k = byteAt p (i + k) := by
  unfold byteAt
  rw [List.getElem?_drop]

theorem leNat_front : leNat p % 2 ^ 32 =
    (byteAt p 0).toNat + (byteAt p 1).toNat * 2 ^ 8 + (byteAt p 2).toNat * 2 ^ 16 + (byteAt p 3).toNat * 2 ^ 24 := by
  have small : ∀ b : Byte, b.toNat < 2 ^ 8 := fun b => b.isLt
  have none : (0 : Byte).toNat = 0 := rfl
  rcases p with _ | ⟨a, _ | ⟨b, _ | ⟨c, _ | ⟨d, rest⟩⟩⟩⟩
  · rfl
  · have first := small a
    change (a.toNat + 256 * 0) % 2 ^ 32 = a.toNat + (0 : Byte).toNat * 2 ^ 8 + (0 : Byte).toNat * 2 ^ 16 + (0 : Byte).toNat * 2 ^ 24
    simp only [none]
    omega
  · have first := small a
    have second := small b
    change (a.toNat + 256 * (b.toNat + 256 * 0)) % 2 ^ 32 =
      a.toNat + b.toNat * 2 ^ 8 + (0 : Byte).toNat * 2 ^ 16 + (0 : Byte).toNat * 2 ^ 24
    simp only [none]
    omega
  · have first := small a
    have second := small b
    have third := small c
    change (a.toNat + 256 * (b.toNat + 256 * (c.toNat + 256 * 0))) % 2 ^ 32 =
      a.toNat + b.toNat * 2 ^ 8 + c.toNat * 2 ^ 16 + (0 : Byte).toNat * 2 ^ 24
    simp only [none]
    omega
  · have first := small a
    have second := small b
    have third := small c
    have fourth := small d
    change (a.toNat + 256 * (b.toNat + 256 * (c.toNat + 256 * (d.toNat + 256 * leNat rest)))) % 2 ^ 32 =
      a.toNat + b.toNat * 2 ^ 8 + c.toNat * 2 ^ 16 + d.toNat * 2 ^ 24
    omega

/-- A load reads 32 bits of the string's number. -/
theorem load32_eq (i : Nat) : load32 p i = leNat p / 256 ^ i % 2 ^ 32 := by
  rw [← leNat_drop, leNat_front, byteAt_drop, byteAt_drop, byteAt_drop, byteAt_drop]
  unfold load32
  rw [Word.toNat_ofBytes]
  simp only [Nat.add_zero]
  omega

theorem mask26_eq (x : Nat) : x &&& mask26 = x % 2 ^ 26 := Nat.and_two_pow_sub_one_eq_mod x 26

/-- The five limbs of a number below 2^128. -/
theorem load32_limbs : load32 p 0 % 2 ^ 26 = leNat p % 2 ^ 26 ∧ load32 p 3 >>> 2 % 2 ^ 26 = leNat p / 2 ^ 26 % 2 ^ 26 ∧
    load32 p 6 >>> 4 % 2 ^ 26 = leNat p / 2 ^ 52 % 2 ^ 26 ∧ load32 p 9 >>> 6 % 2 ^ 26 = leNat p / 2 ^ 78 % 2 ^ 26 ∧
    load32 p 12 >>> 8 = leNat p / 2 ^ 104 % 2 ^ 24 := by
  simp only [load32_eq, Nat.shiftRight_eq_div_pow]
  generalize leNat p = n
  refine ⟨?_, ?_, ?_, ?_, ?_⟩ <;> omega

end Loads

/-! ## Bounds -/

/-- Between two blocks. -/
structure Carried (h : Limbs) : Prop where
  h0 : h.h0 < 2 ^ 26
  h1 : h.h1 < 2 ^ 26 + 64
  h2 : h.h2 < 2 ^ 26
  h3 : h.h3 < 2 ^ 26
  h4 : h.h4 < 2 ^ 26

/-- Behind the addition of a block. -/
structure Absorbed (h : Limbs) : Prop where
  h0 : h.h0 < 2 ^ 27 + 64
  h1 : h.h1 < 2 ^ 27 + 64
  h2 : h.h2 < 2 ^ 27 + 64
  h3 : h.h3 < 2 ^ 27 + 64
  h4 : h.h4 < 2 ^ 27 + 64

/-- Limbs of 26 bits. -/
structure Reduced (h : Limbs) : Prop where
  h0 : h.h0 < 2 ^ 26
  h1 : h.h1 < 2 ^ 26
  h2 : h.h2 < 2 ^ 26
  h3 : h.h3 < 2 ^ 26
  h4 : h.h4 < 2 ^ 26

/-- Sums of five products of a limb and one of 26 bits, or of five times that many. -/
structure Bounded (d : Products) : Prop where
  d0 : d.d0 < 2 ^ 58 - 2 ^ 32
  d1 : d.d1 < 2 ^ 58 - 2 ^ 32
  d2 : d.d2 < 2 ^ 58 - 2 ^ 32
  d3 : d.d3 < 2 ^ 58 - 2 ^ 32
  d4 : d.d4 < 2 ^ 55 + 2 ^ 54

def Products.value (d : Products) : Nat := d.d0 + d.d1 * 2 ^ 26 + d.d2 * 2 ^ 52 + d.d3 * 2 ^ 78 + d.d4 * 2 ^ 104

/-! ## One block -/

/-- A chunk and the 1 behind it, as a block and `hibit`. -/
theorem padded_value {chunk : List Byte} (most : chunk.length ≤ 16) :
    leNat (padded chunk).1 + (padded chunk).2 * 2 ^ 104 = chunkValue chunk ∧ leNat (padded chunk).1 < 2 ^ 128 ∧
      ((padded chunk).2 = 0 ∨ (padded chunk).2 = 2 ^ 24) := by
  have small := leNat_lt chunk
  have one : leNat [1] = 1 := rfl
  unfold padded chunkValue
  rw [leNat_append chunk [1], one, Nat.mul_one]
  by_cases short : chunk.length < 16
  · rw [if_pos short]
    have tail : leNat (1 :: List.replicate (15 - chunk.length) 0) = 1 := by
      change (1 : Byte).toNat + 256 * leNat (List.replicate (15 - chunk.length) 0) = 1
      rw [leNat_zeros]
      rfl
    have power : 256 ^ chunk.length ≤ 256 ^ 15 := Nat.pow_le_pow_right (by decide) (by omega)
    dsimp only
    rw [leNat_append, tail, Nat.mul_one]
    exact ⟨by omega, by omega, .inl rfl⟩
  · rw [if_neg short]
    have full : chunk.length = 16 := by omega
    rw [full] at small ⊢
    dsimp only
    rw [show (1 : Nat) <<< 24 = 2 ^ 24 by decide]
    exact ⟨by omega, by omega, .inr rfl⟩

theorem absorb_yields {h : Limbs} (carried : Carried h) {block : List Byte × Nat} (small : leNat block.1 < 2 ^ 128)
    (bit : block.2 = 0 ∨ block.2 = 2 ^ 24) :
    ∃ added, Yields (fun _ _ A => absorb A h block) added ∧ Absorbed added ∧
      added.value = h.value + (leNat block.1 + block.2 * 2 ^ 104) := by
  obtain ⟨b0, b1, b2, b3, b4⟩ := carried
  obtain ⟨l0, l1, l2, l3, l4⟩ := load32_limbs block.1
  have top : load32 block.1 12 >>> 8 ||| block.2 = load32 block.1 12 >>> 8 + block.2 := by
    rcases bit with none | set_
    · rw [none, Nat.or_zero, Nat.add_zero]
    · rw [set_, Nat.or_comm, Nat.add_comm, show (2 : Nat) ^ 24 = 1 <<< 24 by decide]
      refine (Nat.shiftLeft_add_eq_or_of_lt ?_ 1).symm
      rw [l4]
      exact Nat.mod_lt _ (by decide)
  refine ⟨⟨h.h0 + load32 block.1 0 % 2 ^ 26, h.h1 + load32 block.1 3 >>> 2 % 2 ^ 26, h.h2 + load32 block.1 6 >>> 4 % 2 ^ 26,
    h.h3 + load32 block.1 9 >>> 6 % 2 ^ 26, h.h4 + (load32 block.1 12 >>> 8 + block.2)⟩, ?_, ⟨?_, ?_, ?_, ?_, ?_⟩, ?_⟩
  · intro _ _ _ A exact_
    unfold absorb
    simp only [mask26_eq, top]
    rw [exact_.w32 _ (by omega), pure_bind, exact_.w32 _ (by omega), pure_bind, exact_.w32 _ (by omega), pure_bind,
      exact_.w32 _ (by omega), pure_bind, exact_.w32 _ (by omega), pure_bind]
  · dsimp only; omega
  · dsimp only; omega
  · dsimp only; omega
  · dsimp only; omega
  · dsimp only; omega
  · unfold Limbs.value
    dsimp only
    rw [l0, l1, l2, l3, l4]
    omega

/-- Five products. -/
theorem sum_products {a b c d e v w x y z M N : Nat} (ha : a < M) (hb : b < M) (hc : c < M) (hd : d < M) (he : e < M)
    (hv : v ≤ N) (hw : w ≤ N) (hx : x ≤ N) (hy : y ≤ N) (hz : z ≤ N) :
    a * v + b * w + c * x + d * y + e * z ≤ 5 * (M * N) := by
  have first := Nat.mul_le_mul ha.le hv
  have second := Nat.mul_le_mul hb.le hw
  have third := Nat.mul_le_mul hc.le hx
  have fourth := Nat.mul_le_mul hd.le hy
  have fifth := Nat.mul_le_mul he.le hz
  omega

theorem multiply_yields {h r : Limbs} (absorbed : Absorbed h) (reduced : Reduced r) :
    ∃ d, Yields (fun _ _ A => multiply A h r ⟨r.h1 * 5, r.h2 * 5, r.h3 * 5, r.h4 * 5⟩) d ∧ Bounded d ∧
      d.value ≡ h.value * r.value [MOD prime1305] := by
  obtain ⟨b0, b1, b2, b3, b4⟩ := absorbed
  obtain ⟨c0, c1, c2, c3, c4⟩ := reduced
  have wide0 : h.h0 * r.h0 + h.h1 * (r.h4 * 5) + h.h2 * (r.h3 * 5) + h.h3 * (r.h2 * 5) + h.h4 * (r.h1 * 5) ≤
      5 * ((2 ^ 27 + 64) * (5 * 2 ^ 26)) :=
    sum_products b0 b1 b2 b3 b4 (by omega) (by omega) (by omega) (by omega) (by omega)
  have wide1 : h.h0 * r.h1 + h.h1 * r.h0 + h.h2 * (r.h4 * 5) + h.h3 * (r.h3 * 5) + h.h4 * (r.h2 * 5) ≤
      5 * ((2 ^ 27 + 64) * (5 * 2 ^ 26)) :=
    sum_products b0 b1 b2 b3 b4 (by omega) (by omega) (by omega) (by omega) (by omega)
  have wide2 : h.h0 * r.h2 + h.h1 * r.h1 + h.h2 * r.h0 + h.h3 * (r.h4 * 5) + h.h4 * (r.h3 * 5) ≤
      5 * ((2 ^ 27 + 64) * (5 * 2 ^ 26)) :=
    sum_products b0 b1 b2 b3 b4 (by omega) (by omega) (by omega) (by omega) (by omega)
  have wide3 : h.h0 * r.h3 + h.h1 * r.h2 + h.h2 * r.h1 + h.h3 * r.h0 + h.h4 * (r.h4 * 5) ≤
      5 * ((2 ^ 27 + 64) * (5 * 2 ^ 26)) :=
    sum_products b0 b1 b2 b3 b4 (by omega) (by omega) (by omega) (by omega) (by omega)
  have wide4 : h.h0 * r.h4 + h.h1 * r.h3 + h.h2 * r.h2 + h.h3 * r.h1 + h.h4 * r.h0 ≤ 5 * ((2 ^ 27 + 64) * 2 ^ 26) :=
    sum_products b0 b1 b2 b3 b4 (by omega) (by omega) (by omega) (by omega) (by omega)
  refine ⟨⟨_, _, _, _, _⟩, ?_, ⟨lt_of_le_of_lt wide0 (by decide), lt_of_le_of_lt wide1 (by decide),
    lt_of_le_of_lt wide2 (by decide), lt_of_le_of_lt wide3 (by decide), lt_of_le_of_lt wide4 (by decide)⟩, ?_⟩
  · intro _ _ _ A exact_
    unfold multiply
    dsimp only
    rw [exact_.w64 _ (lt_of_le_of_lt wide0 (by decide)), pure_bind, exact_.w64 _ (lt_of_le_of_lt wide1 (by decide)), pure_bind,
      exact_.w64 _ (lt_of_le_of_lt wide2 (by decide)), pure_bind, exact_.w64 _ (lt_of_le_of_lt wide3 (by decide)), pure_bind,
      exact_.w64 _ (lt_of_le_of_lt wide4 (by decide)), pure_bind]
  · -- 2^130 is 5 modulo the prime, so what goes over the top comes back five times.
    have excess : h.value * r.value =
        (h.h0 * r.h0 + h.h1 * (r.h4 * 5) + h.h2 * (r.h3 * 5) + h.h3 * (r.h2 * 5) + h.h4 * (r.h1 * 5) +
          (h.h0 * r.h1 + h.h1 * r.h0 + h.h2 * (r.h4 * 5) + h.h3 * (r.h3 * 5) + h.h4 * (r.h2 * 5)) * 2 ^ 26 +
          (h.h0 * r.h2 + h.h1 * r.h1 + h.h2 * r.h0 + h.h3 * (r.h4 * 5) + h.h4 * (r.h3 * 5)) * 2 ^ 52 +
          (h.h0 * r.h3 + h.h1 * r.h2 + h.h2 * r.h1 + h.h3 * r.h0 + h.h4 * (r.h4 * 5)) * 2 ^ 78 +
          (h.h0 * r.h4 + h.h1 * r.h3 + h.h2 * r.h2 + h.h3 * r.h1 + h.h4 * r.h0) * 2 ^ 104) +
        prime1305 * (h.h1 * r.h4 + h.h2 * r.h3 + h.h3 * r.h2 + h.h4 * r.h1 +
          (h.h2 * r.h4 + h.h3 * r.h3 + h.h4 * r.h2) * 2 ^ 26 + (h.h3 * r.h4 + h.h4 * r.h3) * 2 ^ 52 +
          h.h4 * r.h4 * 2 ^ 78) := by
      unfold Limbs.value
      rw [show prime1305 = 1361129467683753853853498429727072845819 by decide]
      ring
    rw [excess]
    exact (Nat.add_mul_mod_self_left _ _ _).symm

theorem carry_yields {d : Products} (bounded : Bounded d) :
    ∃ h, Yields (fun _ _ A => carry A d) h ∧ Carried h ∧ h.value ≡ d.value [MOD prime1305] := by
  obtain ⟨b0, b1, b2, b3, b4⟩ := bounded
  obtain ⟨d0, d1, d2, d3, d4⟩ := d
  dsimp only at b0 b1 b2 b3 b4
  generalize e0 : d0 / 2 ^ 26 = c0
  generalize e1 : (d1 + c0) / 2 ^ 26 = c1
  generalize e2 : (d2 + c1) / 2 ^ 26 = c2
  generalize e3 : (d3 + c2) / 2 ^ 26 = c3
  generalize e4 : (d4 + c3) / 2 ^ 26 = c4
  have f4 : c4 < 2 ^ 29 + 2 ^ 28 + 2 ^ 7 := by omega
  generalize e5 : d0 % 2 ^ 26 + c4 * 5 = low
  have low32 : low < 2 ^ 32 := by omega
  have masked : ∀ x, x % 2 ^ 32 &&& mask26 = x % 2 ^ 26 := by
    intro x
    rw [mask26_eq]
    omega
  refine ⟨⟨low % 2 ^ 26, (d1 + c0) % 2 ^ 26 + low / 2 ^ 26, (d2 + c1) % 2 ^ 26, (d3 + c2) % 2 ^ 26, (d4 + c3) % 2 ^ 26⟩,
    ?_, ⟨?_, ?_, ?_, ?_, ?_⟩, ?_⟩
  · intro _ _ _ A exact_
    unfold carry
    simp only [Nat.shiftRight_eq_div_pow, masked, e0]
    rw [exact_.w32 c0 (by omega), pure_bind, exact_.w64 _ (by omega), pure_bind]
    simp only [e1]
    rw [exact_.w32 c1 (by omega), pure_bind, exact_.w64 _ (by omega), pure_bind]
    simp only [e2]
    rw [exact_.w32 c2 (by omega), pure_bind, exact_.w64 _ (by omega), pure_bind]
    simp only [e3]
    rw [exact_.w32 c3 (by omega), pure_bind, exact_.w64 _ (by omega), pure_bind]
    simp only [e4]
    rw [exact_.w32 c4 (by omega), pure_bind, exact_.w32 _ (by omega), pure_bind, e5, exact_.w32 low low32, pure_bind,
      exact_.w32 _ (by omega), pure_bind, mask26_eq]
  · exact Nat.mod_lt _ (by decide)
  · dsimp only; omega
  · exact Nat.mod_lt _ (by decide)
  · exact Nat.mod_lt _ (by decide)
  · exact Nat.mod_lt _ (by decide)
  · have excess : (Products.mk d0 d1 d2 d3 d4).value + 5 * c4 = (Limbs.mk (low % 2 ^ 26) ((d1 + c0) % 2 ^ 26 + low / 2 ^ 26)
        ((d2 + c1) % 2 ^ 26) ((d3 + c2) % 2 ^ 26) ((d4 + c3) % 2 ^ 26)).value + c4 * 2 ^ 130 := by
      unfold Products.value Limbs.value
      dsimp only
      omega
    have prime : c4 * 2 ^ 130 = 5 * c4 + prime1305 * c4 := by
      rw [show prime1305 = 2 ^ 130 - 5 from rfl]
      omega
    have exact_ : (Products.mk d0 d1 d2 d3 d4).value = (Limbs.mk (low % 2 ^ 26) ((d1 + c0) % 2 ^ 26 + low / 2 ^ 26)
        ((d2 + c1) % 2 ^ 26) ((d3 + c2) % 2 ^ 26) ((d4 + c3) % 2 ^ 26)).value + prime1305 * c4 := by omega
    rw [exact_]
    exact (Nat.add_mul_mod_self_left _ _ _).symm

/-! ## The message -/

theorem clampedKey_reduced (key : List Byte) : Reduced (clampedKey key) := by
  refine ⟨?_, ?_, ?_, ?_, ?_⟩
  · exact lt_of_le_of_lt Nat.and_le_right (by decide)
  · exact lt_of_le_of_lt Nat.and_le_right (by decide)
  · exact lt_of_le_of_lt Nat.and_le_right (by decide)
  · exact lt_of_le_of_lt Nat.and_le_right (by decide)
  · exact lt_of_le_of_lt Nat.and_le_right (by decide)

/-- A mask of fewer than 26 bits looks at no others. -/
theorem and_mod26 (x : Nat) {mask : Nat} (small : mask < 2 ^ 26) : x &&& mask = x % 2 ^ 26 &&& mask := by
  have below : x &&& mask < 2 ^ 26 := lt_of_le_of_lt Nat.and_le_right small
  calc x &&& mask = (x &&& mask) % 2 ^ 26 := (Nat.mod_eq_of_lt below).symm
    _ = x % 2 ^ 26 &&& mask % 2 ^ 26 := Nat.and_mod_two_pow
    _ = x % 2 ^ 26 &&& mask := by rw [Nat.mod_eq_of_lt small]

/-- The limbs of r are those of the clamped half of the key. -/
theorem clampedKey_value (key : List Byte) : (clampedKey key).value = clampedR key := by
  have half : leNat (key.take 16) = leNat key % 2 ^ 128 := by
    have whole := leNat_append (key.take 16) (key.drop 16)
    rw [List.take_append_drop] at whole
    by_cases long : 16 ≤ key.length
    · have length : (key.take 16).length = 16 := by
        rw [List.length_take]
        omega
      have small := leNat_lt (key.take 16)
      rw [length] at whole small
      omega
    · have same : key.take 16 = key := List.take_of_length_le (by omega)
      have small := leNat_lt key
      have power : 256 ^ key.length ≤ 256 ^ 16 := Nat.pow_le_pow_right (by decide) (by omega)
      rw [same]
      omega
  obtain ⟨l0, l1, l2, l3, l4⟩ := load32_limbs key
  have limb : ∀ k mask, mask = 0x0ffffffc0ffffffc0ffffffc0fffffff / 2 ^ k % 2 ^ 26 ->
      clampedR key / 2 ^ k % 2 ^ 26 = leNat key % 2 ^ 128 / 2 ^ k % 2 ^ 26 &&& mask := by
    intro k mask own
    unfold clampedR
    rw [half, Nat.and_div_two_pow, Nat.and_mod_two_pow, ← own]
  have m0 := limb 0 0x3ffffff (by decide)
  have m1 := limb 26 0x3ffff03 (by decide)
  have m2 := limb 52 0x3ffc0ff (by decide)
  have m3 := limb 78 0x3f03fff (by decide)
  have m4 := limb 104 0x00fffff (by decide)
  have below : clampedR key < 2 ^ 128 := lt_of_le_of_lt Nat.and_le_right (by decide)
  have r0 : (clampedKey key).h0 = clampedR key / 2 ^ 0 % 2 ^ 26 := by
    change load32 key 0 &&& 0x3ffffff = _
    rw [and_mod26 _ (by decide), l0, m0]
    congr 1
    omega
  have r1 : (clampedKey key).h1 = clampedR key / 2 ^ 26 % 2 ^ 26 := by
    change load32 key 3 >>> 2 &&& 0x3ffff03 = _
    rw [and_mod26 _ (by decide), l1, m1]
    congr 1
    omega
  have r2 : (clampedKey key).h2 = clampedR key / 2 ^ 52 % 2 ^ 26 := by
    change load32 key 6 >>> 4 &&& 0x3ffc0ff = _
    rw [and_mod26 _ (by decide), l2, m2]
    congr 1
    omega
  have r3 : (clampedKey key).h3 = clampedR key / 2 ^ 78 % 2 ^ 26 := by
    change load32 key 9 >>> 6 &&& 0x3f03fff = _
    rw [and_mod26 _ (by decide), l3, m3]
    congr 1
    omega
  have r4 : (clampedKey key).h4 = clampedR key / 2 ^ 104 % 2 ^ 26 := by
    change load32 key 12 >>> 8 &&& 0x00fffff = _
    rw [and_mod26 _ (by decide), l4, m4]
    congr 1
    omega
  unfold Limbs.value
  rw [r0, r1, r2, r3, r4]
  omega

/-- One round of the loop. -/
theorem block_yields {h r : Limbs} (carried : Carried h) (reduced : Reduced r) {chunk : List Byte} (most : chunk.length ≤ 16) :
    ∃ added d next, Yields (fun _ _ A => absorb A h (padded chunk)) added ∧
      Yields (fun _ _ A => multiply A added r ⟨r.h1 * 5, r.h2 * 5, r.h3 * 5, r.h4 * 5⟩) d ∧
      Yields (fun _ _ A => carry A d) next ∧ Carried next ∧
      next.value ≡ (h.value + chunkValue chunk) * r.value [MOD prime1305] := by
  obtain ⟨block, small, bit⟩ := padded_value most
  obtain ⟨added, absorbs, absorbed, sum⟩ := absorb_yields carried small bit
  obtain ⟨d, multiplies, bounded, product⟩ := multiply_yields absorbed reduced
  obtain ⟨next, carries, carriedNext, same⟩ := carry_yields bounded
  refine ⟨added, d, next, absorbs, multiplies, carries, carriedNext, same.trans ?_⟩
  rw [← block, ← sum]
  exact product

end Src32.Crypt
