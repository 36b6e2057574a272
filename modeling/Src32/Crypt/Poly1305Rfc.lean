import Src32.Crypt.Poly1305Limbs

namespace Src32.Crypt

open Codecs ByteFields

/-!
# Poly1305 is the RFC's

The tag is the message's polynomial at the clamped key modulo 2^130 - 5, and the
second half of the key added.  Every arithmetic that is exact on results that fit
computes it, so the wrapping one of C does, and the checking one never fails.
-/

/-! ## The loop -/

theorem blocks_yields {r : Limbs} (reduced : Reduced r) (message : List Byte) {h : Limbs} (carried : Carried h) {acc : Nat}
    (same : h.value ≡ acc [MOD prime1305]) :
    ∃ last, Yields (fun _ _ A => blocks A r ⟨r.h1 * 5, r.h2 * 5, r.h3 * 5, r.h4 * 5⟩ h message) last ∧ Carried last ∧
      last.value ≡ evaluate r.value acc message [MOD prime1305] := by
  fun_induction evaluate r.value acc message generalizing h with
  | case1 acc message done =>
    refine ⟨h, fun m _ _ A _ => ?_, carried, same⟩
    show blocks A r _ h message = pure h
    unfold blocks
    rw [if_pos done]
  | case2 acc message more ih =>
    have most : (message.take 16).length ≤ 16 := List.length_take_le ..
    obtain ⟨added, d, next, absorbs, multiplies, carries, carriedNext, sameNext⟩ := block_yields carried reduced most
    have accumulated : next.value ≡ (acc + chunkValue (message.take 16)) * r.value [MOD prime1305] :=
      sameNext.trans ((same.add_right _).mul_right _)
    obtain ⟨last, runs, carriedLast, sameLast⟩ := ih carriedNext accumulated
    refine ⟨last, fun m _ _ A exact_ => ?_, carriedLast, sameLast⟩
    show blocks A r _ h message = pure last
    unfold blocks
    have first : absorb A h (padded (message.take 16)) = pure added := absorbs m A exact_
    have second : multiply A added r _ = pure d := multiplies m A exact_
    have third : carry A d = pure next := carries m A exact_
    rw [if_neg more, first, pure_bind, second, pure_bind, third, pure_bind]
    exact runs m A exact_

/-! ## The tag -/

theorem reduce_yields {h : Limbs} (carried : Carried h) :
    ∃ reduced, Yields (fun _ _ A => reduce A h) reduced ∧ Reduced reduced ∧ reduced.value ≡ h.value [MOD prime1305] := by
  obtain ⟨b0, b1, b2, b3, b4⟩ := carried
  obtain ⟨h0, h1, h2, h3, h4⟩ := h
  dsimp only at b0 b1 b2 b3 b4
  generalize e1 : h1 / 2 ^ 26 = c1
  generalize e2 : (h2 + c1) / 2 ^ 26 = c2
  generalize e3 : (h3 + c2) / 2 ^ 26 = c3
  generalize e4 : (h4 + c3) / 2 ^ 26 = c4
  generalize e0 : (h0 + c4 * 5) / 2 ^ 26 = c0
  have f1 : c1 ≤ 1 := by omega
  have f2 : c2 ≤ c1 := by omega
  have f3 : c3 ≤ c2 := by omega
  have f4 : c4 ≤ c3 := by omega
  have f0 : c0 ≤ c4 := by omega
  refine ⟨⟨(h0 + c4 * 5) % 2 ^ 26, h1 % 2 ^ 26 + c0, (h2 + c1) % 2 ^ 26, (h3 + c2) % 2 ^ 26, (h4 + c3) % 2 ^ 26⟩,
    ?_, ⟨?_, ?_, ?_, ?_, ?_⟩, ?_⟩
  · intro _ _ _ A exact_
    unfold reduce
    simp only [Nat.shiftRight_eq_div_pow, mask26_eq, e1]
    rw [exact_.w32 _ (by omega), pure_bind]
    simp only [e2]
    rw [exact_.w32 _ (by omega), pure_bind]
    simp only [e3]
    rw [exact_.w32 _ (by omega), pure_bind]
    simp only [e4]
    rw [exact_.w32 _ (by omega), pure_bind, exact_.w32 _ (by omega), pure_bind]
    simp only [e0]
    rw [exact_.w32 _ (by omega), pure_bind]
  · exact Nat.mod_lt _ (by decide)
  · -- A carry from the top has come all the way from h1, which is small then.
    dsimp only
    omega
  · exact Nat.mod_lt _ (by decide)
  · exact Nat.mod_lt _ (by decide)
  · exact Nat.mod_lt _ (by decide)
  · have excess : (Limbs.mk h0 h1 h2 h3 h4).value = (Limbs.mk ((h0 + c4 * 5) % 2 ^ 26) (h1 % 2 ^ 26 + c0) ((h2 + c1) % 2 ^ 26)
        ((h3 + c2) % 2 ^ 26) ((h4 + c3) % 2 ^ 26)).value + prime1305 * c4 := by
      rw [show prime1305 = 2 ^ 130 - 5 from rfl]
      unfold Limbs.value
      dsimp only
      omega
    rw [excess]
    exact (Nat.add_mul_mod_self_left _ _ _).symm

theorem select_word {x g : Nat} (small : x < 2 ^ 32) : x &&& (2 ^ 32 - 1) ||| g &&& 0 = x := by
  rw [Nat.and_zero, Nat.or_zero, Nat.and_two_pow_sub_one_eq_mod]
  exact Nat.mod_eq_of_lt small

theorem select_other {x g : Nat} (small : g < 2 ^ 32) : x &&& 0 ||| g &&& (2 ^ 32 - 1) = g := by
  rw [Nat.and_zero, Nat.zero_or, Nat.and_two_pow_sub_one_eq_mod]
  exact Nat.mod_eq_of_lt small

theorem select_yields {h : Limbs} (reduced : Reduced h) :
    ∃ selected, Yields (fun _ _ A => select A h) selected ∧ Reduced selected ∧ selected.value = h.value % prime1305 := by
  obtain ⟨b0, b1, b2, b3, b4⟩ := reduced
  obtain ⟨h0, h1, h2, h3, h4⟩ := h
  dsimp only at b0 b1 b2 b3 b4
  generalize e0 : (h0 + 5) / 2 ^ 26 = c0
  generalize e1 : (h1 + c0) / 2 ^ 26 = c1
  generalize e2 : (h2 + c1) / 2 ^ 26 = c2
  generalize e3 : (h3 + c2) / 2 ^ 26 = c3
  have f0 : c0 ≤ 1 := by omega
  have f1 : c1 ≤ 1 := by omega
  have f2 : c2 ≤ 1 := by omega
  have f3 : c3 ≤ 1 := by omega
  have prime : prime1305 = 2 ^ 130 - 5 := rfl
  have yields (g mask : Nat) (top : (h4 + c3 + (2 ^ 32 - 2 ^ 26)) % 2 ^ 32 = g)
      (sign : (g / 2 ^ 31 + (2 ^ 32 - 1)) % 2 ^ 32 = mask) :
      Yields (fun _ _ A => select A ⟨h0, h1, h2, h3, h4⟩)
        ⟨h0 &&& (2 ^ 32 - 1 - mask) ||| (h0 + 5) % 2 ^ 26 &&& mask, h1 &&& (2 ^ 32 - 1 - mask) ||| (h1 + c0) % 2 ^ 26 &&& mask,
          h2 &&& (2 ^ 32 - 1 - mask) ||| (h2 + c1) % 2 ^ 26 &&& mask, h3 &&& (2 ^ 32 - 1 - mask) ||| (h3 + c2) % 2 ^ 26 &&& mask,
          h4 &&& (2 ^ 32 - 1 - mask) ||| g &&& mask⟩ := by
    intro _ _ _ A exact_
    unfold select
    simp only [Nat.shiftRight_eq_div_pow, mask26_eq]
    rw [exact_.w32 _ (by omega), pure_bind]
    simp only [e0]
    rw [exact_.w32 _ (by omega), pure_bind]
    simp only [e1]
    rw [exact_.w32 _ (by omega), pure_bind]
    simp only [e2]
    rw [exact_.w32 _ (by omega), pure_bind]
    simp only [e3]
    rw [exact_.w32 _ (by omega), pure_bind]
    simp only [top, sign]
  by_cases borrow : h4 + c3 < 2 ^ 26
  · refine ⟨⟨h0, h1, h2, h3, h4⟩, ?_, ⟨b0, b1, b2, b3, b4⟩, ?_⟩
    · have run := yields _ 0 rfl (by omega)
      rw [Nat.sub_zero, select_word (by omega), select_word (by omega), select_word (by omega), select_word (by omega),
        select_word (by omega)] at run
      exact run
    · refine (Nat.mod_eq_of_lt ?_).symm
      rw [prime]
      unfold Limbs.value
      dsimp only
      omega
  · have top : (h4 + c3 + (2 ^ 32 - 2 ^ 26)) % 2 ^ 32 = h4 + c3 - 2 ^ 26 := by omega
    refine ⟨⟨(h0 + 5) % 2 ^ 26, (h1 + c0) % 2 ^ 26, (h2 + c1) % 2 ^ 26, (h3 + c2) % 2 ^ 26, h4 + c3 - 2 ^ 26⟩, ?_,
      ⟨Nat.mod_lt _ (by decide), Nat.mod_lt _ (by decide), Nat.mod_lt _ (by decide), Nat.mod_lt _ (by decide), ?_⟩, ?_⟩
    · have run := yields _ (2 ^ 32 - 1) top (by omega)
      rw [Nat.sub_self, select_other (by omega), select_other (by omega), select_other (by omega), select_other (by omega),
        select_other (by omega)] at run
      exact run
    · dsimp only
      omega
    · have excess : (Limbs.mk h0 h1 h2 h3 h4).value = (Limbs.mk ((h0 + 5) % 2 ^ 26) ((h1 + c0) % 2 ^ 26) ((h2 + c1) % 2 ^ 26)
          ((h3 + c2) % 2 ^ 26) (h4 + c3 - 2 ^ 26)).value + prime1305 := by
        rw [prime]
        unfold Limbs.value
        dsimp only
        omega
      have small : (Limbs.mk ((h0 + 5) % 2 ^ 26) ((h1 + c0) % 2 ^ 26) ((h2 + c1) % 2 ^ 26) ((h3 + c2) % 2 ^ 26)
          (h4 + c3 - 2 ^ 26)).value < prime1305 := by
        rw [prime]
        unfold Limbs.value
        dsimp only
        omega
      rw [excess, Nat.add_mod_right, Nat.mod_eq_of_lt small]

/-- A limb's low bits next to the limb above it. -/
theorem packed {low high k : Nat} (small : low < 2 ^ k) : low ||| high <<< k = low + high * 2 ^ k := by
  rw [Nat.or_comm, ← Nat.shiftLeft_add_eq_or_of_lt small, Nat.shiftLeft_eq, Nat.add_comm]

theorem store32_value (v : Nat) : leNat (store32 (v % 2 ^ 32)) = v % 2 ^ 32 :=
  leNat_leBytes (Nat.mod_lt v (by decide))

theorem store32_length (v : Nat) : (store32 v).length = 4 := leBytes_length 4 v

/-- A number of 128 bits out of words of 32. -/
def words (w0 w1 w2 w3 : Nat) : Nat := w0 + 2 ^ 32 * (w1 + 2 ^ 32 * (w2 + 2 ^ 32 * w3))

/-- The words of a number. -/
theorem words_eq (n : Nat) : words (n % 2 ^ 32) (n / 2 ^ 32 % 2 ^ 32) (n / 2 ^ 64 % 2 ^ 32) (n / 2 ^ 96 % 2 ^ 32) = n % 2 ^ 128 := by
  unfold words
  omega

/-- Limbs of 26 bits as words of 32. -/
theorem Reduced.words {h : Limbs} (reduced : Reduced h) :
    Crypt.words ((h.h0 + h.h1 * 2 ^ 26) % 2 ^ 32) ((h.h1 / 2 ^ 6 + h.h2 * 2 ^ 20) % 2 ^ 32)
      ((h.h2 / 2 ^ 12 + h.h3 * 2 ^ 14) % 2 ^ 32) ((h.h3 / 2 ^ 18 + h.h4 * 2 ^ 8) % 2 ^ 32) = h.value % 2 ^ 128 := by
  obtain ⟨b0, b1, b2, b3, b4⟩ := reduced
  have first : h.value % 2 ^ 32 = (h.h0 + h.h1 * 2 ^ 26) % 2 ^ 32 := by
    unfold Limbs.value
    omega
  have second : h.value / 2 ^ 32 % 2 ^ 32 = (h.h1 / 2 ^ 6 + h.h2 * 2 ^ 20) % 2 ^ 32 := by
    unfold Limbs.value
    omega
  have third : h.value / 2 ^ 64 % 2 ^ 32 = (h.h2 / 2 ^ 12 + h.h3 * 2 ^ 14) % 2 ^ 32 := by
    unfold Limbs.value
    omega
  have fourth : h.value / 2 ^ 96 % 2 ^ 32 = (h.h3 / 2 ^ 18 + h.h4 * 2 ^ 8) % 2 ^ 32 := by
    unfold Limbs.value
    omega
  rw [← words_eq h.value, first, second, third, fourth]

/-- Word by word with carries. -/
theorem words_add {u0 u1 u2 u3 w0 w1 w2 w3 f0 f1 f2 f3 : Nat} (e0 : u0 + w0 = f0) (e1 : u1 + w1 + f0 / 2 ^ 32 = f1)
    (e2 : u2 + w2 + f1 / 2 ^ 32 = f2) (e3 : u3 + w3 + f2 / 2 ^ 32 = f3) :
    words (f0 % 2 ^ 32) (f1 % 2 ^ 32) (f2 % 2 ^ 32) (f3 % 2 ^ 32) = (words u0 u1 u2 u3 + words w0 w1 w2 w3) % 2 ^ 128 := by
  have sum : words u0 u1 u2 u3 + words w0 w1 w2 w3 = words (f0 % 2 ^ 32) (f1 % 2 ^ 32) (f2 % 2 ^ 32) f3 := by
    unfold words
    omega
  rw [sum]
  unfold words
  omega

theorem addPad_yields {h : Limbs} (reduced : Reduced h) (key : List Byte) (long : key.length = 32) :
    ∃ tag, Yields (fun _ _ A => addPad A h key) tag ∧ tag.length = tagSize ∧
      leNat tag = (h.value + leNat (key.drop 16)) % 2 ^ 128 := by
  have limbs := reduced.words
  obtain ⟨b0, b1, b2, b3, b4⟩ := reduced
  have pad : words (load32 key 16) (load32 key 20) (load32 key 24) (load32 key 28) = leNat (key.drop 16) := by
    have whole := leNat_lt key
    rw [long] at whole
    have small : leNat key / 256 ^ 16 < 2 ^ 128 := Nat.div_lt_of_lt_mul whole
    rw [leNat_drop, ← Nat.mod_eq_of_lt small, ← words_eq, load32_eq, load32_eq, load32_eq, load32_eq, Nat.div_div_eq_div_mul,
      Nat.div_div_eq_div_mul, Nat.div_div_eq_div_mul, show (256 : Nat) ^ 16 * 2 ^ 32 = 256 ^ 20 by decide,
      show (256 : Nat) ^ 16 * 2 ^ 64 = 256 ^ 24 by decide, show (256 : Nat) ^ 16 * 2 ^ 96 = 256 ^ 28 by decide]
  have w0 : load32 key 16 < 2 ^ 32 := BitVec.isLt _
  have w1 : load32 key 20 < 2 ^ 32 := BitVec.isLt _
  have w2 : load32 key 24 < 2 ^ 32 := BitVec.isLt _
  have w3 : load32 key 28 < 2 ^ 32 := BitVec.isLt _
  have and32 : ∀ x, x &&& 0xffffffff = x % 2 ^ 32 := fun x => Nat.and_two_pow_sub_one_eq_mod x 32
  have p0 : h.h0 ||| h.h1 <<< 26 = h.h0 + h.h1 * 2 ^ 26 := packed b0
  have p1 : h.h1 / 2 ^ 6 ||| h.h2 <<< 20 = h.h1 / 2 ^ 6 + h.h2 * 2 ^ 20 := packed (by omega)
  have p2 : h.h2 / 2 ^ 12 ||| h.h3 <<< 14 = h.h2 / 2 ^ 12 + h.h3 * 2 ^ 14 := packed (by omega)
  have p3 : h.h3 / 2 ^ 18 ||| h.h4 <<< 8 = h.h3 / 2 ^ 18 + h.h4 * 2 ^ 8 := packed (by omega)
  have v0 : h.h0 + h.h1 * 2 ^ 26 < 2 ^ 64 := by omega
  have v1 : h.h1 / 2 ^ 6 + h.h2 * 2 ^ 20 < 2 ^ 64 := by omega
  have v2 : h.h2 / 2 ^ 12 + h.h3 * 2 ^ 14 < 2 ^ 64 := by omega
  have v3 : h.h3 / 2 ^ 18 + h.h4 * 2 ^ 8 < 2 ^ 64 := by omega
  clear b0 b1 b2 b3 b4
  generalize h.h0 + h.h1 * 2 ^ 26 = u0 at *
  generalize h.h1 / 2 ^ 6 + h.h2 * 2 ^ 20 = u1 at *
  generalize h.h2 / 2 ^ 12 + h.h3 * 2 ^ 14 = u2 at *
  generalize h.h3 / 2 ^ 18 + h.h4 * 2 ^ 8 = u3 at *
  generalize e0 : u0 % 2 ^ 32 + load32 key 16 = f0
  generalize e1 : u1 % 2 ^ 32 + load32 key 20 + f0 / 2 ^ 32 = f1
  generalize e2 : u2 % 2 ^ 32 + load32 key 24 + f1 / 2 ^ 32 = f2
  generalize e3 : u3 % 2 ^ 32 + load32 key 28 + f2 / 2 ^ 32 = f3
  have s0 : f0 < 2 ^ 33 := by omega
  have s1 : f1 < 2 ^ 33 + 2 := by omega
  have s2 : f2 < 2 ^ 33 + 2 := by omega
  have s3 : f3 < 2 ^ 33 + 2 := by omega
  refine ⟨store32 (f0 % 2 ^ 32) ++ store32 (f1 % 2 ^ 32) ++ store32 (f2 % 2 ^ 32) ++ store32 (f3 % 2 ^ 32), ?_, ?_, ?_⟩
  · intro _ _ _ A exact_
    unfold addPad
    simp only [Nat.shiftRight_eq_div_pow, and32, p0, p1, p2, p3]
    rw [exact_.w64 _ v0, pure_bind, e0, exact_.w64 _ (by omega), pure_bind, exact_.w64 _ v1, pure_bind, e1,
      exact_.w64 _ (by omega), pure_bind, exact_.w64 _ v2, pure_bind, e2, exact_.w64 _ (by omega), pure_bind,
      exact_.w64 _ v3, pure_bind, e3, exact_.w64 _ (by omega), pure_bind]
  · rw [List.length_append, List.length_append, List.length_append, store32_length, store32_length, store32_length,
      store32_length]
    rfl
  · have packedWords : leNat (store32 (f0 % 2 ^ 32) ++ store32 (f1 % 2 ^ 32) ++ store32 (f2 % 2 ^ 32) ++ store32 (f3 % 2 ^ 32)) =
        words (f0 % 2 ^ 32) (f1 % 2 ^ 32) (f2 % 2 ^ 32) (f3 % 2 ^ 32) := by
      rw [List.append_assoc, List.append_assoc, leNat_append, leNat_append, leNat_append, store32_length, store32_length,
        store32_length, store32_value, store32_value, store32_value, store32_value]
      rfl
    rw [packedWords, words_add e0 e1 e2 e3, limbs, pad, Nat.mod_add_mod]

/-- The authenticator computes the tag of the RFC, whatever exact arithmetic it runs
with. -/
theorem poly1305_yields (message key : List Byte) (long : key.length = 32) :
    ∃ tag, Yields (fun _ _ A => poly1305Auth A message key) tag ∧ tag.length = tagSize ∧ leNat tag = rfcTag message key := by
  have reducedR := clampedKey_reduced key
  have zero : Carried ⟨0, 0, 0, 0, 0⟩ := ⟨by decide, by decide, by decide, by decide, by decide⟩
  obtain ⟨last, runs, carried, sum⟩ := blocks_yields reducedR message zero (show _ ≡ 0 [MOD prime1305] from rfl)
  obtain ⟨reduced, reduces, small, sameReduced⟩ := reduce_yields carried
  obtain ⟨selected, selects, smallSelected, value⟩ := select_yields small
  obtain ⟨tag, adds, length, number⟩ := addPad_yields smallSelected key long
  refine ⟨tag, fun m _ _ A exact_ => ?_, length, ?_⟩
  · have s : multiples A (clampedKey key) = pure ⟨(clampedKey key).h1 * 5, (clampedKey key).h2 * 5, (clampedKey key).h3 * 5,
        (clampedKey key).h4 * 5⟩ := by
      obtain ⟨r0, r1, r2, r3, r4⟩ := reducedR
      unfold multiples
      rw [exact_.w32 _ (by omega), pure_bind, exact_.w32 _ (by omega), pure_bind, exact_.w32 _ (by omega), pure_bind,
        exact_.w32 _ (by omega), pure_bind]
    unfold poly1305Auth
    dsimp only
    have first : blocks A (clampedKey key) _ ⟨0, 0, 0, 0, 0⟩ message = pure last := runs m A exact_
    have second : reduce A last = pure reduced := reduces m A exact_
    have third : select A reduced = pure selected := selects m A exact_
    rw [s, pure_bind, first, pure_bind, second, pure_bind, third, pure_bind]
    exact adds m A exact_
  · have same : reduced.value % prime1305 = evaluate (clampedR key) 0 message % prime1305 := by
      rw [← clampedKey_value]
      exact sameReduced.trans sum
    rw [number, value, same]
    rfl

/-! ## Verification -/

/-- Differences that are collected are all of them. -/
theorem foldl_or_eq_zero {difference : Nat -> Word} (indices : List Nat) (start : Word) :
    indices.foldl (fun diff i => diff ||| difference i) start = 0 ↔ start = 0 ∧ ∀ i ∈ indices, difference i = 0 := by
  induction indices generalizing start with
  | nil => simp
  | cons i rest ih =>
    rw [List.foldl_cons, ih]
    have both : start ||| difference i = 0 ↔ start = 0 ∧ difference i = 0 := BitVec.or_eq_zero_iff
    rw [both, List.forall_mem_cons, and_assoc]

theorem setWidth_xor_eq_zero {a b : Byte} : (a ^^^ b).setWidth 32 = 0 ↔ a = b := by
  constructor
  · intro none
    have low : ((a ^^^ b).setWidth 32).setWidth 8 = a ^^^ b := BitVec.setWidth_setWidth_of_le _ (by decide)
    rw [none] at low
    exact BitVec.xor_eq_zero_iff.mp low.symm
  · intro same
    rw [same, BitVec.xor_self]
    rfl

/-- The loop of the verification finds every difference of two tags. -/
theorem difference_eq_zero {expected tag : List Byte} (length : expected.length = tagSize) (size : tag.length = tagSize) :
    difference expected tag = 0 ↔ expected = tag := by
  unfold difference
  rw [foldl_or_eq_zero]
  simp only [setWidth_xor_eq_zero, List.mem_range, true_and]
  constructor
  · intro same
    refine List.ext_getElem (length.trans size.symm) fun i below behind => ?_
    have here := same i (by omega)
    unfold byteAt at here
    rw [List.getElem?_eq_getElem below, List.getElem?_eq_getElem behind] at here
    exact here
  · intro same i _
    rw [same]

/-- The authenticator's tag is the RFC's, no intermediate result loses a bit, and the
verification accepts that tag and no other. -/
theorem poly1305_is_rfc (message key : List Byte) (srcNull : Bool) (full : key.length = 32)
    (readable : message.length ≠ 0 -> srcNull = false) :
    (∀ capacity ≥ tagSize, ∃ tag, cptPoly1305Auth message key srcNull false false (some capacity) = ⟨.ok, tagSize, tag⟩ ∧
        tag.length = tagSize ∧ leNat tag = rfcTag message key ∧ poly1305Auth checking message key = some tag) ∧
      (∀ tag, tag.length = tagSize ->
        (cptPoly1305Verify tag message key false srcNull false = .ok ↔ leNat tag = rfcTag message key)) := by
  obtain ⟨expected, yields, length, number⟩ := poly1305_yields message key full
  have wraps : poly1305Auth wrapping message key = expected := yields Id wrapping wrapping_exact
  have checks : poly1305Auth checking message key = some expected := yields Option checking checking_exact
  constructor
  · intro capacity room
    refine ⟨expected, ?_, length, number, checks⟩
    have valid : ¬(false = true ∨ (message.length ≠ 0 ∧ srcNull = true) ∨ (capacity ≠ 0 ∧ false = true)) := by
      rintro (bad | ⟨some_, null⟩ | ⟨_, bad⟩)
      · cases bad
      · rw [readable some_] at null
        cases null
      · cases bad
    unfold cptPoly1305Auth
    dsimp only
    rw [if_neg valid, if_neg (Nat.not_lt.mpr room), wraps]
  · intro tag size
    have valid : ¬(false = true ∨ false = true ∨ (message.length ≠ 0 ∧ srcNull = true)) := by
      rintro (bad | bad | ⟨some_, null⟩)
      · cases bad
      · cases bad
      · rw [readable some_] at null
        cases null
    unfold cptPoly1305Verify
    rw [if_neg valid, wraps, ← number]
    by_cases same : expected = tag
    · rw [if_pos ((difference_eq_zero length size).mpr same), same]
      exact iff_of_true rfl rfl
    · rw [if_neg fun none => same ((difference_eq_zero length size).mp none)]
      refine iff_of_false nofun fun equal => same (leNat_injective (length.trans size.symm) equal.symm)

/-- One byte under the key 1, 2, …, 32. -/
theorem poly1305_is_rfc_byte :
    (∀ capacity ≥ tagSize, ∃ tag, cptPoly1305Auth [7] ((List.range 32).map fun i => BitVec.ofNat 8 (i + 1)) false false false
          (some capacity) = ⟨.ok, tagSize, tag⟩ ∧ tag.length = tagSize ∧
        leNat tag = rfcTag [7] ((List.range 32).map fun i => BitVec.ofNat 8 (i + 1)) ∧
        poly1305Auth checking [7] ((List.range 32).map fun i => BitVec.ofNat 8 (i + 1)) = some tag) ∧
      (∀ tag, tag.length = tagSize ->
        (cptPoly1305Verify tag [7] ((List.range 32).map fun i => BitVec.ofNat 8 (i + 1)) false false false = .ok ↔
          leNat tag = rfcTag [7] ((List.range 32).map fun i => BitVec.ofNat 8 (i + 1)))) :=
  poly1305_is_rfc [7] ((List.range 32).map fun i => BitVec.ofNat 8 (i + 1)) false (by decide) fun _ => rfl

end Src32.Crypt
