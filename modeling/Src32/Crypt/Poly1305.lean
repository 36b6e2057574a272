import Src32.Codecs.Conde
import Src32.Lib.ByteFields

namespace Src32.Crypt

open Codecs ByteFields

/-!
# Poly1305

`poly1305_auth` of `crypt.c`, with five limbs of 26 bits.  Where the C code stores
a result in 32 or 64 bits, the arithmetic decides what that does: it wraps in C,
and a checking arithmetic fails on a result that does not fit.
-/

/-- How results are stored in 32 and in 64 bits. -/
structure Arithmetic (m : Type -> Type) where
  w32 : Nat -> m Nat
  w64 : Nat -> m Nat

/-- What C does. -/
def wrapping : Arithmetic Id where
  w32 := fun x => x % 2 ^ 32
  w64 := fun x => x % 2 ^ 64

/-- Nothing when bits would be lost. -/
def checking : Arithmetic Option where
  w32 := fun x => if x < 2 ^ 32 then some x else none
  w64 := fun x => if x < 2 ^ 64 then some x else none

def load32 (p : List Byte) (i : Nat) : Nat :=
  (Word.ofBytes (byteAt p (i + 3)) (byteAt p (i + 2)) (byteAt p (i + 1)) (byteAt p i)).toNat

def store32 (v : Nat) : List Byte := leBytes 4 v

def mask26 : Nat := 0x3ffffff

/-- Five limbs of 26 bits. -/
structure Limbs where
  h0 : Nat
  h1 : Nat
  h2 : Nat
  h3 : Nat
  h4 : Nat

/-- `r0` to `r4`. -/
def clampedKey (key : List Byte) : Limbs where
  h0 := load32 key 0 &&& 0x3ffffff
  h1 := load32 key 3 >>> 2 &&& 0x3ffff03
  h2 := load32 key 6 >>> 4 &&& 0x3ffc0ff
  h3 := load32 key 9 >>> 6 &&& 0x3f03fff
  h4 := load32 key 12 >>> 8 &&& 0x00fffff

/-- `s1` to `s4`. -/
structure Multiples where
  s1 : Nat
  s2 : Nat
  s3 : Nat
  s4 : Nat

/-- `d0` to `d4`. -/
structure Products where
  d0 : Nat
  d1 : Nat
  d2 : Nat
  d3 : Nat
  d4 : Nat

section Code

variable {m : Type -> Type} [Monad m] (A : Arithmetic m)

def multiples (r : Limbs) : m Multiples := do
  let s1 <- A.w32 (r.h1 * 5)
  let s2 <- A.w32 (r.h2 * 5)
  let s3 <- A.w32 (r.h3 * 5)
  let s4 <- A.w32 (r.h4 * 5)
  return ⟨s1, s2, s3, s4⟩

/-- The block of a chunk of up to 16 bytes, and `hibit`. -/
def padded (chunk : List Byte) : List Byte × Nat :=
  if chunk.length < 16 then (chunk ++ 1 :: List.replicate (15 - chunk.length) 0, 0) else (chunk, 1 <<< 24)

/-- The block is added. -/
def absorb (h : Limbs) (block : List Byte × Nat) : m Limbs := do
  let h0 <- A.w32 (h.h0 + (load32 block.1 0 &&& mask26))
  let h1 <- A.w32 (h.h1 + (load32 block.1 3 >>> 2 &&& mask26))
  let h2 <- A.w32 (h.h2 + (load32 block.1 6 >>> 4 &&& mask26))
  let h3 <- A.w32 (h.h3 + (load32 block.1 9 >>> 6 &&& mask26))
  let h4 <- A.w32 (h.h4 + (load32 block.1 12 >>> 8 ||| block.2))
  return ⟨h0, h1, h2, h3, h4⟩

def multiply (h r : Limbs) (s : Multiples) : m Products := do
  let d0 <- A.w64 (h.h0 * r.h0 + h.h1 * s.s4 + h.h2 * s.s3 + h.h3 * s.s2 + h.h4 * s.s1)
  let d1 <- A.w64 (h.h0 * r.h1 + h.h1 * r.h0 + h.h2 * s.s4 + h.h3 * s.s3 + h.h4 * s.s2)
  let d2 <- A.w64 (h.h0 * r.h2 + h.h1 * r.h1 + h.h2 * r.h0 + h.h3 * s.s4 + h.h4 * s.s3)
  let d3 <- A.w64 (h.h0 * r.h3 + h.h1 * r.h2 + h.h2 * r.h1 + h.h3 * r.h0 + h.h4 * s.s4)
  let d4 <- A.w64 (h.h0 * r.h4 + h.h1 * r.h3 + h.h2 * r.h2 + h.h3 * r.h1 + h.h4 * r.h0)
  return ⟨d0, d1, d2, d3, d4⟩

/-- The carries behind a multiplication. -/
def carry (d : Products) : m Limbs := do
  let c <- A.w32 (d.d0 >>> 26)
  let h0 := d.d0 % 2 ^ 32 &&& mask26
  let d1 <- A.w64 (d.d1 + c)
  let c <- A.w32 (d1 >>> 26)
  let h1 := d1 % 2 ^ 32 &&& mask26
  let d2 <- A.w64 (d.d2 + c)
  let c <- A.w32 (d2 >>> 26)
  let h2 := d2 % 2 ^ 32 &&& mask26
  let d3 <- A.w64 (d.d3 + c)
  let c <- A.w32 (d3 >>> 26)
  let h3 := d3 % 2 ^ 32 &&& mask26
  let d4 <- A.w64 (d.d4 + c)
  let c <- A.w32 (d4 >>> 26)
  let h4 := d4 % 2 ^ 32 &&& mask26
  let five <- A.w32 (c * 5)
  let h0 <- A.w32 (h0 + five)
  let h1 <- A.w32 (h1 + h0 >>> 26)
  return ⟨h0 &&& mask26, h1, h2, h3, h4⟩

/-- The loop over the message. -/
def blocks (r : Limbs) (s : Multiples) (h : Limbs) (message : List Byte) : m Limbs :=
  if message.length = 0 then return h
  else do
    let added <- absorb A h (padded (message.take 16))
    let d <- multiply A added r s
    let next <- carry A d
    blocks r s next (message.drop 16)
termination_by message.length
decreasing_by
  rw [List.length_drop]
  omega

/-- The carries behind the last block. -/
def reduce (h : Limbs) : m Limbs := do
  let h1 := h.h1 &&& mask26
  let h2 <- A.w32 (h.h2 + h.h1 >>> 26)
  let h3 <- A.w32 (h.h3 + h2 >>> 26)
  let h4 <- A.w32 (h.h4 + h3 >>> 26)
  let five <- A.w32 (h4 >>> 26 * 5)
  let h0 <- A.w32 (h.h0 + five)
  let h1 <- A.w32 (h1 + h0 >>> 26)
  return ⟨h0 &&& mask26, h1, h2 &&& mask26, h3 &&& mask26, h4 &&& mask26⟩

/-- `g` is h + 5 - 2^130; a borrow selects h.  The subtractions wrap. -/
def select (h : Limbs) : m Limbs := do
  let g0 <- A.w32 (h.h0 + 5)
  let g1 <- A.w32 (h.h1 + g0 >>> 26)
  let g2 <- A.w32 (h.h2 + g1 >>> 26)
  let g3 <- A.w32 (h.h3 + g2 >>> 26)
  let sum <- A.w32 (h.h4 + g3 >>> 26)
  let g4 := (sum + (2 ^ 32 - 2 ^ 26)) % 2 ^ 32
  let mask := (g4 >>> 31 + (2 ^ 32 - 1)) % 2 ^ 32
  let inverse := 2 ^ 32 - 1 - mask
  return ⟨h.h0 &&& inverse ||| g0 &&& mask26 &&& mask, h.h1 &&& inverse ||| g1 &&& mask26 &&& mask,
    h.h2 &&& inverse ||| g2 &&& mask26 &&& mask, h.h3 &&& inverse ||| g3 &&& mask26 &&& mask,
    h.h4 &&& inverse ||| g4 &&& mask⟩

/-- The limbs are packed and the second half of the key is added. -/
def addPad (h : Limbs) (key : List Byte) : m (List Byte) := do
  let p0 <- A.w64 (h.h0 ||| h.h1 <<< 26)
  let f0 <- A.w64 ((p0 &&& 0xffffffff) + load32 key 16)
  let p1 <- A.w64 (h.h1 >>> 6 ||| h.h2 <<< 20)
  let f1 <- A.w64 ((p1 &&& 0xffffffff) + load32 key 20 + f0 >>> 32)
  let p2 <- A.w64 (h.h2 >>> 12 ||| h.h3 <<< 14)
  let f2 <- A.w64 ((p2 &&& 0xffffffff) + load32 key 24 + f1 >>> 32)
  let p3 <- A.w64 (h.h3 >>> 18 ||| h.h4 <<< 8)
  let f3 <- A.w64 ((p3 &&& 0xffffffff) + load32 key 28 + f2 >>> 32)
  return store32 (f0 % 2 ^ 32) ++ store32 (f1 % 2 ^ 32) ++ store32 (f2 % 2 ^ 32) ++ store32 (f3 % 2 ^ 32)

/-- `poly1305_auth`. -/
def poly1305Auth (message key : List Byte) : m (List Byte) := do
  let r := clampedKey key
  let s <- multiples A r
  let h <- blocks A r s ⟨0, 0, 0, 0, 0⟩ message
  let reduced <- reduce A h
  let selected <- select A reduced
  addPad A selected key

end Code

/-! ## Calls -/

/-- `CRYPT_POLY1305_TAG_SIZE`. -/
def tagSize : Nat := 16

/-- `cpt_poly1305_auth`; `capacity` is `*dst_size`. -/
def cptPoly1305Auth (src key : List Byte) (srcNull dstNull keyNull : Bool) (capacity : Option Nat) : Outcome :=
  match capacity with
  | none => ⟨.parameter, 0, []⟩
  | some capacity =>
    if keyNull ∨ (src.length ≠ 0 ∧ srcNull) ∨ (capacity ≠ 0 ∧ dstNull) then ⟨.parameter, 0, []⟩
    else if capacity < tagSize then ⟨.outputEof, 0, []⟩
    else ⟨.ok, tagSize, poly1305Auth wrapping src key⟩

/-- The differences that the loop of `cpt_poly1305_verify` collects. -/
def difference (expected tag : List Byte) : Word :=
  (List.range tagSize).foldl (fun diff i => diff ||| (byteAt expected i ^^^ byteAt tag i).setWidth 32) 0

/-- `cpt_poly1305_verify`. -/
def cptPoly1305Verify (tag src key : List Byte) (tagNull srcNull keyNull : Bool) : Status :=
  if tagNull ∨ keyNull ∨ (src.length ≠ 0 ∧ srcNull) then .parameter
  else if difference (poly1305Auth wrapping src key) tag = 0 then .ok else .data

end Src32.Crypt
