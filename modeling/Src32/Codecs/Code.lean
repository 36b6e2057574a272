import Src32.Codecs.Conde
import Src32.Lib.Unicode

namespace Src32.Codecs

open Unicode

/-!
# Conversion between encodings

`code.c`.  A decoder works on the bytes from `*i` on; it reads them one by one, and a
read behind the end gives nothing.
-/

/-- `CODE_*`. -/
inductive Encoding where
  | utf8
  | utf8Bom
  | utf16le
  | utf16be
  | utf32le
  | utf32be
  deriving DecidableEq

def codeReplace : Word := 1

def codeStripBom : Word := 2

def codeAddBom : Word := 4

def knownFlags : Word := codeReplace ||| codeStripBom ||| codeAddBom

def replacement : Nat := 0xFFFD

def bom : Nat := 0xFEFF

/-- What a decoder finds: a code point, `CONDE_DATA`, or `CONDE_INPUT_EOF`. -/
inductive Read where
  | ok (cp : Nat)
  | data
  | inputEof
  deriving DecidableEq

/-! ## Decoders -/

/-- The loop of `next_utf8`, at `p`. -/
def trailBytes (s : List Byte) : Nat -> Nat -> Nat -> Nat -> Nat -> Option (Read × Nat)
  | 0, cp, _, _, p => some (.ok cp, p)
  | need + 1, cp, lo, hi, p =>
    if p ≥ s.length then some (.inputEof, p)
    else
      match s[p]? with
      | none => none
      | some b =>
        if b.toNat < lo ∨ b.toNat > hi then some (.data, p)
        else trailBytes s need (cp <<< 6 ||| b.toNat &&& 0x3F) 0x80 0xBF (p + 1)

/-- `next_utf8`: what it finds, and how far `*i` goes. -/
def nextUtf8 (s : List Byte) : Option (Read × Nat) :=
  match s[0]? with
  | none => none
  | some b =>
    let b := b.toNat
    if b < 0x80 then some (.ok b, 1)
    else if b ≥ 0xC2 ∧ b ≤ 0xDF then trailBytes s 1 (b &&& 0x1F) 0x80 0xBF 1
    else if b ≥ 0xE0 ∧ b ≤ 0xEF then
      trailBytes s 2 (b &&& 0x0F) (if b = 0xE0 then 0xA0 else 0x80) (if b = 0xED then 0x9F else 0xBF) 1
    else if b ≥ 0xF0 ∧ b ≤ 0xF4 then
      trailBytes s 3 (b &&& 0x07) (if b = 0xF0 then 0x90 else 0x80) (if b = 0xF4 then 0x8F else 0xBF) 1
    else some (.data, 1)

/-- `unit16`. -/
def readUnit (s : List Byte) (p : Nat) (big : Bool) : Option Nat :=
  match s[p]?, s[p + 1]? with
  | some a, some b => some (if big then a.toNat <<< 8 ||| b.toNat else b.toNat <<< 8 ||| a.toNat)
  | _, _ => none

/-- `next_utf16`. -/
def nextUtf16 (s : List Byte) (big : Bool) : Option (Read × Nat) :=
  if s.length < 2 then some (.inputEof, s.length)
  else
    match readUnit s 0 big with
    | none => none
    | some u =>
      if u < 0xD800 ∨ u > 0xDFFF then some (.ok u, 2)
      else if u ≥ 0xDC00 then some (.data, 2)
      else if s.length - 2 < 2 then some (.inputEof, s.length)
      else
        match readUnit s 2 big with
        | none => none
        | some v =>
          if v < 0xDC00 ∨ v > 0xDFFF then some (.data, 2)
          else some (.ok (0x10000 + (u - 0xD800) <<< 10 + (v - 0xDC00)), 4)

/-- `next_utf32`. -/
def nextUtf32 (s : List Byte) (big : Bool) : Option (Read × Nat) :=
  if s.length < 4 then some (.inputEof, s.length)
  else
    match s[0]?, s[1]?, s[2]?, s[3]? with
    | some a, some b, some c, some d =>
      let v := if big then a.toNat <<< 24 ||| b.toNat <<< 16 ||| c.toNat <<< 8 ||| d.toNat
        else d.toNat <<< 24 ||| c.toNat <<< 16 ||| b.toNat <<< 8 ||| a.toNat
      if v > 0x10FFFF ∨ (v ≥ 0xD800 ∧ v ≤ 0xDFFF) then some (.data, 4) else some (.ok v, 4)
    | _, _, _, _ => none

/-- `next`. -/
def next (enc : Encoding) (s : List Byte) : Option (Read × Nat) :=
  match enc with
  | .utf16le => nextUtf16 s false
  | .utf16be => nextUtf16 s true
  | .utf32le => nextUtf32 s false
  | .utf32be => nextUtf32 s true
  | _ => nextUtf8 s

/-! ## Writing -/

/-- `lead` of `put`. -/
def leadBits : Nat -> Nat
  | 2 => 0xC0
  | 3 => 0xE0
  | 4 => 0xF0
  | _ => 0

/-- `put16`. -/
def put16 (u : Nat) (big : Bool) : List Byte :=
  if big then [BitVec.ofNat 8 (u >>> 8), BitVec.ofNat 8 u] else [BitVec.ofNat 8 u, BitVec.ofNat 8 (u >>> 8)]

/-- The bytes that `put` writes where there is room. -/
def putBytes (enc : Encoding) (cp : Nat) : List Byte :=
  match enc with
  | .utf8 | .utf8Bom =>
    let len := if cp < 0x80 then 1 else if cp < 0x800 then 2 else if cp < 0x10000 then 3 else 4
    if len = 1 then [BitVec.ofNat 8 cp]
    else
      BitVec.ofNat 8 (leadBits len ||| cp >>> (6 * (len - 1))) ::
        (List.range' 1 (len - 1)).map fun k => BitVec.ofNat 8 (0x80 ||| cp >>> (6 * (len - 1 - k)) &&& 0x3F)
  | .utf16le | .utf16be =>
    let big := enc = .utf16be
    if cp < 0x10000 then put16 cp big
    else put16 (0xD800 + (cp - 0x10000) >>> 10) big ++ put16 (0xDC00 + ((cp - 0x10000) &&& 0x3FF)) big
  | .utf32le | .utf32be =>
    (List.range 4).map fun k => BitVec.ofNat 8 (cp >>> (8 * (if enc = .utf32be then 3 - k else k)))

/-- `put`: nothing where there is no room. -/
def put (capacity : Nat) (out : List Byte) (enc : Encoding) (cp : Nat) : Option (List Byte) :=
  if capacity - out.length < (putBytes enc cp).length then none else some (out ++ putBytes enc cp)

/-! ## Conversion -/

/-- The loop of `convert` on what is left of the source; nothing when a read goes wrong
or the rounds do not end. -/
def convertLoop (start dest : Encoding) (flags : Word) (capacity : Nat) :
    Nat -> List Byte -> Bool -> List Byte -> Option (Status × List Byte)
  | _, [], _, out => some (.ok, out)
  | 0, _ :: _, _, _ => none
  | fuel + 1, b :: rest, first, out =>
    match next start (b :: rest) with
    | none => none
    | some (read, k) =>
      let left := (b :: rest).drop k
      if read = .data ∧ flags &&& codeReplace = 0 then some (.data, out)
      else if read = .inputEof ∧ flags &&& codeReplace = 0 then some (.inputEof, out)
      else
        let cp := match read with
          | .ok cp => cp
          | _ => replacement
        if first = true ∧ read = .ok bom ∧ flags &&& codeStripBom ≠ 0 then
          convertLoop start dest flags capacity fuel left false out
        else
          match put capacity out dest cp with
          | none => some (.outputEof, out)
          | some out => convertLoop start dest flags capacity fuel left false out

/-- `from` without a byte order mark to skip. -/
def plain : Encoding -> Encoding
  | .utf8Bom => .utf8
  | enc => enc

/-- What `convert` skips in front. -/
def skipped (start : Encoding) (src : List Byte) : Nat :=
  if start = .utf8Bom ∧ src.length ≥ 3 ∧ src[0]? = some 0xEF ∧ src[1]? = some 0xBB ∧ src[2]? = some 0xBF then 3 else 0

/-- `convert`. -/
def convert (src : List Byte) (srcNull dstNull : Bool) (capacity : Option Nat) (start dest : Encoding) (flags : Word) :
    Option Outcome :=
  match capacity with
  | none => some ⟨.parameter, 0, []⟩
  | some capacity =>
    if (src.length ≠ 0 ∧ srcNull) ∨ (capacity ≠ 0 ∧ dstNull) ∨ flags &&& ~~~knownFlags ≠ 0 then some ⟨.parameter, 0, []⟩
    else
      let opening := if dest = .utf8Bom ∨ flags &&& codeAddBom ≠ 0 then put capacity [] dest bom else some []
      match opening with
      | none => some ⟨.outputEof, 0, []⟩
      | some out =>
        match convertLoop (plain start) dest flags capacity src.length (src.drop (skipped start src)) true out with
        | none => none
        | some (.ok, out) => some ⟨.ok, out.length, out⟩
        | some (status, out) => some ⟨status, 0, out⟩

/-! ## The bound -/

/-- `bound_for`. -/
def boundFor (srcSize : Nat) (start dest : Encoding) : Nat :=
  let unit := if start = .utf16le ∨ start = .utf16be then 2 else if start = .utf32le ∨ start = .utf32be then 4 else 1
  let units := srcSize / unit + if srcSize % unit ≠ 0 then 1 else 0
  let per := if dest = .utf16le ∨ dest = .utf16be then 2 else if dest = .utf32le ∨ dest = .utf32be then 4 else 3
  let per := if unit = 4 ∧ per < 4 then 4 else per
  if units > 0xFFFFFFFF / per then 0xFFFFFFFF else units * per

/-- `cpt_code_bound`; a number that is no encoding is nothing. -/
def cptCodeBound (srcSize : Nat) (start dest : Option Encoding) : Nat :=
  match start, dest with
  | some start, some dest =>
    let bom := if dest = .utf16le ∨ dest = .utf16be then 2 else if dest = .utf32le ∨ dest = .utf32be then 4 else 3
    let total := boundFor srcSize start dest + bom
    if total ≥ 0xFFFFFFFF then 0xFFFFFFFF else total
  | _, _ => 0xFFFFFFFF

end Src32.Codecs
