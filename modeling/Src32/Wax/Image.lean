import Src32.Machine.Word

namespace Src32.Wax

/-!
# Executable files and their parsed images

The byte string a loader is given, the fields `wax.c` parses out of it, and the
helpers every check is written with: big-endian reads, strings of the string
table, blocks and the table of file ranges.  Offsets and addresses are 32-bit
words and wrap as in the source.
-/

def headerV2 : Word := 64
def headerV3 : Word := 160
def typeWax : Word := 1
def typeWal : Word := 2
def flagDebug : Word := 1
def flagProtected : Word := 2
def flagRelocatable : Word := 4
def relocPair : Word := 1
def opLdih : Word := 0x3D
def opLdil : Word := 0x3C
def permR : Word := 1
def permRw : Word := 3
def permRx : Word := 5
def kindFunction : Word := 1
def kindObject : Word := 2
def nameMax : Nat := 127

/-- Resource limits applied before any allocation. -/
def waxMaxImages : Nat := 8
def waxMaxBlocks : Word := 32
def waxMaxDeps : Word := 8
def waxRegions : Nat := 8

/-- Logical error categories. -/
inductive Error where
  | format
  | unsupported
  | dependencyMissing
  | abiMismatch
  | dependencyConflict
  | dependencyCycle
  | symbolMissing
  | symbolMismatch
  | regionLimit
  | resourceLimit
  deriving DecidableEq

/-! ## Files -/

/-- A byte string whose length a `uint32_t` holds. -/
structure File where
  bytes : List Byte
  fits : bytes.length < 2 ^ 32

namespace File

def size (file : File) : Word := BitVec.ofNat 32 file.bytes.length

/-- The byte at an offset.  The parsers only read below `size`. -/
def byte (file : File) (offset : Word) : Byte := file.bytes.getD offset.toNat 0

def rd16 (file : File) (offset : Word) : Word :=
  (file.byte offset).zeroExtend 32 <<< 8 ||| (file.byte (offset + 1)).zeroExtend 32

def rd32 (file : File) (offset : Word) : Word :=
  Word.ofBytes (file.byte offset) (file.byte (offset + 1)) (file.byte (offset + 2)) (file.byte (offset + 3))

/-- The bytes from `offset` on, `count` of them. -/
def slice (file : File) (offset count : Word) : List Byte :=
  (List.range count.toNat).map fun index => file.byte (offset + BitVec.ofNat 32 index)

/-- The C string at `offset`, up to its NUL. -/
def cString (file : File) (offset : Word) : List Byte :=
  (file.bytes.drop offset.toNat).takeWhile (· ≠ 0)

end File

/-! ## Images -/

/-- One parsed image.  Offsets are file offsets unless noted. -/
structure Image where
  data : File
  version : Word
  type : Word
  /-- `base_addr` of an executable; 0 for a library. -/
  base : Word
  /-- Runtime origin: `base_addr`, or where the library was placed. -/
  origin : Word
  /-- Reservation: highest block end minus lowest address. -/
  span : Word
  /-- Largest block alignment. -/
  align : Word
  entryOffset : Word
  stackTop : Word
  stackSize : Word
  relocatable : Bool
  relocTable : Word
  relocCount : Word
  heapHint : Word
  blockCount : Word
  blockTable : Word
  blockEntrySize : Word
  depCount : Word
  depTable : Word
  exportCount : Word
  exportTable : Word
  importCount : Word
  importTable : Word
  strings : Word
  stringSize : Word
  imageId : Word
  abiMajor : Word
  abiMinor : Word
  /-- Launch index chosen for each dependency. -/
  depImage : List Nat

namespace Image

/-- The zeroed record `parse` starts from. -/
def blank (data : File) (version : Word) : Image where
  data := data
  version := version
  type := 0
  base := 0
  origin := 0
  span := 0
  align := 0
  entryOffset := 0
  stackTop := 0
  stackSize := 0
  relocatable := false
  relocTable := 0
  relocCount := 0
  heapHint := 0
  blockCount := 0
  blockTable := 0
  blockEntrySize := 0
  depCount := 0
  depTable := 0
  exportCount := 0
  exportTable := 0
  importCount := 0
  importTable := 0
  strings := 0
  stringSize := 0
  imageId := 0
  abiMajor := 0
  abiMinor := 0
  depImage := []

def size (im : Image) : Word := im.data.size

def word (im : Image) (offset : Word) : Word := im.data.rd32 offset

end Image

/-! ## Strings -/

/-- A string-table offset that starts a nonempty string, or `none`. -/
def str (im : Image) (offset : Word) : Option (List Byte) :=
  if offset = 0 ∨ offset ≥ im.stringSize ∨ im.data.byte (im.strings + (offset - 1)) ≠ 0 ∨
      im.data.byte (im.strings + offset) = 0 then none
  else some (im.data.cString (im.strings + offset))

def isLower (c : Byte) : Bool := 0x61 ≤ c && c ≤ 0x7A
def isDigit (c : Byte) : Bool := 0x30 ≤ c && c ≤ 0x39
def isAlpha (c : Byte) : Bool := isLower c || (0x41 ≤ c && c ≤ 0x5A)

/-- The label scan of `isId`; `start` says that a label has to begin here. -/
def idLabels : Bool -> List Byte -> Bool
  | start, [] => !start
  | true, c :: rest => isLower c && idLabels false rest
  | false, c :: rest =>
    if isLower c || isDigit c || c == 0x5F then idLabels false rest else c == 0x2E && idLabels true rest

/-- `[a-z][a-z0-9_]*(\.[a-z][a-z0-9_]*)*`, at most 127 bytes. -/
def isId : Option (List Byte) -> Bool
  | none => false
  | some s => idLabels true s && s.length ≤ nameMax

/-- `[A-Za-z_][A-Za-z0-9_]*`, at most 127 bytes. -/
def isSymbol : Option (List Byte) -> Bool
  | none => false
  | some [] => false
  | some (c :: rest) =>
    (isAlpha c || c == 0x5F) && rest.all (fun c => isAlpha c || isDigit c || c == 0x5F) &&
      rest.length < nameMax

/-- The rest of `s` behind the prefix `p`. -/
def prefixed : List Byte -> List Byte -> Option (List Byte)
  | s, [] => some s
  | [], _ :: _ => none
  | c :: s, d :: p => if c = d then prefixed s p else none

def ascii (text : String) : List Byte := text.toList.map fun c => BitVec.ofNat 8 c.toNat

/-- The rest of `s` behind a type name.  `void` only as a result. -/
def sigType (s : List Byte) (result : Bool) : Option (List Byte) :=
  ((["u32", "i32", "u64", "i64", "ptr", "fnptr"] ++ if result then ["void"] else []).map
    (fun name => prefixed s (ascii name))).findSome? id

/-- The parameter list `type,...` and what follows it.  Every type takes bytes,
so the length of the string is fuel enough. -/
def sigParams : Nat -> List Byte -> Option (List Byte)
  | 0, _ => none
  | fuel + 1, s =>
    match sigType s false with
    | none => none
    | some (0x2C :: rest) => sigParams fuel rest
    | some rest => some rest

/-- `fn(type,...)->type` with no whitespace. -/
def isSignature : Option (List Byte) -> Bool
  | none => false
  | some s =>
    match prefixed s (ascii "fn(") with
    | none => false
    | some rest =>
      match if rest.head? = some 0x29 then some rest else sigParams rest.length rest with
      | none => false
      | some rest =>
        match prefixed rest (ascii ")->") with
        | none => false
        | some rest => sigType rest true = some []

/-- ASCII byte order, as exports are sorted. -/
def strLess : List Byte -> List Byte -> Bool
  | _, [] => false
  | [], _ :: _ => true
  | a :: s, b :: t => if a = b then strLess s t else a < b

/-! ## Blocks -/

structure Block where
  address : Word
  fileOffset : Word
  fileSize : Word
  memorySize : Word
  perm : Word
  align : Word
  deriving DecidableEq

def getBlock (im : Image) (i : Word) : Block :=
  let e := im.blockTable + i * im.blockEntrySize
  if im.version = 2 then
    { address := im.word e
      fileOffset := im.word (e + 4)
      fileSize := im.word (e + 8)
      memorySize := im.word (e + 8)
      perm := im.word (e + 12)
      align := 1 }
  else
    { address := im.word e
      fileOffset := im.word (e + 4)
      fileSize := im.word (e + 8)
      memorySize := im.word (e + 12)
      perm := im.word (e + 16)
      align := im.word (e + 20) }

/-- The indices `0 .. count - 1` a loop over a table runs through. -/
def indices (count : Word) : List Word := (List.range count.toNat).map (BitVec.ofNat 32)

/-- The block table in order. -/
def Image.blocks (im : Image) : List Block := (indices im.blockCount).map (getBlock im)

inductive Need where
  | exec
  | data
  | rw
  deriving DecidableEq

/-- The permission a use needs. -/
def Need.permits : Need -> Word -> Bool
  | exec, perm => perm == permRx
  | rw, perm => perm == permRw
  | data, perm => perm == permR || perm == permRw

/-- Whether image-relative `[offset, offset + len)` lies in one block that has
the permission `need` wants: initialized RX bytes, R/RW, or RW. -/
def inBlock (im : Image) (offset len : Word) (need : Need) : Bool :=
  !(len > 0xFFFFFFFF - offset) && im.blocks.any fun b =>
    let rel := b.address - im.base
    let size := if need = .exec then b.fileSize else b.memorySize
    need.permits b.perm && rel ≤ offset && offset - rel ≤ size && len ≤ size - (offset - rel)

/-- Byte at an image-relative offset before loading: payload, else zero tail. -/
def initialByte (im : Image) (offset : Word) : Byte :=
  match im.blocks.find? fun b => b.address - im.base ≤ offset && offset - (b.address - im.base) < b.fileSize with
  | some b => im.data.byte (b.fileOffset + (offset - (b.address - im.base)))
  | none => 0

/-! ## File ranges -/

structure Span where
  start : Word
  stop : Word
  deriving DecidableEq

/-- The file ranges recorded so far, last one first. -/
abbrev Spans := List Span

/-- The shift loop of `addSpan`: behind the last range that does not start
later. -/
def insertSpan (new : Span) : Spans -> Spans
  | [] => [new]
  | s :: rest => if s.start > new.start then s :: insertSpan new rest else new :: s :: rest

/-- Records a nonempty file range, kept sorted by start. -/
def addSpan (spans : Spans) (offset len size : Word) : Option Spans :=
  if offset > size ∨ len > size - offset then none
  else if len = 0 then some spans
  else some (insertSpan ⟨offset, offset + len⟩ spans)

/-- The walk of `spansOk` from `place` over ranges in ascending order. -/
def gapsOk (file : File) (zeroGaps : Bool) (place : Word) : List Span -> Bool
  | [] => !(file.size < place) && (!zeroGaps || (file.slice place (file.size - place)).all (· == 0))
  | s :: rest =>
    !(s.start < place) && (!zeroGaps || (file.slice place (s.start - place)).all (· == 0)) &&
      gapsOk file zeroGaps s.stop rest

/-- Ranges are pairwise disjoint; with `zeroGaps` every byte outside them is
zero padding. -/
def spansOk (spans : Spans) (file : File) (zeroGaps : Bool) : Bool := gapsOk file zeroGaps 0 spans.reverse

/-- `count` entries of `entrySize` bytes at `offset`: absent tables are 0/0. -/
def addTable (spans : Spans) (offset count entrySize size : Word) : Option Spans :=
  if count = 0 then if offset = 0 then some spans else none
  else if offset &&& 3 ≠ 0 ∨ count > size / entrySize then none
  else addSpan spans offset (count * entrySize) size

end Src32.Wax
