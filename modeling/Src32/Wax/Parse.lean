import Src32.Wax.Image

namespace Src32.Wax

/-!
# Parsers

`parseV2` and `parseV3` of `wax.c`, cut at the comments of the source into one
check per part of the header.  Every part after the header checks of version 3
fails with `WAX_E_FORMAT`, so those parts are Boolean tests.  `waxInspect` is
the light read that runs before a plan.
-/

/-! ## v2 PROTECTED -/

/-- The header fields a version 2 image keeps. -/
def v2Fields (im : Image) : Image :=
  { im with
    type := im.data.rd16 6
    base := im.word 16
    entryOffset := im.word 20
    blockTable := im.word 24
    blockCount := im.word 28
    blockEntrySize := im.word 32
    stackTop := im.word 48
    stackSize := im.word 52 }

/-- The debug data is present exactly when its flag says so. -/
def debugOk (flags offset size : Word) : Bool :=
  !((flags &&& flagDebug = 0) != (size = 0) || (size = 0 && offset ≠ 0))

/-- The header checks of version 2 on `v2Fields`. -/
def v2HeaderOk (im : Image) : Bool :=
  !(im.word 12 ≠ headerV2 || im.word 44 ≠ im.size || im.word 56 ≠ 0 || im.word 60 ≠ 0) &&
    !(im.blockEntrySize ≠ 16 || im.blockCount = 0 || im.blockCount > 7) &&
    !(im.blockTable &&& 3 ≠ 0 || im.blockTable < headerV2 || im.blockTable > im.size ||
      im.blockCount * 16 > im.size - im.blockTable) &&
    debugOk (im.data.rd16 10) (im.word 36) (im.word 40)

/-- The first block starts at the base, every other one behind the block before
it, which ends at `stop`. -/
def misplaced (base : Word) (first : Bool) (stop : Word) (b : Block) : Bool :=
  if first then b.address ≠ base else b.address < stop

/-- The block loop of version 2: `stop` is the end of the block before, and
`first` says that there is none. -/
def v2Blocks (base size tableEnd : Word) : Bool -> Word -> Spans -> List Block -> Option (Word × Spans)
  | _, stop, spans, [] => some (stop, spans)
  | first, stop, spans, b :: rest =>
    if b.fileSize = 0 ∨ b.perm = 0 ∨ b.perm &&& ~~~7 ≠ 0 ∨ b.fileOffset &&& 3 ≠ 0 ∨
        b.fileOffset < tableEnd then none
    else
      match addSpan spans b.fileOffset b.fileSize size with
      | none => none
      | some spans =>
        if b.fileSize > cpuReserved - b.address ∨ misplaced base first stop b then none
        else v2Blocks base size tableEnd false (b.address + b.fileSize) spans rest

/-- Stack: nonzero multiples of 4, below the reserved area, off every block. -/
def v2StackOk (im : Image) : Bool :=
  let top := im.stackTop
  let stack := im.stackSize
  !(stack = 0 || stack &&& 3 ≠ 0 || top &&& 3 ≠ 0 || stack > top || top > cpuReserved) &&
    im.blocks.all fun b => !(top - stack < b.address + b.fileSize && b.address < top)

def v2EntryOk (im : Image) : Bool :=
  let entry := im.base + im.entryOffset
  !(entry < im.base) && im.blocks.any fun b =>
    b.perm &&& 4 ≠ 0 && b.address ≤ entry && entry - b.address < b.fileSize

/-- What `parseV2` does behind the header checks. -/
def v2Body (im : Image) : Except Error Image :=
  match addSpan [] (im.word 36) (im.word 40) im.size with
  | none => .error .format
  | some spans =>
    match v2Blocks im.base im.size (im.blockTable + im.blockCount * 16) true 0 spans im.blocks with
    | none => .error .format
    | some (stop, spans) =>
      if !spansOk spans im.data false then .error .format
      else
        let im := { im with span := stop - im.base, align := 1 }
        if v2StackOk im && v2EntryOk im then .ok im else .error .format

def parseV2 (im : Image) : Except Error Image :=
  let type := im.data.rd16 6
  let flags := im.data.rd16 10
  if im.size < headerV2 then .error .format
  else if im.data.rd16 8 ≠ 1 ∨ type < typeWax ∨ type > typeWal ∨ flags &&& ~~~3 ≠ 0 then
    .error .unsupported
  else if type ≠ typeWax ∨ flags &&& flagProtected = 0 then .error .format
  else
    let im := v2Fields im
    if v2HeaderOk im then v2Body im else .error .format

/-! ## v3 -/

/-- The header fields a version 3 image keeps. -/
def v3Fields (im : Image) : Image :=
  { im with
    relocatable := im.data.rd16 10 &&& flagRelocatable ≠ 0
    relocTable := im.word 128
    relocCount := im.word 132
    heapHint := im.word 136
    type := im.data.rd16 6
    base := im.word 24
    entryOffset := im.word 28
    stackTop := im.word 32
    stackSize := im.word 36
    blockTable := im.word 40
    blockCount := im.word 44
    blockEntrySize := 24
    depTable := im.word 52
    depCount := im.word 56
    exportTable := im.word 64
    exportCount := im.word 68
    importTable := im.word 76
    importCount := im.word 80
    strings := im.word 88
    stringSize := im.word 92
    imageId := im.word 96
    abiMajor := im.word 100
    abiMinor := im.word 104 }

/-- Sizes, reserved words and the fields of relocatable executables. -/
def v3HeaderOk (im : Image) : Bool :=
  !(im.data.rd16 10 &&& flagProtected = 0 || im.word 12 ≠ headerV3 || im.word 16 ≠ im.size) &&
    ([140, 144, 148, 152, 156].all fun offset => im.word offset = 0) &&
    !(if im.relocatable then im.type ≠ typeWax || im.relocCount = 0 || im.heapHint &&& 7 ≠ 0
      else im.relocTable ≠ 0 || im.relocCount ≠ 0 || im.heapHint ≠ 0)

/-- Entry sizes and the fields no image may leave zero. -/
def v3CountsOk (im : Image) : Bool :=
  !(im.word 48 ≠ 24 || im.word 60 ≠ 16 || im.word 72 ≠ 24 || im.word 84 ≠ 24) &&
    !(im.blockCount = 0 || im.stringSize = 0 || im.abiMajor = 0 || im.word 112 = 0)

/-- What an executable and a library may and must have, and the debug data. -/
def v3KindOk (im : Image) : Bool :=
  !(if im.type = typeWax then im.exportCount ≠ 0 || im.stackSize = 0
    else im.base ≠ 0 || im.entryOffset ≠ 0 || im.stackTop ≠ 0 || im.stackSize ≠ 0 || im.exportCount = 0) &&
    debugOk (im.data.rd16 10) (im.word 120) (im.word 124) && im.word 120 &&& 3 = 0

/-- Header, tables, strings and debug data as file ranges. -/
def v3Tables (im : Image) : Option Spans := do
  let spans ← addSpan [] 0 headerV3 im.size
  let spans ← addTable spans im.blockTable im.blockCount 24 im.size
  let spans ← addTable spans im.depTable im.depCount 16 im.size
  let spans ← addTable spans im.exportTable im.exportCount 24 im.size
  let spans ← addTable spans im.importTable im.importCount 24 im.size
  let spans ← addTable spans im.relocTable im.relocCount 4 im.size
  let spans ← addTable spans im.strings 1 im.stringSize im.size
  addSpan spans (im.word 120) (im.word 124) im.size

/-- Strings: leading and trailing NUL, ASCII only, and the image's own names. -/
def v3StringsOk (im : Image) : Bool :=
  im.data.byte im.strings = 0 && im.data.byte (im.strings + (im.stringSize - 1)) = 0 &&
    (im.data.slice im.strings im.stringSize).all (fun c => c &&& 0x80 = 0) &&
    isId (str im im.imageId) && isId (str im (im.word 108))

/-- Permission, alignment and size of one version 3 block. -/
def v3BlockOk (b : Block) : Bool :=
  !(b.perm ≠ permR && b.perm ≠ permRw && b.perm ≠ permRx) &&
    !(b.align < 4 || b.align &&& (b.align - 1) ≠ 0 || b.address &&& (b.align - 1) ≠ 0) &&
    !(b.memorySize = 0 || b.fileSize > b.memorySize || ((b.fileSize = 0) != (b.fileOffset = 0)) ||
      b.memorySize > 0xFFFFFFFF - b.address)

/-- The block loop of version 3: sorted, no overlap, first at `base_addr`. -/
def v3Blocks (base size : Word) : Bool -> Word -> Word -> Spans -> List Block -> Option (Word × Word × Spans)
  | _, stop, align, spans, [] => some (stop, align, spans)
  | first, stop, align, spans, b :: rest =>
    if !v3BlockOk b then none
    else if misplaced base first stop b then none
    else if b.fileOffset &&& 3 ≠ 0 then none
    else
      match addSpan spans b.fileOffset b.fileSize size with
      | none => none
      | some spans =>
        v3Blocks base size false (b.address + b.memorySize) (if b.align > align then b.align else align)
          spans rest

/-- Entry and stack of an executable; `stop` is the end of its last block. -/
def v3StackOk (im : Image) (stop : Word) : Bool :=
  let top := im.stackTop
  let stack := im.stackSize
  im.type ≠ typeWax ||
    im.entryOffset &&& 3 = 0 && inBlock im im.entryOffset 4 .exec &&
      !(top = 0 || top &&& 7 ≠ 0 || stack &&& 7 ≠ 0 || stack > top) &&
      !(top - stack < stop && im.base < top) && !(im.relocatable && top ≠ im.base)

/-- Dependencies: named, not the image itself and not named twice. -/
def v3DepsOk (im : Image) : Bool :=
  (indices im.depCount).all fun i =>
    let e := im.depTable + 16 * i
    let id := str im (im.word e)
    isId id && im.word (e + 4) ≠ 0 && im.word (e + 12) = 0 && id ≠ str im im.imageId &&
      (indices i).all fun j => id ≠ str im (im.word (im.depTable + 16 * j))

/-- One export. -/
def v3ExportOk (im : Image) (e : Word) : Bool :=
  let kind := im.word (e + 4)
  let offset := im.word (e + 8)
  let len := im.word (e + 12)
  if kind = kindFunction then
    isSignature (str im (im.word (e + 16))) && len ≠ 0 && len &&& 3 = 0 && offset &&& 3 = 0 &&
      inBlock im offset len .exec
  else if kind = kindObject then im.word (e + 16) = 0 && len ≠ 0 && inBlock im offset len .data
  else false

/-- Exports: sorted by name, no duplicates even across kinds. -/
def v3ExportsFrom (im : Image) : Option (List Byte) -> List Word -> Bool
  | _, [] => true
  | previous, i :: rest =>
    let e := im.exportTable + 24 * i
    let name := str im (im.word e)
    isSymbol name && im.word (e + 20) = 0 &&
      (match previous, name with
        | some previous, some name => strLess previous name
        | _, _ => true) &&
      v3ExportOk im e && v3ExportsFrom im name rest

def v3ExportsOk (im : Image) : Bool := v3ExportsFrom im none (indices im.exportCount)

/-- The fields of one import but its slot. -/
def v3ImportOk (im : Image) (e : Word) : Bool :=
  let kind := im.word (e + 8)
  let len := im.word (e + 16)
  let signature := im.word (e + 20)
  im.word e < im.depCount && isSymbol (str im (im.word (e + 4))) &&
    if kind = kindFunction then len = 0 && isSignature (str im signature)
    else kind = kindObject && signature = 0 && len ≠ 0

/-- Imports: sorted, disjoint 8-byte RW slots that start zeroed.  The result is
the set of dependencies used. -/
def v3ImportsFrom (im : Image) : Bool -> Word -> Word -> List Word -> Option Word
  | _, _, used, [] => some used
  | first, slotEnd, used, i :: rest =>
    let e := im.importTable + 24 * i
    let slot := im.word (e + 12)
    if v3ImportOk im e && slot &&& 3 = 0 && (first || !(slot < slotEnd)) && inBlock im slot 8 .rw &&
        (indices 8).all (fun k => initialByte im (slot + k) = 0) then
      v3ImportsFrom im false (slot + 8) (used ||| (1 : Word) <<< (im.word e).toNat) rest
    else none

/-- Every dependency is used. -/
def v3ImportsOk (im : Image) : Bool :=
  v3ImportsFrom im true 0 0 (indices im.importCount) = some ((1 : Word) <<< im.depCount.toNat - 1)

/-- The address and the kind of a relocation entry. -/
def relocAt (entry : Word) : Word := entry &&& ~~~3
def relocKind (entry : Word) : Word := entry &&& 3

/-- The bytes a relocation changes. -/
def relocLen (entry : Word) : Word := if relocKind entry = relocPair then 8 else 4

/-- Whether a block of the executable may hold this relocation. -/
def relocInBlock (im : Image) (entry : Word) (b : Block) : Bool :=
  let place := relocAt entry
  let code := b.fileOffset + (place - b.address)
  !(place < b.address || relocLen entry > b.fileSize - (place - b.address) ||
    (if relocKind entry = relocPair then b.perm ≠ permRx else b.perm = permRx)) &&
    (relocKind entry ≠ relocPair ||
      im.word code >>> 26 = opLdih && im.word (code + 4) >>> 26 = opLdil &&
        (im.word code ^^^ im.word (code + 4)) &&& 0x03E00000 = 0)

/-- Relocations: ascending, each in initialized bytes of a block that may hold
it.  One cursor walks the blocks, which ascend as well. -/
def v3RelocsFrom (im : Image) : Bool -> Word -> List Block -> List Word -> Bool
  | _, _, _, [] => true
  | first, previous, cursor, i :: rest =>
    let entry := im.word (im.relocTable + 4 * i)
    let place := relocAt entry
    !(relocKind entry > relocPair || (!first && place ≤ previous) || place < im.base ||
        place - im.base > 0xFFFFFFF0) &&
      match cursor.dropWhile fun b => b.address ≤ place && b.fileSize ≤ place - b.address with
      | [] => false
      | b :: behind => relocInBlock im entry b && v3RelocsFrom im false place (b :: behind) rest

def v3RelocsOk (im : Image) : Bool := v3RelocsFrom im true 0 im.blocks (indices im.relocCount)

/-- What `parseV3` does behind the resource limits. -/
def v3Body (im : Image) : Except Error Image :=
  if !v3KindOk im then .error .format
  else
    match v3Tables im with
    | none => .error .format
    | some spans =>
      if !v3StringsOk im then .error .format
      else
        match v3Blocks im.base im.size true 0 4 spans im.blocks with
        | none => .error .format
        | some (stop, align, spans) =>
          let im := { im with span := stop - im.base, align := align }
          if spansOk spans im.data true && v3StackOk im stop && v3DepsOk im && v3ExportsOk im &&
              v3ImportsOk im && v3RelocsOk im then .ok im
          else .error .format

def parseV3 (im : Image) : Except Error Image :=
  let type := im.data.rd16 6
  if im.size < headerV3 then .error .format
  else if im.data.rd16 8 ≠ 1 ∨ type < typeWax ∨ type > typeWal ∨ im.data.rd16 10 &&& ~~~7 ≠ 0 ∨
      im.word 20 ≠ 1 then .error .unsupported
  else
    let im := v3Fields im
    if !v3HeaderOk im || !v3CountsOk im then .error .format
    else if im.blockCount > waxMaxBlocks ∨ im.depCount > waxMaxDeps then .error .resourceLimit
    else v3Body im

/-- The four magic bytes. -/
def magicOk (data : File) : Bool :=
  data.byte 0 = 0x57 && data.byte 1 = 0x41 && data.byte 2 = 0x58 && data.byte 3 = 0

def parse (data : File) : Except Error Image :=
  if data.size < 8 ∨ !magicOk data then .error .format
  else
    let im := Image.blank data (data.rd16 4)
    if im.version = 2 then parseV2 im
    else if im.version = 3 then parseV3 im
    else .error .unsupported

/-! ## The light read before a plan -/

/-- What the caller needs to choose where an executable goes before a plan. -/
structure Info where
  base : Word
  low : Word
  high : Word
  relocatable : Bool
  stackSize : Word
  heapHint : Word
  deriving DecidableEq

/-- The header fields `waxInspect` reads. -/
structure InspectHeader where
  base : Word
  blocks : Word
  count : Word
  entrySize : Word
  stackTop : Word
  stackSize : Word
  flags : Word
  heapHint : Word

def inspectHeader (data : File) : Except Error InspectHeader :=
  let version := data.rd16 4
  if version = 2 then
    .ok
      { base := data.rd32 16
        blocks := data.rd32 24
        count := data.rd32 28
        entrySize := data.rd32 32
        stackTop := data.rd32 48
        stackSize := data.rd32 52
        flags := 0
        heapHint := 0 }
  else if version = 3 ∧ data.size ≥ headerV3 then
    .ok
      { base := data.rd32 24
        blocks := data.rd32 40
        count := data.rd32 44
        entrySize := 24
        stackTop := data.rd32 32
        stackSize := data.rd32 36
        flags := data.rd16 10
        heapHint := data.rd32 136 }
  else if version = 3 then .error .format
  else .error .unsupported

/-- The end of the highest block, `none` when a block is refused. -/
def inspectBlocks (data : File) (header : InspectHeader) (blockSize lenOffset : Word) :
    Word -> List Word -> Option Word
  | stop, [] => some stop
  | stop, i :: rest =>
    let e := header.blocks + i * blockSize
    let address := data.rd32 e
    let len := data.rd32 (e + lenOffset)
    if address < header.base ∨ len > cpuReserved - address then none
    else
      inspectBlocks data header blockSize lenOffset (if address + len > stop then address + len else stop)
        rest

def waxInspect (data : File) : Except Error Info :=
  if data.size < headerV2 ∨ !magicOk data then .error .format
  else
    match inspectHeader data with
    | .error error => .error error
    | .ok header =>
      let blockSize : Word := if data.rd16 4 = 2 then 16 else 24
      if header.entrySize ≠ blockSize ∨ header.count = 0 ∨ header.count > waxMaxBlocks ∨
          header.blocks > data.size ∨ header.count * blockSize > data.size - header.blocks ∨
          header.stackSize > header.stackTop then .error .format
      else
        match inspectBlocks data header blockSize (if data.rd16 4 = 2 then 8 else 12) header.base
            (indices header.count) with
        | none => .error .format
        | some stop =>
          let stackLow := header.stackTop - header.stackSize
          .ok
            { base := header.base
              low := if stackLow < header.base then stackLow else header.base
              high := if header.stackTop > stop then header.stackTop else stop
              relocatable := header.flags &&& flagRelocatable ≠ 0
              stackSize := header.stackSize
              heapHint := header.heapHint }

end Src32.Wax
