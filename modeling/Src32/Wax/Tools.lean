import Src32.Lib.Intervals
import Src32.Wax.Parse

namespace Src32.Wax

open Interval

/-!
# The readers of the tools

`parse` of `tools/wax/wax.py` and of `src/wax.rs`.  Both read a byte string of any
length, and their sums do not wrap: Python's integers have no bound, and the Rust
reader adds in 64 bits.  A refusal carries its text.
-/

/-- Big-endian fields of a byte string. -/
def be16 (d : List Byte) (o : Nat) : Word :=
  (d.getD o 0).zeroExtend 32 <<< 8 ||| (d.getD (o + 1) 0).zeroExtend 32

def be32 (d : List Byte) (o : Nat) : Word :=
  Word.ofBytes (d.getD o 0) (d.getD (o + 1) 0) (d.getD (o + 2) 0) (d.getD (o + 3) 0)

def magic : List Byte := [0x57, 0x41, 0x58, 0x00]

/-- `raise ValueError(text)` and `return Err(text)` under a condition. -/
def refuse (bad : Prop) [Decidable bad] (text : String) : Except String Unit := if bad then .error text else .ok ()

structure ToolBlock where
  loadAddress : Word
  data : List Byte
  perm : Word
  deriving DecidableEq

/-- The bytes a block takes in memory, as the tools count them. -/
def ToolBlock.stop (b : ToolBlock) : Nat := b.loadAddress.toNat + b.data.length

structure ToolImage where
  isLib : Bool
  base : Word
  entry : Nat
  blocks : List ToolBlock
  debug : List Byte
  /-- Top and size of the stack. -/
  protection : Option (Word × Word)

/-- The bytes between two offsets. -/
def sliceOf (d : List Byte) (start stop : Nat) : List Byte := (d.drop start).take (stop - start)

/-- What the block loops share: the table entry of a block and the ranges around
it. -/
structure ToolTable where
  offset : Word
  entrySize : Word
  stop : Nat
  fileSize : Nat
  isProtected : Bool

/-- The loop over the block table.  The Rust reader tests the permission of a
block in it, the Python reader later on. -/
def toolBlocks (permInLoop : Bool) (d : List Byte) (table : ToolTable) (previous : Option Nat) :
    List Nat -> Except String (List ToolBlock × List Interval)
  | [] => .ok ([], [])
  | index :: rest => do
    let record := table.offset.toNat + index * table.entrySize.toNat
    let address := be32 d record
    let fileOffset := be32 d (record + 4)
    let size := be32 d (record + 8)
    let perm := if table.isProtected then be32 d (record + 12) else 0
    refuse (size = 0) "empty data block"
    refuse (permInLoop = true ∧ table.isProtected = true ∧ (perm = 0 ∨ perm &&& ~~~7 ≠ 0))
      "protected block permission must be a nonzero R/W/X mask"
    refuse (address.toNat + size.toNat > 2 ^ 32) "block address range wraps u32"
    refuse (∃ stop ∈ previous, address.toNat < stop) "blocks overlap or are not address-sorted"
    refuse (fileOffset.toNat % 4 ≠ 0) "block payload misaligned"
    let fileEnd := fileOffset.toNat + size.toNat
    refuse (fileOffset.toNat < table.stop ∨ fileEnd > table.fileSize) "block payload out of range"
    let (blocks, spans) ← toolBlocks permInLoop d table (some (address.toNat + size.toNat)) rest
    .ok (⟨address, sliceOf d fileOffset.toNat fileEnd, perm⟩ :: blocks, ⟨fileOffset.toNat, fileEnd⟩ :: spans)

/-- The debug data and its file range, if there is any. -/
def toolDebug (d : List Byte) (tableEnd fileSize : Nat) (flags offset size : Word) :
    Except String (List Byte × List Interval) := do
  refuse (¬ (size ≠ 0 ↔ flags &&& flagDebug ≠ 0)) "debug flag/size mismatch"
  if size = 0 then
    refuse (offset ≠ 0) "debug_offset must be 0 when debug is absent"
    .ok ([], [])
  else
    refuse (offset.toNat % 4 ≠ 0 ∨ offset.toNat < tableEnd) "debug block misaligned or overlaps metadata"
    let debugEnd := offset.toNat + size.toNat
    refuse (debugEnd > fileSize) "debug block out of range"
    .ok (sliceOf d offset.toNat debugEnd, [⟨offset.toNat, debugEnd⟩])

/-- The two readers are one, but for where they test permissions and how they
validate the protection. -/
def toolParse (permInLoop : Bool) (validate : Word -> Word -> List ToolBlock -> Nat -> Except String Unit) (d : List Byte) :
    Except String ToolImage := do
  refuse (d.length < 64) "too small for WAX header"
  refuse (d.take 4 ≠ magic) "bad magic (not WAX)"
  let ver := be16 d 4
  let ftype := be16 d 6
  let arch := be16 d 8
  let flags := be16 d 10
  let hsz := be32 d 12
  let base := be32 d 16
  let entryOffset := be32 d 20
  let tableOffset := be32 d 24
  let blockCount := be32 d 28
  let blockEntrySize := be32 d 32
  let fileSize := be32 d 44
  refuse (ver ≠ 2) ("unsupported version " ++ toString ver.toNat)
  refuse (ftype ≠ typeWax ∧ ftype ≠ typeWal) ("bad type " ++ toString ftype.toNat)
  refuse (arch ≠ 1) ("bad arch " ++ toString arch.toNat)
  refuse (hsz ≠ headerV2) ("bad header_size " ++ toString hsz.toNat)
  refuse (flags &&& ~~~3 ≠ 0) ("bad flags 0x" ++ String.ofList (Nat.toDigits 16 flags.toNat))
  let isProtected := decide (flags &&& flagProtected ≠ 0)
  refuse (isProtected = true ∧ ftype ≠ typeWax) "PROTECTED is only valid for .wax executables"
  refuse (∃ b ∈ sliceOf d (if isProtected then 56 else 48) 64, b ≠ 0) "reserved header bytes must be 0"
  refuse (fileSize.toNat ≠ d.length) "file_size mismatch"
  refuse (blockCount = 0) "empty block table"
  refuse (blockEntrySize ≠ if isProtected then 16 else 12) ("bad block_entry_size " ++ toString blockEntrySize.toNat)
  refuse (isProtected = true ∧ blockCount > 7) "protected WAX allows at most 7 blocks"
  refuse (tableOffset.toNat % 4 ≠ 0 ∨ tableOffset < headerV2) "block table misaligned or inside header"
  let tableEnd := tableOffset.toNat + blockCount.toNat * blockEntrySize.toNat
  refuse (tableEnd > fileSize.toNat) "block table out of range"
  let (blocks, spans) ← toolBlocks permInLoop d ⟨tableOffset, blockEntrySize, tableEnd, fileSize.toNat, isProtected⟩ none
    (List.range blockCount.toNat)
  let (debug, debugSpan) ← toolDebug d tableEnd fileSize.toNat flags (be32 d 36) (be32 d 40)
  let fileSpans := ⟨tableOffset.toNat, tableEnd⟩ :: spans ++ debugSpan
  refuse (inOrder (fileSpans.insertionSort Before) = false) "overlapping file blocks"
  let isLib := decide (ftype = typeWal)
  refuse (isLib = true ∧ (base ≠ 0 ∨ entryOffset ≠ 0)) ".wal base/entry must be 0"
  refuse (isLib = false ∧ ∃ b ∈ blocks.head?, base ≠ b.loadAddress) "base must equal the lowest WAX block address"
  let entry := base.toNat + entryOffset.toNat
  refuse (entry > 0xFFFFFFFF) "entry address wraps u32"
  refuse (isLib = false ∧ ¬ ∃ b ∈ blocks, b.loadAddress.toNat ≤ entry ∧ entry < b.stop) "entry outside image blocks"
  if isProtected then
    validate (be32 d 48) (be32 d 52) blocks entry
    .ok ⟨isLib, base, entry, blocks, debug, some (be32 d 48, be32 d 52)⟩
  else .ok ⟨isLib, base, entry, blocks, debug, none⟩

/-! ## `tools/wax/wax.py` -/

def pyValidateBlock (stackStart stackTop : Nat) (b : ToolBlock) : Except String Unit := do
  refuse (b.perm = 0 ∨ b.perm &&& ~~~7 ≠ 0) "protected block permission must be a nonzero R/W/X mask"
  refuse (stackStart < b.stop ∧ b.loadAddress.toNat < stackTop) "protected stack overlaps an image block"
  refuse (b.stop > cpuReserved.toNat) "protected block reaches the CPU-reserved area"

/-- `_validate_protection`. -/
def pyValidateProtection (stackTop stackSize : Word) (blocks : List ToolBlock) (entry : Nat) : Except String Unit := do
  refuse (stackSize = 0 ∨ stackSize.toNat % 4 ≠ 0 ∨ stackTop.toNat % 4 ≠ 0)
    "protected stack top/size must be nonzero multiples of 4"
  refuse (stackTop > cpuReserved ∨ stackSize > stackTop) "protected stack lies outside user-addressable memory"
  blocks.forM (pyValidateBlock (stackTop.toNat - stackSize.toNat) stackTop.toNat)
  refuse (¬ ∃ b ∈ blocks, b.loadAddress.toNat ≤ entry ∧ entry < b.stop ∧ b.perm &&& 4 ≠ 0)
    "protected entry must lie in an executable block"

/-- `parse` of `wax.py`. -/
def pyParse : List Byte -> Except String ToolImage := toolParse false pyValidateProtection

/-! ## `src/wax.rs` -/

/-- `validate_protection`. -/
def rustValidateProtection (stackTop stackSize : Word) (blocks : List ToolBlock) (entry : Nat) : Except String Unit := do
  refuse (stackSize = 0 ∨ stackSize.toNat % 4 ≠ 0 ∨ stackTop.toNat % 4 ≠ 0)
    "protected stack top/size must be nonzero multiples of 4"
  refuse (stackTop > cpuReserved ∨ stackSize > stackTop) "protected stack lies outside user-addressable memory"
  let stackStart := (stackTop - stackSize).toNat
  refuse (∃ b ∈ blocks, stackStart < b.stop ∧ b.loadAddress.toNat < stackTop.toNat)
    "protected stack overlaps an image block"
  refuse (∃ b ∈ blocks, b.stop > cpuReserved.toNat) "protected block reaches the CPU-reserved area"
  let entryBlock := blocks.find? fun b => b.loadAddress.toNat ≤ entry && entry < b.stop
  refuse (¬ ∃ b ∈ entryBlock, b.perm &&& 4 ≠ 0) "protected entry must lie in an executable block"

/-- `parse` of `wax.rs`. -/
def rustParse : List Byte -> Except String ToolImage := toolParse true rustValidateProtection

end Src32.Wax
