import Src32.Lib.Patches
import Src32.Wax.Agreement

namespace Src32.Wax

/-!
# The writer of version 2

`pack` of `tools/wax/wax.py`.  Its numbers are Python's integers.  The file is a
buffer of zeros into which header, block table, payloads and debug data are written.
-/

/-- A block as it is given to `pack`; the permission may be left out. -/
structure GivenBlock where
  address : Int
  data : List Byte
  perm : Option Int

/-- A block in `pack`. -/
structure PackBlock where
  address : Int
  data : List Byte
  perm : Int

/-- `block[2] if len(block) > 2 else 0`. -/
def GivenBlock.full (b : GivenBlock) : PackBlock := ⟨b.address, b.data, b.perm.getD 0⟩

namespace PackBlock

/-- The order of tuples. -/
def Before (a b : PackBlock) : Prop :=
  a.address < b.address ∨ a.address = b.address ∧ (a.data < b.data ∨ a.data = b.data ∧ a.perm ≤ b.perm)

instance : DecidableRel Before := fun _ _ => inferInstanceAs (Decidable (_ ∨ _))

/-- `address + len(payload)`. -/
def stop (b : PackBlock) : Int := b.address + b.data.length

end PackBlock

/-- `0 <= n <= 0xFFFFFFFF`. -/
def FitsU32 (n : Int) : Prop := 0 ≤ n ∧ n ≤ 0xFFFFFFFF

instance (n : Int) : Decidable (FitsU32 n) := inferInstanceAs (Decidable (_ ∧ _))

/-- The loop over the sorted blocks. -/
def packChecks (previousEnd : Option Int) : List PackBlock -> Except String Unit
  | [] => .ok ()
  | b :: rest => do
    refuse (¬ FitsU32 b.address ∨ b.data = [] ∨ b.data.length > 0xFFFFFFFF) "block address and nonempty size must fit u32"
    refuse (b.stop > 0x100000000) "block address range wraps u32"
    refuse (∃ stop ∈ previousEnd, b.address < stop) "overlapping blocks"
    packChecks (some b.stop) rest

/-- A block in `_validate_protection`; `perm & ~7` is zero from 0 to 7 only. -/
def packValidateBlock (stackStart stackTop : Int) (b : PackBlock) : Except String Unit := do
  refuse (b.perm = 0 ∨ ¬ (0 ≤ b.perm ∧ b.perm ≤ 7)) "protected block permission must be a nonzero R/W/X mask"
  refuse (stackStart < b.stop ∧ b.address < stackTop) "protected stack overlaps an image block"
  refuse (b.stop > cpuReserved.toNat) "protected block reaches the CPU-reserved area"

/-- `_validate_protection` on the numbers given to `pack`. -/
def packValidate (stackTop stackSize : Int) (blocks : List PackBlock) (entry : Int) : Except String Unit := do
  refuse (stackSize = 0 ∨ stackSize % 4 ≠ 0 ∨ stackTop % 4 ≠ 0) "protected stack top/size must be nonzero multiples of 4"
  refuse (stackTop > cpuReserved.toNat ∨ stackSize > stackTop) "protected stack lies outside user-addressable memory"
  blocks.forM (packValidateBlock (stackTop - stackSize) stackTop)
  refuse (¬ ∃ b ∈ blocks, b.address ≤ entry ∧ entry < b.stop ∧ b.perm.toNat &&& 4 ≠ 0)
    "protected entry must lie in an executable block"

/-- What `pack` does with the protection; `struct.pack` refuses negative numbers. -/
def packProtection (blocks : List PackBlock) (entry : Int) : Option (Int × Int) -> Except String Unit
  | none => .ok ()
  | some stack => do
    refuse (7 < blocks.length) "protected WAX allows at most 7 blocks"
    packValidate stack.1 stack.2 blocks entry
    refuse (¬ FitsU32 stack.1 ∨ ¬ FitsU32 stack.2) "argument out of range"

/-- `_align4`. -/
def align4 (n : Nat) : Nat := (n + 3) / 4 * 4

/-- The file offsets of the payloads, and the cursor behind them. -/
def layOut (cursor : Nat) : List PackBlock -> List (PackBlock × Nat) × Nat
  | [] => ([], cursor)
  | b :: rest =>
    let more := layOut (align4 cursor + b.data.length) rest
    ((b, align4 cursor) :: more.1, more.2)

def u32Bytes (n : Int) : List Byte := bytesOfWord (BitVec.ofInt 32 n)

def u16Bytes (n : Nat) : List Byte := [BitVec.ofNat 8 (n / 256), BitVec.ofNat 8 n]

/-- The entry of a block in the block table. -/
def packRecord (isProtected : Bool) (placed : PackBlock × Nat) : List Byte :=
  u32Bytes placed.1.address ++ (u32Bytes placed.2 ++ (u32Bytes placed.1.data.length ++
    if isProtected then u32Bytes placed.1.perm else []))

/-- The block table and the payloads, with the offsets they are written at. -/
def packPieces (isProtected : Bool) (entrySize : Nat) (index : Nat) : List (PackBlock × Nat) -> List (Nat × List Byte)
  | [] => []
  | placed :: rest =>
    (64 + index * entrySize, packRecord isProtected placed) :: (placed.2, placed.1.data) ::
      packPieces isProtected entrySize (index + 1) rest

/-- The header of a file. -/
structure PackHeader where
  ftype : Nat
  flags : Nat
  base : Int
  entryOffset : Int
  blockCount : Nat
  entrySize : Nat
  debugOffset : Nat
  debugSize : Nat
  fileSize : Nat
  /-- Top and size of the stack, or zeros. -/
  stack : Int × Int

/-- `struct.pack(_FMT, ...)`. -/
def PackHeader.bytes (h : PackHeader) : List Byte :=
  magic ++ (u16Bytes 2 ++ (u16Bytes h.ftype ++ (u16Bytes 1 ++ (u16Bytes h.flags ++ (u32Bytes 64 ++ (u32Bytes h.base ++
    (u32Bytes h.entryOffset ++ (u32Bytes 64 ++ (u32Bytes h.blockCount ++ (u32Bytes h.entrySize ++
      (u32Bytes h.debugOffset ++ (u32Bytes h.debugSize ++ (u32Bytes h.fileSize ++
        (u32Bytes h.stack.1 ++ (u32Bytes h.stack.2 ++ List.replicate 8 0)))))))))))))))

/-- The bytes of a file: where everything is and what `pack` writes there. -/
def packFile (isProtected isLib : Bool) (base entryOffset : Int) (stack : Int × Int) (blocks : List PackBlock)
    (debug : List Byte) : PackHeader × List (Nat × List Byte) :=
  let entrySize := if isProtected then 16 else 12
  let layout := layOut (64 + blocks.length * entrySize) blocks
  let debugOffset := if debug = [] then 0 else align4 layout.2
  let fileSize := if debug = [] then layout.2 else align4 layout.2 + debug.length
  let header : PackHeader :=
    { ftype := if isLib then 2 else 1
      flags := (if debug = [] then 0 else 1) + if isProtected then 2 else 0
      base := base
      entryOffset := entryOffset
      blockCount := blocks.length
      entrySize := entrySize
      debugOffset := debugOffset
      debugSize := debug.length
      fileSize := fileSize
      stack := stack }
  (header, (0, header.bytes) :: packPieces isProtected entrySize 0 layout.1 ++
    if debug = [] then [] else [(debugOffset, debug)])

/-- `pack`. -/
def pack (base entryOffset : Int) (given : List GivenBlock) (debug : List Byte) (kind : String)
    (protection : Option (Int × Int)) : Except String (List Byte) := do
  refuse (kind ≠ "wax" ∧ kind ≠ "wal") "kind must be 'wax' or 'wal'"
  refuse (protection.isSome = true ∧ kind ≠ "wax") "PROTECTED is only valid for .wax executables"
  let blocks := (given.map GivenBlock.full).insertionSort PackBlock.Before
  refuse (blocks = []) "at least one data block is required"
  refuse (¬ FitsU32 base ∨ ¬ FitsU32 entryOffset) "base and entry_offset must fit u32"
  refuse (kind = "wal" ∧ (base ≠ 0 ∨ entryOffset ≠ 0)) ".wal base/entry must be 0"
  packChecks none blocks
  refuse (kind = "wax" ∧ ∃ b ∈ blocks.head?, base ≠ b.address) "base must equal the lowest WAX block address"
  let entry := base + entryOffset
  refuse (entry > 0xFFFFFFFF) "entry address wraps u32"
  refuse (kind = "wax" ∧ ¬ ∃ b ∈ blocks, b.address ≤ entry ∧ entry < b.stop) "entry outside image blocks"
  packProtection blocks entry protection
  let file := packFile protection.isSome (decide (kind = "wal")) base entryOffset (protection.getD (0, 0)) blocks debug
  refuse (file.1.fileSize > 0xFFFFFFFF ∨ blocks.length * file.1.entrySize > 0xFFFFFFFF) "WAX file is too large"
  .ok (file.2.foldl patch (List.replicate file.1.fileSize 0))

/-! ## What `pack` accepts -/

/-- The blocks that pass the loop, behind one that ends at `previousEnd`. -/
def Packed (previousEnd : Option Int) : List PackBlock -> Prop
  | [] => True
  | b :: rest => FitsU32 b.address ∧ b.data ≠ [] ∧ b.stop ≤ 0x100000000 ∧ (∀ stop ∈ previousEnd, stop ≤ b.address) ∧
      Packed (some b.stop) rest

theorem packChecks_iff {previousEnd : Option Int} {blocks : List PackBlock} :
    packChecks previousEnd blocks = .ok () -> Packed previousEnd blocks := by
  induction blocks generalizing previousEnd with
  | nil => exact fun _ => trivial
  | cons b rest ih =>
    unfold packChecks
    simp only [refuse_bind]
    rintro ⟨shape, whole, order, done⟩
    simp only [not_or, not_not] at shape
    refine ⟨shape.1, shape.2.1, Int.not_lt.mp whole, fun stop member => ?_, ih done⟩
    exact Int.not_lt.mp fun below => order ⟨stop, member, below⟩

/-- A protection that `pack` accepts. -/
structure PackGuarded (stackTop stackSize : Int) (blocks : List PackBlock) (entry : Int) : Prop where
  shape : stackSize ≠ 0 ∧ stackSize % 4 = 0 ∧ stackTop % 4 = 0
  place : stackTop ≤ cpuReserved.toNat ∧ stackSize ≤ stackTop
  perms : ∀ b ∈ blocks, b.perm ≠ 0 ∧ 0 ≤ b.perm ∧ b.perm ≤ 7
  clear : ∀ b ∈ blocks, ¬ (stackTop - stackSize < b.stop ∧ b.address < stackTop)
  below : ∀ b ∈ blocks, b.stop ≤ cpuReserved.toNat
  entry : ∃ b ∈ blocks, b.address ≤ entry ∧ entry < b.stop ∧ b.perm.toNat &&& 4 ≠ 0
  fits : FitsU32 stackTop ∧ FitsU32 stackSize
  few : blocks.length ≤ 7

theorem packProtection_some {blocks : List PackBlock} {entry : Int} {stack : Int × Int}
    (done : packProtection blocks entry (some stack) = .ok ()) : PackGuarded stack.1 stack.2 blocks entry := by
  unfold packProtection packValidate at done
  simp only [refuse_bind] at done
  obtain ⟨few, done⟩ := done
  obtain ⟨_, valid, fits⟩ := Fallible.bind_ok done
  simp only [refuse_bind] at valid
  obtain ⟨shape, place, valid⟩ := valid
  obtain ⟨_, all, inside⟩ := Fallible.bind_ok valid
  have each : ∀ b ∈ blocks, packValidateBlock (stack.1 - stack.2) stack.1 b = .ok () := Fallible.forM_ok all
  unfold packValidateBlock at each
  simp only [refuse_bind, refuse_ok] at each
  simp only [not_or, not_not] at shape place
  have range := refuse_ok.mp fits
  simp only [not_or, not_not] at range
  refine ⟨shape, ⟨Int.not_lt.mp place.1, Int.not_lt.mp place.2⟩, fun b member => ?_, fun b member => (each b member).2.1,
    fun b member => Int.not_lt.mp (each b member).2.2, not_not.mp (refuse_ok.mp inside), range, Nat.not_lt.mp few⟩
  have perm := (each b member).1
  rw [not_or, not_not] at perm
  exact perm

/-- Everything `pack` has checked when it returns a file. -/
structure PackAccepts (base entryOffset : Int) (blocks : List PackBlock) (debug : List Byte) (kind : String)
    (protection : Option (Int × Int)) : Prop where
  known : kind = "wax" ∨ kind = "wal"
  onlyWax : protection.isSome = true -> kind = "wax"
  some_ : blocks ≠ []
  baseFits : FitsU32 base
  offsetFits : FitsU32 entryOffset
  library : kind = "wal" -> base = 0 ∧ entryOffset = 0
  packed : Packed none blocks
  lowest : kind = "wax" -> ∀ b ∈ blocks.head?, base = b.address
  entryWhole : base + entryOffset ≤ 0xFFFFFFFF
  entry : kind = "wax" -> ∃ b ∈ blocks, b.address ≤ base + entryOffset ∧ base + entryOffset < b.stop
  guarded : ∀ stack ∈ protection, PackGuarded stack.1 stack.2 blocks (base + entryOffset)
  size : (packFile protection.isSome (decide (kind = "wal")) base entryOffset (protection.getD (0, 0)) blocks debug).1.fileSize ≤
    0xFFFFFFFF

theorem pack_ok {base entryOffset : Int} {given : List GivenBlock} {debug : List Byte} {kind : String}
    {protection : Option (Int × Int)} {d : List Byte}
    (done : pack base entryOffset given debug kind protection = .ok d) :
    PackAccepts base entryOffset ((given.map GivenBlock.full).insertionSort PackBlock.Before) debug kind protection ∧
    d = (packFile protection.isSome (decide (kind = "wal")) base entryOffset (protection.getD (0, 0))
        ((given.map GivenBlock.full).insertionSort PackBlock.Before) debug).2.foldl patch
      (List.replicate (packFile protection.isSome (decide (kind = "wal")) base entryOffset (protection.getD (0, 0))
        ((given.map GivenBlock.full).insertionSort PackBlock.Before) debug).1.fileSize 0) := by
  unfold pack at done
  dsimp only at done
  simp only [refuse_bind] at done
  obtain ⟨known, onlyWax, some_, fits, library, done⟩ := done
  obtain ⟨_, checked, done⟩ := Fallible.bind_ok done
  simp only [refuse_bind] at done
  obtain ⟨lowest, whole, entry, done⟩ := done
  obtain ⟨_, guarded, done⟩ := Fallible.bind_ok done
  rw [refuse_bind] at done
  obtain ⟨size, done⟩ := done
  simp only [not_or, not_not] at fits size
  refine ⟨⟨?_, ?_, some_, fits.1, fits.2, ?_, packChecks_iff checked, ?_, Int.not_lt.mp whole, ?_, ?_, Nat.not_lt.mp size.1⟩,
    (Except.ok.inj done).symm⟩
  · by_contra other
    rw [not_or] at other
    exact known other
  · exact fun isProtected => not_not.mp fun other => onlyWax ⟨isProtected, other⟩
  · intro wal
    by_contra other
    rw [not_and_or] at other
    exact library ⟨wal, other⟩
  · exact fun wax b member => not_not.mp fun other => lowest ⟨wax, b, member, other⟩
  · exact fun wax => not_not.mp fun outside => entry ⟨wax, outside⟩
  · intro stack member
    rw [Option.mem_def.mp member] at guarded
    exact packProtection_some guarded

end Src32.Wax
