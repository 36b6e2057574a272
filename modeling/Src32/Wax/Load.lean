import Src32.Wax.Plan

namespace Src32.Wax

/-!
# The loader

`wax_load_mapped` copies the blocks of a plan, zeroes their tails and the
stack, relocates the executable and writes the import descriptors.  It writes
through a map from process addresses to the addresses of the memory the loader
sees; `wax_load` is the same through a constant bias.
-/

/-- The memory the loader writes. -/
abbrev Memory := Word -> Byte

/-- `wax_map_fn`: where a process address lives and how many bytes from there
are contiguous, at least 1. -/
structure Mapping where
  locate : Word -> Word
  run : Word -> Word
  positive : ∀ address, 1 ≤ (run address).toNat
  contiguous : ∀ address k, k < (run address).toNat ->
    locate (address + BitVec.ofNat 32 k) = locate address + BitVec.ofNat 32 k

/-- The kernel's own view: address `a` is at `bias + a`. -/
def biasMap (bias : Word) : Mapping where
  locate := fun address => bias + address
  run := fun _ => 0xFFFFFFFF
  positive := fun _ => by decide
  contiguous := fun address k _ => (BitVec.add_assoc bias address _).symm

/-- `copy_bytes` and, over zeros, `zero_bytes`. -/
def copyBytes (mem : Memory) (dst : Word) : List Byte -> Memory
  | [] => mem
  | b :: rest => copyBytes (fun at_ => if at_ = dst then b else mem at_) (dst + 1) rest

/-- The run loop of `put_bytes`.  A run is at least one byte, so the length of
the source is fuel enough. -/
def putRuns (map : Mapping) : Nat -> Word -> List Byte -> Memory -> Memory
  | 0, _, _, mem => mem
  | _, _, [], mem => mem
  | fuel + 1, address, b :: src, mem =>
    let run := min (map.run address).toNat (src.length + 1)
    putRuns map fuel (address + BitVec.ofNat 32 run) ((b :: src).drop run)
      (copyBytes mem (map.locate address) ((b :: src).take run))

/-- Writes bytes at a process address, one contiguous run at a time. -/
def putBytes (map : Mapping) (address : Word) (src : List Byte) (mem : Memory) : Memory :=
  putRuns map src.length address src mem

def putZeros (map : Mapping) (address n : Word) (mem : Memory) : Memory :=
  putBytes map address (List.replicate n.toNat 0) mem

def put32 (map : Mapping) (address value : Word) (mem : Memory) : Memory :=
  putBytes map address
    [(value >>> 24).setWidth 8, (value >>> 16).setWidth 8, (value >>> 8).setWidth 8, value.setWidth 8] mem

def get32 (map : Mapping) (address : Word) (mem : Memory) : Word :=
  Word.ofBytes (mem (map.locate address)) (mem (map.locate address + 1)) (mem (map.locate address + 2))
    (mem (map.locate address + 3))

/-- The instruction word `insn` with its 16-bit immediate replaced. -/
def immOf (insn imm : Word) : Word := insn - (insn &&& 0xFFFF) + (imm &&& 0xFFFF)

/-- One relocation entry. -/
def relocateOne (map : Mapping) (delta entry : Word) (mem : Memory) : Memory :=
  let place := relocAt entry + delta
  if entry &&& relocPair ≠ 0 then
    let high := get32 map place mem
    let low := get32 map (place + 4) mem
    let value := (high &&& 0xFFFF) * 0x10000 + (low &&& 0xFFFF) + delta
    put32 map (place + 4) (immOf low value) (put32 map place (immOf high (value / 0x10000)) mem)
  else put32 map place (get32 map place mem + delta) mem

/-- The relocation entries of an executable. -/
def Image.relocs (im : Image) : List Word := (indices im.relocCount).map fun i => im.word (im.relocTable + 4 * i)

/-- Adds the load offset to every address the executable holds. -/
def relocate (launch : Launch) (map : Mapping) (mem : Memory) : Memory :=
  match launch.images.head? with
  | none => mem
  | some exe =>
    if !exe.relocatable || launch.delta = 0 then mem
    else exe.relocs.foldl (fun mem entry => relocateOne map launch.delta entry mem) mem

/-- A word of the kernel's own memory. -/
def wordAt (mem : Memory) (at_ : Word) : Word :=
  Word.ofBytes (mem at_) (mem (at_ + 1)) (mem (at_ + 2)) (mem (at_ + 3))

def storeWord (mem : Memory) (at_ value : Word) : Memory :=
  copyBytes mem at_
    [(value >>> 24).setWidth 8, (value >>> 16).setWidth 8, (value >>> 8).setWidth 8, value.setWidth 8]

/-- One relocation entry on the words of the kernel's own memory. -/
def relocateFast (bias delta : Word) (mem : Memory) (entry : Word) : Memory :=
  let at_ := bias + relocAt entry + delta
  if entry &&& relocPair ≠ 0 then
    let high := wordAt mem at_
    let low := wordAt mem (at_ + 4)
    let value := (high <<< 16) + (low &&& 0xFFFF) + delta
    storeWord (storeWord mem at_ ((high &&& 0xFFFF0000) ||| value >>> 16)) (at_ + 4)
      ((low &&& 0xFFFF0000) ||| (value &&& 0xFFFF))
  else storeWord mem at_ (wordAt mem at_ + delta)

/-- The big-endian kernel's `relocate` through `bias_map`; `aligned` says that
the file lies at a multiple of 4. -/
def relocateBias (launch : Launch) (aligned : Bool) (bias : Word) (mem : Memory) : Memory :=
  match launch.images.head? with
  | none => mem
  | some exe =>
    if !exe.relocatable || launch.delta = 0 then mem
    else if aligned then exe.relocs.foldl (relocateFast bias launch.delta) mem
    else relocate launch (biasMap bias) mem

/-- One block of an image and its zero tail. -/
def loadBlock (map : Mapping) (im : Image) (mem : Memory) (b : Block) : Memory :=
  putZeros map (blockStart im b + b.fileSize) (b.memorySize - b.fileSize)
    (putBytes map (blockStart im b) (im.data.slice b.fileOffset b.fileSize) mem)

def loadBlocks (map : Mapping) (mem : Memory) (im : Image) : Memory := im.blocks.foldl (loadBlock map im) mem

/-- The descriptor of one import: resolved address and provider origin. -/
def bindImport (images : List Image) (map : Mapping) (im : Image) (mem : Memory) (k : Word) : Memory :=
  let e := im.importTable + 24 * k
  let from_ := provider images im e
  let x := findExport from_ ((str im (im.word (e + 4))).getD [])
  let slot := im.origin + im.word (e + 12)
  put32 map (slot + 4) from_.origin (put32 map slot (from_.origin + from_.word (x + 8)) mem)

def bindImports (images : List Image) (map : Mapping) (mem : Memory) (im : Image) : Memory :=
  (indices im.importCount).foldl (bindImport images map im) mem

/-- The steps of `wax_load_mapped` around its relocation. -/
def loadWith (launch : Launch) (map : Mapping) (relocation : Memory -> Memory) (mem : Memory) : Memory :=
  let mem := launch.images.foldl (loadBlocks map) mem
  let mem := putZeros map (launch.stackTop - launch.stackSize) launch.stackSize mem
  launch.images.foldl (bindImports launch.images map) (relocation mem)

def waxLoadMapped (launch : Launch) (map : Mapping) (mem : Memory) : Memory :=
  loadWith launch map (relocate launch map) mem

def waxLoad (launch : Launch) (aligned : Bool) (bias : Word) (mem : Memory) : Memory :=
  loadWith launch (biasMap bias) (relocateBias launch aligned bias) mem

end Src32.Wax
