import Src32.Wax.Parse

namespace Src32.Wax

/-!
# Launch planning

Provider selection, import checks, placement and region planning of `wax.c`.
The `wax_launch` record is returned instead of written through a pointer; a
failed plan returns the diagnostics `fail` leaves in it.
-/

structure Region where
  start : Word
  stop : Word
  flags : Word
  deriving DecidableEq

/-- What the OS supports and where the process may live. -/
structure Target where
  osId : List Byte
  osMajor : Word
  osMinor : Word
  windowStart : Word
  windowEnd : Word
  /-- Where a relocatable executable is to run; 0 keeps the link address. -/
  loadBase : Word

structure Launch where
  /-- `images[0]` is the executable. -/
  images : List Image
  entry : Word
  stackTop : Word
  stackSize : Word
  /-- End of the highest block: where the heap starts. -/
  top : Word
  /-- Load address minus link address of the executable. -/
  delta : Word
  heapHint : Word
  /-- The first one is the stack. -/
  regions : List Region

/-- The error of a failed plan and its diagnostics: the requesting image, its
dependency or import index, and the symbol or library ID involved. -/
structure Failure where
  error : Error
  image : Nat
  index : Word
  name : Option (List Byte)
  deriving DecidableEq

def fail {α : Type} (error : Error) (image : Nat) (index : Word) (name : Option (List Byte)) :
    Except Failure α := .error ⟨error, image, index, name⟩

/-- An error without diagnostics. -/
def Failure.plain (error : Error) : Failure := ⟨error, 0, 0, none⟩

/-- Every version 3 image names the same OS ABI, at a minor the OS supports. -/
def abiOk (im : Image) (target : Target) : Bool :=
  str im (im.word 108) = some target.osId && im.word 112 = target.osMajor && im.word 116 ≤ target.osMinor

/-! ## Dependencies -/

/-- The name comparison of `mayProvide`, up to and with the NUL. -/
def idAt (lib : File) (strings size : Word) : Word -> List Byte -> Bool
  | offset, [] => offset < size && lib.byte (strings + offset) = 0
  | offset, c :: rest =>
    offset < size && lib.byte (strings + offset) = c && idAt lib strings size (offset + 1) rest

/-- Cheap filter before a full parse: a version 3 library whose header names
this image ID at this major. -/
def mayProvide (lib : File) (id : List Byte) (major : Word) : Bool :=
  let strings := lib.rd32 88
  let size := lib.rd32 92
  let offset := lib.rd32 96
  !(lib.size < headerV3 || lib.rd16 4 ≠ 3 || lib.rd16 6 ≠ typeWal || lib.rd32 100 ≠ major) &&
    !(strings > lib.size || size > lib.size - strings || offset ≥ size) && idAt lib strings size offset id

/-- One candidate against the best provider so far. -/
def considerProvider (id : List Byte) (major : Word) (chosen : Option Image) (lib : File) : Option Image :=
  if !mayProvide lib id major then chosen
  else
    match parse lib with
    | .error _ => chosen
    | .ok candidate =>
      if candidate.version ≠ 3 ∨ candidate.type ≠ typeWal ∨ candidate.abiMajor ≠ major ∨
          str candidate candidate.imageId ≠ some id then chosen
      else
        match chosen with
        | none => some candidate
        | some best => if candidate.abiMinor > best.abiMinor then some candidate else some best

/-- Provider selection: the highest `abi_minor`, the first one listed on a tie. -/
def chooseProvider (libs : List File) (id : List Byte) (major : Word) : Option Image :=
  libs.foldl (considerProvider id major) none

structure Resolver where
  images : List Image
  /-- 1 while the dependencies of an image resolve, then 2. -/
  color : Nat -> Nat
  /-- Post-order: dependencies first. -/
  order : List Nat

namespace Resolver

def image (r : Resolver) (index : Nat) : Image := r.images.getD index (Image.blank ⟨[], by decide⟩ 0)

def setColor (r : Resolver) (index value : Nat) : Resolver :=
  { r with color := fun i => if i = index then value else r.color i }

/-- `im->dep_image[d] = j` for the next `d`. -/
def setDep (r : Resolver) (index j : Nat) : Resolver :=
  { r with images := r.images.modify index fun im => { im with depImage := im.depImage ++ [j] } }

def add (r : Resolver) (chosen : Image) : Resolver :=
  { r with images := r.images ++ [chosen] }.setColor r.images.length 0

/-- The image is resolved: it is placed behind its dependencies. -/
def finish (r : Resolver) (index : Nat) : Resolver :=
  { r.setColor index 2 with order := r.order ++ [index] }

/-- The library with this image ID that is already part of the launch. -/
def find (r : Resolver) (id : List Byte) : Option Nat :=
  ((List.range r.images.length).drop 1).find? fun j =>
    str (r.image j) (r.image j).imageId = some id

end Resolver

/-- One dependency of an image; `recurse` resolves a library just added. -/
def resolveDep (libs : List File) (target : Target) (recurse : Nat -> Resolver -> Except Failure Resolver)
    (index : Nat) (r : Resolver) (d : Word) : Except Failure Resolver :=
  let im := r.image index
  let e := im.depTable + 16 * d
  let id := (str im (im.word e)).getD []
  let major := im.word (e + 4)
  let minor := im.word (e + 8)
  match r.find id with
  | some j =>
    if r.color j = 1 then fail .dependencyCycle index d (some id)
    else if (r.image j).abiMajor ≠ major then fail .dependencyConflict index d (some id)
    else if (r.image j).abiMinor < minor then fail .dependencyMissing index d (some id)
    else .ok (r.setDep index j)
  | none =>
    if r.images.length = waxMaxImages then fail .resourceLimit index d (some id)
    else
      match chooseProvider libs id major with
      | none => fail .dependencyMissing index d (some id)
      | some chosen =>
        if chosen.abiMinor < minor then fail .dependencyMissing index d (some id)
        else if !abiOk chosen target then fail .abiMismatch index d (some id)
        else
          match recurse r.images.length (r.add chosen) with
          | .error failure => .error failure
          | .ok resolved => .ok (resolved.setDep index r.images.length)

/-- A recursion adds an image and there are at most `waxMaxImages`, which is
the fuel `waxPlan` gives it. -/
def resolve (libs : List File) (target : Target) : Nat -> Nat -> Resolver -> Except Failure Resolver
  | 0, index, _ => fail .resourceLimit index 0 none
  | fuel + 1, index, r =>
    match (indices (r.image index).depCount).foldlM (resolveDep libs target (resolve libs target fuel) index)
        (r.setColor index 1) with
    | .error failure => .error failure
    | .ok resolved => .ok (resolved.finish index)

/-! ## Imports -/

/-- The binary search of `findExport` between `low` and `high`. -/
def searchExport (im : Image) (name : List Byte) : Nat -> Word -> Word -> Word
  | 0, _, _ => 0
  | fuel + 1, low, high =>
    if !(low < high) then 0
    else
      let mid := low + (high - low) / 2
      let e := im.exportTable + 24 * mid
      let symbol := (str im (im.word e)).getD []
      if name = symbol then e
      else if strLess name symbol then searchExport im name fuel low mid
      else searchExport im name fuel (mid + 1) high

/-- Export entry offset of `name`, or 0.  The interval shrinks at every step. -/
def findExport (im : Image) (name : List Byte) : Word :=
  searchExport im name (im.exportCount.toNat + 1) 0 im.exportCount

/-- The image that provides an import of `im`. -/
def provider (images : List Image) (im : Image) (e : Word) : Image :=
  images.getD (im.depImage.getD (im.word e).toNat 0) im

/-- One import of image `i`. -/
def checkImport (images : List Image) (i : Nat) (im : Image) (k : Word) : Except Failure Unit :=
  let e := im.importTable + 24 * k
  let from_ := provider images im e
  let name := (str im (im.word (e + 4))).getD []
  let x := findExport from_ name
  let kind := im.word (e + 8)
  if x = 0 then fail .symbolMissing i k (some name)
  else if from_.word (x + 4) ≠ kind ∨
      (if kind = kindFunction then str im (im.word (e + 20)) ≠ str from_ (from_.word (x + 16))
        else im.word (e + 16) ≠ from_.word (x + 12)) then
    fail .symbolMismatch i k (some name)
  else .ok ()

def checkImports (images : List Image) : Except Failure Unit :=
  images.zipIdx.forM fun (im, i) => (indices im.importCount).forM (checkImport images i im)

/-! ## Placement -/

def overlaps (a aEnd b bEnd : Word) : Bool := a < bEnd && b < aEnd

/-- The `while (moved)` loop of `place`.  Each taken range moves the library at
most once, so their number is fuel enough. -/
def findSlot (im : Image) (windowEnd : Word) (taken : List Span) : Nat -> Word -> Option Word
  | 0, _ => none
  | fuel + 1, start =>
    let mask := im.align - 1
    if start > 0xFFFFFFFF - mask then none
    else
      let aligned := (start + mask) &&& ~~~mask
      if im.span > windowEnd ∨ aligned > windowEnd - im.span then none
      else
        match taken.find? fun t => overlaps aligned (aligned + im.span) t.start t.stop with
        | none => some aligned
        | some t => findSlot im windowEnd taken fuel t.stop

/-- The images and the ranges taken so far. -/
structure Placing where
  images : List Image
  taken : List Span

/-- The library gets the slot found for it. -/
def placeAt (p : Placing) (index : Nat) (im : Image) : Option Word -> Except Failure Placing
  | none => fail .format index 0 none
  | some start => .ok ⟨p.images.set index { im with origin := start }, p.taken ++ [⟨start, start + im.span⟩]⟩

/-- First fit from the window start for one library. -/
def placeOne (target : Target) (p : Placing) (index : Nat) : Except Failure Placing :=
  if index = 0 then .ok p
  else
    match p.images[index]? with
    | none => .ok p
    | some im =>
      placeAt p index im
        (findSlot im target.windowEnd p.taken (p.taken.length + 1) target.windowStart)

/-- The executable and its stack. -/
def exeTaken (exe : Image) (delta : Word) : List Span :=
  [⟨exe.origin, exe.origin + exe.span⟩, ⟨exe.stackTop - exe.stackSize + delta, exe.stackTop + delta⟩]

/-- Libraries go clear of the executable, its stack and the libraries placed
before them, in dependency post-order. -/
def place (target : Target) (delta : Word) (exe : Image) (images : List Image) (order : List Nat) :
    Except Failure (List Image) :=
  if (exeTaken exe delta).any fun t => t.start < target.windowStart || t.stop > target.windowEnd then
    fail .format 0 0 none
  else
    match order.foldlM (placeOne target) ⟨images, exeTaken exe delta⟩ with
    | .error failure => .error failure
    | .ok placed => .ok placed.images

/-! ## Regions -/

/-- Runtime address of a block. -/
def blockStart (im : Image) (b : Block) : Word := im.origin + (b.address - im.base)

/-- The image whose next block starts lowest, the first of several. -/
def lowest : List (Nat × Image × List Block) -> Option (Nat × Word × Block)
  | [] => none
  | (_, _, []) :: rest => lowest rest
  | (i, im, b :: _) :: rest =>
    match lowest rest with
    | none => some (i, blockStart im b, b)
    | some (j, start, chosen) =>
      if start < blockStart im b then some (j, start, chosen) else some (i, blockStart im b, b)

/-- Region list with the latest one first, and the end of the highest block. -/
structure Planning where
  regions : List Region
  top : Word

/-- One block of the merge: it extends the region before it or starts one. -/
def addRegion (p : Planning) (start : Word) (b : Block) : Option Planning :=
  let stop := start + b.memorySize
  let top := if stop > p.top then stop else p.top
  match p.regions with
  | [] => none
  | last :: rest =>
    if rest ≠ [] ∧ last.stop = start ∧ last.flags = b.perm then
      some ⟨{ last with stop := stop } :: rest, top⟩
    else if p.regions.length = waxRegions then none
    else some ⟨⟨start, stop, b.perm⟩ :: p.regions, top⟩

/-- The merge of all block tables in address order.  Every round takes one
block. -/
def mergeBlocks : Nat -> List (Nat × Image × List Block) -> Planning -> Except Failure Planning
  | 0, _, p => .ok p
  | fuel + 1, queues, p =>
    match lowest queues with
    | none => .ok p
    | some (best, start, b) =>
      match addRegion p start b with
      | none =>
        let left := ((queues.find? fun q => q.1 = best).map fun q => q.2.2.length).getD 0
        let count := ((queues.find? fun q => q.1 = best).map fun q => q.2.1.blocks.length).getD 0
        fail .regionLimit best (BitVec.ofNat 32 (count - left)) none
      | some p =>
        mergeBlocks fuel
          (queues.map fun q => if q.1 = best then (q.1, q.2.1, q.2.2.tail) else q) p

/-- Region 0 is the stack; the blocks of all images follow in address order,
merging only exactly adjacent blocks with equal permissions. -/
def planRegions (exe : Image) (delta : Word) (images : List Image) : Except Failure Planning :=
  mergeBlocks (images.map fun im => im.blocks.length).sum
    (images.zipIdx.map fun (im, i) => (i, im, im.blocks))
    ⟨[⟨exe.stackTop - exe.stackSize + delta, exe.stackTop + delta, permRw⟩], 0⟩

/-! ## The plan -/

/-- Origin of the executable and the load offset, `none` when `load_base` does
not suit it. -/
def loadOrigin (exe : Image) (target : Target) : Option (Word × Word) :=
  if exe.relocatable && target.loadBase ≠ 0 then
    -- the stack moves with the image
    if target.loadBase < exe.stackSize ∨ target.loadBase &&& 3 ≠ 0 ∨
        exe.span > cpuReserved - target.loadBase then none
    else some (target.loadBase, target.loadBase - exe.base)
  else some (exe.base, 0)

/-- The plan of an executable whose origin is chosen. -/
def planFrom (libs : List File) (target : Target) (exe : Image) (delta : Word) : Except Failure Launch := do
  let r ← resolve libs target waxMaxImages 0 ⟨[exe], fun _ => 0, []⟩
  checkImports r.images
  let images ← place target delta exe r.images r.order
  let planning ← planRegions exe delta images
  .ok
    { images := images
      entry := exe.origin + exe.entryOffset
      stackTop := exe.stackTop + delta
      stackSize := exe.stackSize
      top := planning.top
      delta := delta
      heapHint := exe.heapHint
      regions := planning.regions.reverse }

def waxPlan (data : File) (libs : List File) (target : Target) : Except Failure Launch :=
  match parse data with
  | .error error => .error (.plain error)
  | .ok exe =>
    if exe.type ≠ typeWax then .error (.plain .format)
    else if exe.version = 3 ∧ !abiOk exe target then .error (.plain .abiMismatch)
    else
      match loadOrigin exe target with
      | none => .error (.plain .format)
      | some (origin, delta) => planFrom libs target { exe with origin := origin } delta

/-- Moves a successful plan by `shift` bytes. -/
def waxRebase (launch : Launch) (shift : Word) : Except Error Launch :=
  if launch.images.any fun im => im.align > 1 && shift &&& (im.align - 1) ≠ 0 then .error .format
  else
    .ok
      { launch with
        images := launch.images.map fun im => { im with origin := im.origin + shift }
        regions := launch.regions.map fun region =>
          { region with start := region.start + shift, stop := region.stop + shift }
        entry := launch.entry + shift
        stackTop := launch.stackTop + shift
        top := launch.top + shift
        delta := launch.delta + shift }

/-! ## The plan of an executable and two libraries -/

/-- The big-endian bytes of a list of words. -/
def bytesOf : List Word -> List Byte
  | [] => []
  | w :: rest =>
    (w >>> 24).setWidth 8 :: (w >>> 16).setWidth 8 :: (w >>> 8).setWidth 8 :: w.setWidth 8 :: bytesOf rest

theorem bytesOf_length (words : List Word) : (bytesOf words).length = 4 * words.length := by
  induction words with
  | nil => rfl
  | cons w rest rec =>
    simp only [bytesOf, List.length_cons, rec]
    omega

/-- The window of the virtual memory backend. -/
def vmTarget : Target := ⟨ascii "foundation", 1, 0, 0x1000, 0x10000000, 0⟩

/-- An executable `a` that depends on `b`, with one import. -/
def appFile : File :=
  ⟨bytesOf [0x57415800, 0x00030001, 0x00010002, 160, 272, 1, 0x400000, 0, 0x700000, 0x1000, 160, 2, 24, 208, 1, 16, 0, 0,
    24, 224, 1, 24, 248, 18, 1, 1, 0, 5, 1, 0, 0, 0, 0, 0, 0, 0, 0, 0, 0, 0, 0x400000, 268, 4, 4, 5, 4, 0x401000, 0, 0, 8, 3,
    4, 3, 1, 0, 0, 0, 16, 2, 0x1000, 4, 0, 0x00610062, 0x00666F75, 0x6E646174, 0x696F6E00, 0x78000000, 0], by
    rw [bytesOf_length]
    exact (by decide : 4 * 68 < 2 ^ 32)⟩

/-- A library `b` that depends on a library `a`. -/
def middleFile : File :=
  ⟨bytesOf [0x57415800, 0x00030002, 0x00010002, 160, 296, 1, 0, 0, 0, 0, 160, 2, 24, 208, 1, 16, 224, 1, 24, 248, 1, 24,
    272, 18, 3, 1, 0, 5, 1, 0, 0, 0, 0, 0, 0, 0, 0, 0, 0, 0, 0, 292, 4, 4, 1, 4, 0x1000, 0, 0, 8, 3, 4, 1, 1, 0, 0, 16, 2, 0, 4,
    0, 0, 0, 16, 2, 0x1000, 4, 0, 0x00610062, 0x00666F75, 0x6E646174, 0x696F6E00, 0x78000000, 0], by
    rw [bytesOf_length]
    exact (by decide : 4 * 74 < 2 ^ 32)⟩

/-- A library `a`. -/
def leafFile : File :=
  ⟨bytesOf [0x57415800, 0x00030002, 0x00010002, 160, 232, 1, 0, 0, 0, 0, 160, 1, 24, 0, 0, 16, 184, 1, 24, 0, 0, 24, 208, 18,
    1, 1, 0, 5, 1, 0, 0, 0, 0, 0, 0, 0, 0, 0, 0, 0, 0, 228, 4, 4, 1, 4, 16, 2, 0, 4, 0, 0, 0x00610062, 0x00666F75, 0x6E646174,
    0x696F6E00, 0x78000000, 0], by
    rw [bytesOf_length]
    exact (by decide : 4 * 58 < 2 ^ 32)⟩

/-- The image IDs of a plan. -/
def plannedIds (data : File) (libs : List File) (target : Target) : Option (List (Option (List Byte))) :=
  match waxPlan data libs target with
  | .error _ => none
  | .ok launch => some (launch.images.map fun im => str im im.imageId)

theorem exists_of_plannedIds {data : File} {libs : List File} {target : Target} {ids : List (Option (List Byte))}
    (planned : plannedIds data libs target = some ids) : ∃ launch, waxPlan data libs target = .ok launch ∧
      launch.images.map (fun im => str im im.imageId) = ids := by
  unfold plannedIds at planned
  split at planned
  · cases planned
  · rename_i launch made
    exact ⟨launch, made, Option.some.inj planned⟩

theorem appFile_planned : ∃ launch, waxPlan appFile [middleFile, leafFile] vmTarget = .ok launch ∧
    launch.images.map (fun im => str im im.imageId) = [some (ascii "a"), some (ascii "b"), some (ascii "a")] :=
  exists_of_plannedIds (by decide +kernel)

end Src32.Wax
