import Src32.Lib.Frame
import Src32.Wax.Layout
import Src32.Wax.Load

namespace Src32.Wax

open Interval
open BitVec (ofNat toNat_add)

/-!
# What the loader writes

Every write of the loader goes to the host address of a process address, and
every process address lies in a block of an image or in the stack.  The slots
and relocations the parser accepted lie inside blocks, so binding and relocating
stay there as well.
-/

/-- The host addresses of a set of process addresses. -/
def hostOf (map : Mapping) (owned : Word -> Prop) (h : Word) : Prop := ∃ a, owned a ∧ h = map.locate a

/-! ## Writes -/

theorem copyBytes_frame (mem : Memory) (dst : Word) (bytes : List Byte) :
    Frame (fun h => ∃ k < bytes.length, h = dst + ofNat 32 k) mem (copyBytes mem dst bytes) := by
  induction bytes generalizing mem dst with
  | nil => exact Frame.refl _ mem
  | cons b rest ih =>
    intro h outside
    have step : dst + 1 = dst + ofNat 32 1 := rfl
    unfold copyBytes
    rw [ih]
    · refine if_neg (fun same => outside ⟨0, Nat.zero_lt_succ _, ?_⟩)
      rw [BitVec.add_zero, same]
    · rintro ⟨k, inside, same⟩
      refine outside ⟨k + 1, Nat.succ_lt_succ inside, ?_⟩
      rw [same, step, BitVec.add_assoc, Nat.add_comm k 1, BitVec.ofNat_add]

variable {map : Mapping} {owned : Word -> Prop} {address : Word} {im : Image}

theorem putRuns_frame (fuel : Nat) {src : List Byte} (inside : ∀ k < src.length, owned (address + ofNat 32 k))
    (mem : Memory) :
    Frame (hostOf map owned) mem (putRuns map fuel address src mem) := by
  induction fuel generalizing address src mem with
  | zero => exact Frame.refl _ mem
  | succ fuel ih =>
    cases src with
    | nil => exact Frame.refl _ mem
    | cons b rest =>
      unfold putRuns
      dsimp only
      generalize length : min (map.run address).toNat (rest.length + 1) = run
      have short : run ≤ (map.run address).toNat := by omega
      have within : run ≤ (b :: rest).length := by
        rw [List.length_cons]
        omega
      have copied : Frame (hostOf map owned) mem
          (copyBytes mem (map.locate address) ((b :: rest).take run)) := by
        refine (copyBytes_frame mem _ _).mono ?_
        rintro h ⟨k, bound, rfl⟩
        rw [List.length_take] at bound
        exact ⟨address + ofNat 32 k, inside k (by omega),
          (map.contiguous address k (by omega)).symm⟩
      refine copied.trans (ih ?_ _)
      intro k bound
      rw [List.length_drop] at bound
      rw [BitVec.add_assoc, ← BitVec.ofNat_add]
      exact inside (run + k) (by omega)

theorem putBytes_frame {src : List Byte} (inside : ∀ k < src.length, owned (address + ofNat 32 k)) (mem : Memory) :
    Frame (hostOf map owned) mem (putBytes map address src mem) :=
  putRuns_frame src.length inside mem

theorem putZeros_frame {n : Word} (inside : ∀ k < n.toNat, owned (address + ofNat 32 k)) (mem : Memory) :
    Frame (hostOf map owned) mem (putZeros map address n mem) :=
  putBytes_frame (fun k bound => inside k (by rwa [List.length_replicate] at bound)) mem

theorem put32_frame (value : Word) (inside : ∀ k < 4, owned (address + ofNat 32 k)) (mem : Memory) :
    Frame (hostOf map owned) mem (put32 map address value mem) := by
  unfold put32
  refine putBytes_frame (fun k bound => ?_) mem
  exact inside k bound

theorem storeWord_frame {bias : Word} (value : Word) (inside : ∀ k < 4, owned (address + ofNat 32 k)) (mem : Memory) :
    Frame (hostOf (biasMap bias) owned) mem (storeWord mem (bias + address) value) := by
  refine (copyBytes_frame mem (bias + address) _).mono ?_
  rintro h ⟨k, bound, rfl⟩
  exact ⟨address + ofNat 32 k, inside k bound, BitVec.add_assoc ..⟩

/-! ## Addresses of a block -/

/-- The process addresses of an interval. -/
def InRange (r : Interval) (a : Word) : Prop := r.Contains a.toNat

/-- `len` addresses from `start + offset` lie in a range that begins at `start`. -/
theorem inRange_add {start offset : Word} {length len k : Nat} (fits : start.toNat + length ≤ 2 ^ 32)
    (room : offset.toNat + len ≤ length) (inside : k < len) :
    InRange ⟨start.toNat, start.toNat + length⟩ (start + offset + ofNat 32 k) := by
  unfold InRange Contains
  dsimp only
  rw [toNat_add, toNat_add, BitVec.toNat_ofNat]
  omega

/-- The same from the start itself. -/
theorem inRange_start {start : Word} {length k : Nat} (fits : start.toNat + length ≤ 2 ^ 32)
    (inside : k < length) :
    InRange ⟨start.toNat, start.toNat + length⟩ (start + ofNat 32 k) := by
  unfold InRange Contains
  dsimp only
  rw [toNat_add, BitVec.toNat_ofNat]
  omega

/-- `len` bytes from `address` on lie in a block of the image. -/
def InBlocks (im : Image) (address : Word) (len : Nat) : Prop :=
  ∃ b ∈ im.blocks, ∀ k < len, InRange (blockRange im b) (address + ofNat 32 k)

/-- An image placed where its reservation does not wrap, with its slots inside
its blocks. -/
structure Ready (im : Image) : Prop where
  laid : Laid im
  room : im.origin.toNat + im.span.toNat ≤ 2 ^ 32
  slots : ∀ i ∈ indices im.importCount, InBlocks im (im.origin + im.word (im.importTable + 24 * i + 12)) 8

theorem Ready.fits (ready : Ready im) {b : Block} (member : b ∈ im.blocks) :
    (blockStart im b).toNat + b.memorySize.toNat ≤ 2 ^ 32 := by
  have inside := (ready.laid.placed ready.room).within _ (List.mem_map_of_mem member)
  have below : (blockStart im b).toNat + b.memorySize.toNat ≤ im.origin.toNat + im.span.toNat := inside.2
  have room := ready.room
  omega

/-- The addresses of an image's blocks. -/
def Image.Owns (im : Image) (a : Word) : Prop := ∃ b ∈ im.blocks, InRange (blockRange im b) a

theorem loadBlock_frame (ready : Ready im) {b : Block} (member : b ∈ im.blocks) (mem : Memory) :
    Frame (hostOf map im.Owns) mem (loadBlock map im mem b) := by
  have fits := ready.fits member
  have sized := (ready.laid.sized b member).2
  have payload : ∀ k < (im.data.slice b.fileOffset b.fileSize).length,
      im.Owns (blockStart im b + ofNat 32 k) := by
    intro k bound
    rw [File.slice, List.length_map, List.length_range] at bound
    exact ⟨b, member, inRange_start fits (by omega)⟩
  have tail : ∀ k < (b.memorySize - b.fileSize).toNat,
      im.Owns (blockStart im b + b.fileSize + ofNat 32 k) := by
    intro k bound
    have rest : (b.memorySize - b.fileSize).toNat = b.memorySize.toNat - b.fileSize.toNat := by bv_omega
    exact ⟨b, member, inRange_add fits (by omega) bound⟩
  exact (putBytes_frame payload mem).trans (putZeros_frame tail _)

theorem loadBlocks_frame (ready : Ready im) (mem : Memory) :
    Frame (hostOf map im.Owns) mem (loadBlocks map mem im) :=
  Frame.foldl im.blocks (fun _ member mem => loadBlock_frame ready member mem) mem

theorem bindImports_frame {images : List Image} (ready : Ready im) (mem : Memory) :
    Frame (hostOf map im.Owns) mem (bindImports images map mem im) := by
  refine Frame.foldl _ (fun i member mem => ?_) mem
  obtain ⟨b, inBlock, slot⟩ := ready.slots i member
  have low : ∀ k < 4, im.Owns (im.origin + im.word (im.importTable + 24 * i + 12) + ofNat 32 k) :=
    fun k bound => ⟨b, inBlock, slot k (by omega)⟩
  have high : ∀ k < 4,
      im.Owns (im.origin + im.word (im.importTable + 24 * i + 12) + 4 + ofNat 32 k) := by
    intro k bound
    have later := slot (4 + k) (by omega)
    rw [BitVec.ofNat_add, ← BitVec.add_assoc] at later
    exact ⟨b, inBlock, later⟩
  exact (put32_frame _ low mem).trans (put32_frame _ high _)

/-! ## Relocations -/

/-- The bytes of a relocation lie in a block of the moved image. -/
def RelocInside (im : Image) (delta entry : Word) : Prop :=
  InBlocks im (relocAt entry + delta) (if entry &&& relocPair ≠ 0 then 8 else 4)

theorem relocateOne_frame {delta entry : Word} (inside : RelocInside im delta entry) (mem : Memory) :
    Frame (hostOf map im.Owns) mem (relocateOne map delta entry mem) := by
  obtain ⟨b, member, bytes⟩ := inside
  unfold relocateOne
  dsimp only
  by_cases pair : entry &&& relocPair ≠ 0
  · rw [if_pos pair] at bytes ⊢
    refine (put32_frame _ (fun k bound => ⟨b, member, bytes k (by omega)⟩) mem).trans (put32_frame _ ?_ _)
    intro k bound
    have later := bytes (4 + k) (by omega)
    rw [BitVec.ofNat_add, ← BitVec.add_assoc] at later
    exact ⟨b, member, later⟩
  · rw [if_neg pair] at bytes ⊢
    exact put32_frame _ (fun k bound => ⟨b, member, bytes k bound⟩) mem

theorem relocateFast_frame {bias : Word} {delta entry : Word} (inside : RelocInside im delta entry) (mem : Memory) :
    Frame (hostOf (biasMap bias) im.Owns) mem (relocateFast bias delta mem entry) := by
  obtain ⟨b, member, bytes⟩ := inside
  unfold relocateFast
  dsimp only
  rw [BitVec.add_assoc bias]
  by_cases pair : entry &&& relocPair ≠ 0
  · rw [if_pos pair] at bytes ⊢
    rw [BitVec.add_assoc bias _ 4]
    refine (storeWord_frame _ (fun k bound => ⟨b, member, bytes k (by omega)⟩) mem).trans
      (storeWord_frame _ ?_ _)
    intro k bound
    have later := bytes (4 + k) (by omega)
    rw [BitVec.ofNat_add, ← BitVec.add_assoc] at later
    exact ⟨b, member, later⟩
  · rw [if_neg pair] at bytes ⊢
    exact storeWord_frame _ (fun k bound => ⟨b, member, bytes k bound⟩) mem

/-! ## A whole launch -/

/-- The stack of a launch, its end computed without wrapping. -/
def stackRange (launch : Launch) : Interval :=
  ⟨(launch.stackTop - launch.stackSize).toNat,
    (launch.stackTop - launch.stackSize).toNat + launch.stackSize.toNat⟩

/-- The stack and every block of every image. -/
def Launch.ranges (launch : Launch) : List Interval :=
  stackRange launch :: launch.images.flatMap fun im => im.blocks.map (blockRange im)

/-- The addresses of the stack and the blocks. -/
def Launch.Owns (launch : Launch) (a : Word) : Prop := ∃ r ∈ launch.ranges, InRange r a

theorem Launch.owns_of_image {launch : Launch} (member : im ∈ launch.images) {a : Word} (owned : im.Owns a) :
    launch.Owns a := by
  obtain ⟨b, inBlocks, inside⟩ := owned
  refine ⟨blockRange im b, List.mem_cons_of_mem _ (List.mem_flatMap.mpr ⟨im, member, ?_⟩), inside⟩
  exact List.mem_map_of_mem inBlocks

/-- A launch the loader may run on. -/
structure Loadable (launch : Launch) : Prop where
  ready : ∀ im ∈ launch.images, Ready im
  stack : (stackRange launch).stop ≤ 2 ^ 32
  relocs : ∀ exe, launch.images.head? = some exe -> exe.relocatable = true -> launch.delta ≠ 0 ->
    ∀ entry ∈ exe.relocs, RelocInside exe launch.delta entry

section Loadable

variable {launch : Launch} (loadable : Loadable launch)

include loadable

theorem loadWith_frame {map : Mapping} {relocation : Memory -> Memory}
    (relocates : ∀ mem, Frame (hostOf map launch.Owns) mem (relocation mem)) (mem : Memory) :
    Frame (hostOf map launch.Owns) mem (loadWith launch map relocation mem) := by
  have widen : ∀ im ∈ launch.images, ∀ h, hostOf map im.Owns h -> hostOf map launch.Owns h := by
    rintro im member h ⟨a, owned, rfl⟩
    exact ⟨a, Launch.owns_of_image member owned, rfl⟩
  have stack : ∀ k < launch.stackSize.toNat,
      launch.Owns (launch.stackTop - launch.stackSize + ofNat 32 k) :=
    fun k bound => ⟨stackRange launch, List.mem_cons_self, inRange_start loadable.stack bound⟩
  have blocks : Frame (hostOf map launch.Owns) mem (launch.images.foldl (loadBlocks map) mem) :=
    Frame.foldl _ (fun im member mem =>
      (loadBlocks_frame (loadable.ready im member) mem).mono (widen im member)) mem
  have binds : ∀ mem, Frame (hostOf map launch.Owns) mem
      (launch.images.foldl (bindImports launch.images map) mem) :=
    Frame.foldl _ (fun im member mem =>
      (bindImports_frame (loadable.ready im member) mem).mono (widen im member))
  exact ((blocks.trans (putZeros_frame stack _)).trans (relocates _)).trans (binds _)

theorem relocate_frame (map : Mapping) (mem : Memory) :
    Frame (hostOf map launch.Owns) mem (relocate launch map mem) := by
  unfold relocate
  cases head : launch.images.head? with
  | none => exact Frame.refl _ mem
  | some exe =>
    dsimp only
    by_cases idle : (!exe.relocatable || decide (launch.delta = 0)) = true
    · rw [if_pos idle]
      exact Frame.refl _ mem
    · rw [if_neg idle]
      have moved : exe.relocatable = true ∧ launch.delta ≠ 0 := by simpa using idle
      refine Frame.foldl _ (fun entry member mem => ?_) mem
      refine (relocateOne_frame (loadable.relocs exe head moved.1 moved.2 entry member) mem).mono ?_
      rintro h ⟨a, owned, rfl⟩
      exact ⟨a, Launch.owns_of_image (List.mem_of_head? head) owned, rfl⟩

theorem relocateBias_frame (aligned : Bool) (bias : Word) (mem : Memory) :
    Frame (hostOf (biasMap bias) launch.Owns) mem (relocateBias launch aligned bias mem) := by
  unfold relocateBias
  cases head : launch.images.head? with
  | none => exact Frame.refl _ mem
  | some exe =>
    dsimp only
    by_cases idle : (!exe.relocatable || decide (launch.delta = 0)) = true
    · rw [if_pos idle]
      exact Frame.refl _ mem
    · rw [if_neg idle]
      have moved : exe.relocatable = true ∧ launch.delta ≠ 0 := by simpa using idle
      cases aligned with
      | false => exact relocate_frame loadable (biasMap bias) mem
      | true =>
        refine Frame.foldl _ (fun entry member mem => ?_) mem
        refine (relocateFast_frame (loadable.relocs exe head moved.1 moved.2 entry member) mem).mono ?_
        rintro h ⟨a, owned, rfl⟩
        exact ⟨a, Launch.owns_of_image (List.mem_of_head? head) owned, rfl⟩

/-- The loader writes the blocks and the stack of its launch only. -/
theorem waxLoadMapped_frame (map : Mapping) (mem : Memory) :
    Frame (hostOf map launch.Owns) mem (waxLoadMapped launch map mem) :=
  loadWith_frame loadable (relocate_frame loadable map) mem

theorem waxLoad_frame (aligned : Bool) (bias : Word) (mem : Memory) :
    Frame (hostOf (biasMap bias) launch.Owns) mem (waxLoad launch aligned bias mem) :=
  loadWith_frame loadable (relocateBias_frame loadable aligned bias) mem

end Loadable

end Src32.Wax
