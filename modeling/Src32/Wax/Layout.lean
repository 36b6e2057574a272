import Src32.Wax.Accepted
import Src32.Wax.Plan

namespace Src32.Wax

open Interval

/-!
# Layout of accepted images

The blocks of an accepted image follow one another from its base to the end of
its reservation, without wrapping.  Version 3 has that layout always; version 2
has it when its blocks start below the CPU-reserved area, which its check of a
block's size takes for granted.  Placing the image moves the layout as a whole.
-/

/-! ## Block loops -/

/-- Link-time range of a block, its end computed without wrapping. -/
def linkRange (b : Block) : Interval := ⟨b.address.toNat, b.address.toNat + b.memorySize.toNat⟩

/-- The lowest address the next block may have. -/
def loopLow (base : Word) (first : Bool) (stop : Word) : Nat := if first then base.toNat else stop.toNat

variable {im : Image} {stop base final size : Word} {first : Bool} {b : Block} {spans after : Spans}

/-- One accepted block of version 2 below the reserved area. -/
theorem v2Block_bounds (sized : b.fileSize ≠ 0) (room : ¬ b.fileSize > cpuReserved - b.address)
    (below : b.address ≤ cpuReserved) :
    1 ≤ b.fileSize.toNat ∧ (b.address + b.fileSize).toNat = b.address.toNat + b.fileSize.toNat ∧
      b.address.toNat + b.fileSize.toNat ≤ 0xFFFF0000 := by
  unfold cpuReserved at room below
  refine ⟨?_, ?_, ?_⟩ <;> bv_omega

/-- What the next block of a loop starts at. -/
theorem loop_start (follows : ¬ misplaced base first stop b = true) : loopLow base first stop ≤ b.address.toNat := by
  unfold loopLow
  unfold misplaced at follows
  cases first with
  | true =>
    have same : b.address = base := by simpa using follows
    rw [if_pos rfl]
    exact Nat.le_of_eq (congrArg BitVec.toNat same.symm)
  | false =>
    have behind : ¬ b.address < stop := by simpa using follows
    rw [if_neg Bool.false_ne_true]
    bv_omega

theorem v2Blocks_cons {tableEnd : Word} {rest : List Block}
    (done : v2Blocks base size tableEnd first stop spans (b :: rest) = some (final, after)) :
    b.fileSize ≠ 0 ∧ ¬ b.fileSize > cpuReserved - b.address ∧
      ¬ misplaced base first stop b = true ∧
      ∃ spans, v2Blocks base size tableEnd false (b.address + b.fileSize) spans rest = some (final, after) := by
  unfold v2Blocks at done
  split at done
  · cases done
  · next refused =>
      cases added : addSpan spans b.fileOffset b.fileSize size with
      | none =>
        rw [added] at done
        cases done
      | some spans =>
        rw [added] at done
        dsimp only at done
        split_ifs at done with outside
        rw [not_or] at outside
        exact ⟨fun empty => refused (Or.inl empty), outside.1, outside.2, spans, done⟩

theorem v2Blocks_ascending {tableEnd : Word} {blocks : List Block} (below : ∀ b ∈ blocks, b.address ≤ cpuReserved)
    (whole : ∀ b ∈ blocks, b.memorySize = b.fileSize) (nonempty : blocks = [] -> first = false)
    (done : v2Blocks base size tableEnd first stop spans blocks = some (final, after)) :
    Ascending (loopLow base first stop) (blocks.map linkRange) final.toNat ∧
      (∀ b ∈ blocks, 1 ≤ b.memorySize.toNat ∧ b.address.toNat + b.memorySize.toNat ≤ 0xFFFF0000) := by
  induction blocks generalizing first stop spans with
  | nil =>
    cases done
    rw [nonempty rfl]
    exact ⟨Nat.le_refl _, fun b member => by cases member⟩
  | cons b rest ih =>
    obtain ⟨sized, room, follows, next, continued⟩ := v2Blocks_cons done
    have bounds := v2Block_bounds sized room (below b List.mem_cons_self)
    obtain ⟨ascending, each⟩ := ih (fun c later => below c (List.mem_cons_of_mem b later))
      (fun c later => whole c (List.mem_cons_of_mem b later)) (fun _ => rfl) continued
    have same := whole b List.mem_cons_self
    refine ⟨⟨loop_start follows, Nat.le_add_right _ _, ?_⟩, ?_⟩
    · have stopped : (linkRange b).stop = loopLow base false (b.address + b.fileSize) := by
        change b.address.toNat + b.memorySize.toNat = (b.address + b.fileSize).toNat
        rw [same, bounds.2.1]
      exact stopped ▸ ascending
    · intro c member
      rcases List.mem_cons.mp member with rfl | later
      · rw [same]
        exact ⟨bounds.1, bounds.2.2⟩
      · exact each c later

/-- One accepted block of version 3. -/
theorem v3Block_bounds (fine : v3BlockOk b = true) :
    1 ≤ b.memorySize.toNat ∧ b.fileSize.toNat ≤ b.memorySize.toNat ∧
      (b.address + b.memorySize).toNat = b.address.toNat + b.memorySize.toNat := by
  simp only [v3BlockOk, Bool.and_eq_true, Bool.not_eq_true', Bool.or_eq_false_iff,
    decide_eq_false_iff_not] at fine
  obtain ⟨_, ⟨⟨sized, inside⟩, _⟩, room⟩ := fine
  refine ⟨?_, ?_, ?_⟩ <;> bv_omega

theorem v3Blocks_cons {align finalAlign : Word} {rest : List Block}
    (done : v3Blocks base size first stop align spans (b :: rest) = some (final, finalAlign, after)) :
    v3BlockOk b = true ∧ ¬ misplaced base first stop b = true ∧
      ∃ align spans, v3Blocks base size false (b.address + b.memorySize) align spans rest =
        some (final, finalAlign, after) := by
  unfold v3Blocks at done
  generalize (if b.align > align then b.align else align) = nextAlign at done
  split_ifs at done with refused outside odd
  cases added : addSpan spans b.fileOffset b.fileSize size with
  | none =>
    rw [added] at done
    cases done
  | some spans =>
    rw [added] at done
    dsimp only at done
    rw [Bool.not_eq_true', Bool.not_eq_false] at refused
    exact ⟨refused, outside, nextAlign, spans, done⟩

theorem v3Blocks_ascending {align finalAlign : Word} {blocks : List Block} (nonempty : blocks = [] -> first = false)
    (done : v3Blocks base size first stop align spans blocks = some (final, finalAlign, after)) :
    Ascending (loopLow base first stop) (blocks.map linkRange) final.toNat ∧
      (∀ b ∈ blocks, 1 ≤ b.memorySize.toNat ∧ b.fileSize.toNat ≤ b.memorySize.toNat) := by
  induction blocks generalizing first stop align spans with
  | nil =>
    cases done
    rw [nonempty rfl]
    exact ⟨Nat.le_refl _, fun b member => by cases member⟩
  | cons b rest ih =>
    obtain ⟨fine, follows, nextAlign, next, continued⟩ := v3Blocks_cons done
    have bounds := v3Block_bounds fine
    obtain ⟨ascending, each⟩ := ih (fun _ => rfl) continued
    refine ⟨⟨loop_start follows, Nat.le_add_right _ _, ?_⟩, ?_⟩
    · have stopped : (linkRange b).stop = loopLow base false (b.address + b.memorySize) :=
        bounds.2.2.symm
      exact stopped ▸ ascending
    · intro c member
      rcases List.mem_cons.mp member with rfl | later
      · exact ⟨bounds.1, bounds.2.1⟩
      · exact each c later

/-! ## Images -/

/-- The blocks of the image lie one behind the other between its base and the
end of its reservation, and nothing wraps. -/
structure Laid (im : Image) : Prop where
  nonempty : im.blocks ≠ []
  ascending : Ascending im.base.toNat (im.blocks.map linkRange) (im.base.toNat + im.span.toNat)
  fits : im.base.toNat + im.span.toNat < 2 ^ 32
  sized : ∀ b ∈ im.blocks, 1 ≤ b.memorySize.toNat ∧ b.fileSize.toNat ≤ b.memorySize.toNat

theorem blocks_ne_nil (some_ : im.blockCount ≠ 0) : im.blocks ≠ [] := by
  intro empty
  have none_ : im.blocks.length = 0 := by rw [empty, List.length_nil]
  simp only [Image.blocks, indices, List.length_map, List.length_range] at none_
  exact some_ (BitVec.eq_of_toNat_eq none_)

/-- A version 2 block has no zero tail. -/
theorem v2_whole (version : im.version = 2) : ∀ b ∈ im.blocks, b.memorySize = b.fileSize := by
  intro b member
  obtain ⟨i, _, rfl⟩ := List.mem_map.mp member
  unfold getBlock
  dsimp only
  rw [if_pos version]

/-- The end of the last block is the end of the reservation. -/
theorem span_of_stop {span : Word} (same : span = stop - base) (above : base.toNat ≤ stop.toNat) :
    base.toNat + span.toNat = stop.toNat := by
  rw [same]
  bv_omega

theorem V2Accepted.laid (accepted : V2Accepted im) (below : ∀ b ∈ im.blocks, b.address ≤ cpuReserved) :
    Laid im ∧ ∀ b ∈ im.blocks, (linkRange b).stop ≤ 0xFFFF0000 := by
  obtain ⟨tableEnd, spans, stop, after, loop, span⟩ := accepted.loop
  have nonempty := blocks_ne_nil accepted.blockCount
  have whole := v2_whole accepted.version
  obtain ⟨ascending, each⟩ := v2Blocks_ascending below whole (fun empty => absurd empty nonempty) loop
  have ends := span_of_stop span ascending.le
  refine ⟨⟨nonempty, ends ▸ ascending, ?_, ?_⟩, fun b member => (each b member).2⟩
  · rw [ends]
    exact stop.isLt
  · intro b member
    rw [whole b member]
    exact ⟨whole b member ▸ (each b member).1, Nat.le_refl _⟩

theorem V3Accepted.laid (accepted : V3Accepted im) : Laid im := by
  obtain ⟨spans, stop, after, loop, span, _⟩ := accepted.loop
  have nonempty := blocks_ne_nil accepted.blockCount
  obtain ⟨ascending, each⟩ := v3Blocks_ascending (fun empty => absurd empty nonempty) loop
  have ends := span_of_stop span ascending.le
  refine ⟨nonempty, ends ▸ ascending, ?_, each⟩
  rw [ends]
  exact stop.isLt

/-! ## Placed images -/

/-- Runtime range of a block, its end computed without wrapping. -/
def blockRange (im : Image) (b : Block) : Interval :=
  ⟨(blockStart im b).toNat, (blockStart im b).toNat + b.memorySize.toNat⟩

/-- Runtime reservation of an image. -/
def hull (im : Image) : Interval := ⟨im.origin.toNat, im.origin.toNat + im.span.toNat⟩

theorem blockStart_toNat (laid : Laid im) (room : im.origin.toNat + im.span.toNat ≤ 2 ^ 32) (member : b ∈ im.blocks) :
    (blockStart im b).toNat + im.base.toNat = im.origin.toNat + b.address.toNat := by
  have inside := laid.ascending.within _ (List.mem_map_of_mem member)
  have above : im.base.toNat ≤ b.address.toNat := inside.1
  have below : b.address.toNat + b.memorySize.toNat ≤ im.base.toNat + im.span.toNat := inside.2
  have sized := (laid.sized b member).1
  unfold blockStart
  rw [BitVec.toNat_add, BitVec.toNat_sub]
  omega

/-- The runtime ranges of a placed image are its link-time ranges, moved. -/
theorem blockRange_eq_move (laid : Laid im) (room : im.origin.toNat + im.span.toNat ≤ 2 ^ 32)
    (member : b ∈ im.blocks) :
    blockRange im b = move im.base.toNat im.origin.toNat (linkRange b) := by
  have start := blockStart_toNat laid room member
  have above := (laid.ascending.within _ (List.mem_map_of_mem member)).1
  change im.base.toNat ≤ b.address.toNat at above
  unfold blockRange move linkRange
  dsimp only
  rw [Interval.mk.injEq]
  constructor <;> omega

/-- The runtime ranges of a placed image ascend through its reservation. -/
theorem Laid.placed (laid : Laid im) (room : im.origin.toNat + im.span.toNat ≤ 2 ^ 32) :
    Ascending im.origin.toNat (im.blocks.map (blockRange im)) (im.origin.toNat + im.span.toNat) := by
  have moved := laid.ascending.move im.origin.toNat
  have ends : im.base.toNat + im.span.toNat + im.origin.toNat - im.base.toNat =
      im.origin.toNat + im.span.toNat := by omega
  rw [ends, List.map_map] at moved
  rwa [List.map_congr_left fun b member => blockRange_eq_move laid room member]

end Src32.Wax
