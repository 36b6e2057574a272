import Src32.Wax.Accepted
import Src32.Wax.Readers

namespace Src32.Wax

open Interval
open BitVec (not_lt)

/-!
# What the kernel accepts as version 2

The conditions of `parse_v2` on the bytes of a file.  Its sums are 32-bit sums:
the place of a block in memory and the entry are conditions on words.
-/

/-! ## Recorded file ranges -/

def Span.interval (s : Span) : Interval := ⟨s.start.toNat, s.stop.toNat⟩

/-- The ranges of a table, last one first, are these parts of the file. -/
structure Recorded (spans : Spans) (parts : List Interval) : Prop where
  same : (spans.map Span.interval).Perm parts
  sorted : spans.Pairwise fun s t => t.start ≤ s.start

theorem insertSpan_perm (new : Span) (spans : Spans) : (insertSpan new spans).Perm (new :: spans) := by
  induction spans with
  | nil => exact List.Perm.refl _
  | cons s rest ih =>
    unfold insertSpan
    split_ifs
    · exact (List.Perm.cons s ih).trans (List.Perm.swap new s rest)
    · exact List.Perm.refl _

variable {spans : Spans} {file : File} {size tableEnd offset : Word} {parts : List Interval} {im : Image}

theorem insertSpan_sorted (new : Span) (sorted : spans.Pairwise fun s t => t.start ≤ s.start) :
    (insertSpan new spans).Pairwise fun s t => t.start ≤ s.start := by
  induction spans with
  | nil => exact List.pairwise_singleton _ _
  | cons s rest ih =>
    obtain ⟨first, others⟩ := List.pairwise_cons.mp sorted
    unfold insertSpan
    split_ifs with later
    · refine List.pairwise_cons.mpr ⟨fun t member => ?_, ih others⟩
      rcases List.mem_cons.mp ((insertSpan_perm new rest).mem_iff.mp member) with rfl | old
      · exact BitVec.le_of_lt later
      · exact first t old
    · have here : s.start ≤ new.start := BitVec.not_lt.mp later
      refine List.pairwise_cons.mpr ⟨fun t member => ?_, sorted⟩
      rcases List.mem_cons.mp member with rfl | old
      · exact here
      · exact BitVec.le_trans (first t old) here

theorem Recorded.insert (recorded : Recorded spans parts) (new : Span) :
    Recorded (insertSpan new spans) (new.interval :: parts) := by
  refine ⟨?_, insertSpan_sorted new recorded.sorted⟩
  exact ((insertSpan_perm new spans).map Span.interval).trans (recorded.same.cons new.interval)

theorem gapsOk_iff {ranges : List Span} (ordered : ∀ s ∈ ranges, s.start ≤ s.stop) {place : Word} :
    gapsOk file false place ranges = true ↔ Ascending place.toNat (ranges.map Span.interval) file.size.toNat := by
  induction ranges generalizing place with
  | nil =>
    unfold gapsOk
    rw [Bool.not_false, Bool.true_or, Bool.and_true, Bool.not_eq_true', decide_eq_false_iff_not, not_lt]
    exact Iff.rfl
  | cons s rest ih =>
    have others := @ih (fun t member => ordered t (List.mem_cons_of_mem s member)) s.stop
    have first := ordered s List.mem_cons_self
    unfold gapsOk
    rw [Bool.not_false, Bool.true_or, Bool.and_true, Bool.and_eq_true, others, Bool.not_eq_true',
      decide_eq_false_iff_not, not_lt]
    constructor
    · rintro ⟨behind, later⟩
      exact ⟨behind, first, later⟩
    · rintro ⟨behind, _, later⟩
      exact ⟨behind, later⟩

/-- The walk over the sorted ranges decides whether any two of them meet. -/
theorem spansOk_iff (recorded : Recorded spans parts) (nonempty : ∀ i ∈ parts, i.start < i.stop)
    (inside : ∀ i ∈ parts, i.Within ⟨0, file.size.toNat⟩) :
    spansOk spans file false = true ↔ parts.Pairwise Apart := by
  have same : (spans.reverse.map Span.interval).Perm parts :=
    ((List.reverse_perm spans).map Span.interval).trans recorded.same
  have ordered : ∀ s ∈ spans.reverse, s.start ≤ s.stop := fun s member =>
    Nat.le_of_lt (nonempty s.interval (same.mem_iff.mp (List.mem_map_of_mem member)))
  unfold spansOk
  rw [gapsOk_iff ordered, ← same.pairwise_iff Apart.symm]
  constructor
  · exact Ascending.pairwise
  · intro apart
    refine ascending_of_sorted ?_ (fun i member => nonempty i (same.mem_iff.mp member))
      (fun i member => inside i (same.mem_iff.mp member)) apart (Nat.zero_le _)
    exact List.pairwise_map.mpr (List.pairwise_reverse.mpr recorded.sorted)

/-! ## The block loop -/

/-- A block that the loop of version 2 takes by itself. -/
structure Taken (size tableEnd : Word) (b : Block) : Prop where
  some_ : b.fileSize ≠ 0
  perm : b.PermOk
  aligned : b.fileOffset &&& 3 = 0
  behind : tableEnd ≤ b.fileOffset
  inside : b.fileOffset ≤ size ∧ b.fileSize ≤ size - b.fileOffset
  room : b.fileSize ≤ cpuReserved - b.address

/-- Every block has its place behind the block before it, which ends at
`stop`. -/
def Follows (base : Word) : Bool -> Word -> List Block -> Prop
  | _, _, [] => True
  | first, stop, b :: rest => misplaced base first stop b = false ∧ Follows base false (b.address + b.fileSize) rest

def Block.span (b : Block) : Span := ⟨b.fileOffset, b.fileOffset + b.fileSize⟩

/-- The ranges of some blocks behind those already recorded. -/
def recordAll (spans : Spans) (blocks : List Block) : Spans := blocks.foldl (fun before b => insertSpan b.span before) spans

theorem addSpan_iff {after : Spans} {len : Word} (some_ : len ≠ 0) :
    addSpan spans offset len size = some after ↔
      (offset ≤ size ∧ len ≤ size - offset) ∧ after = insertSpan ⟨offset, offset + len⟩ spans := by
  unfold addSpan
  rw [if_neg some_]
  split_ifs with out
  · constructor
    · intro done
      cases done
    · rintro ⟨⟨starts, ends⟩, _⟩
      rcases out with above | beyond
      · exact absurd above (BitVec.not_lt.mpr starts)
      · exact absurd beyond (BitVec.not_lt.mpr ends)
  · rw [not_or] at out
    rw [Option.some_inj, eq_comm]
    exact ⟨fun same => ⟨⟨BitVec.not_lt.mp out.1, BitVec.not_lt.mp out.2⟩, same⟩, fun both => both.2⟩

theorem v2Blocks_step {base stop : Word} {first : Bool} {b : Block} {rest : List Block} {result : Word × Spans} :
    v2Blocks base size tableEnd first stop spans (b :: rest) = some result ↔
      (Taken size tableEnd b ∧ misplaced base first stop b = false) ∧
        v2Blocks base size tableEnd false (b.address + b.fileSize) (insertSpan b.span spans) rest = some result := by
  rw [v2Blocks]
  by_cases bad : b.fileSize = 0 ∨ b.perm = 0 ∨ b.perm &&& ~~~7 ≠ 0 ∨ b.fileOffset &&& 3 ≠ 0 ∨ b.fileOffset < tableEnd
  · rw [if_pos bad]
    constructor
    · intro done
      cases done
    · rintro ⟨⟨taken, _⟩, _⟩
      rcases bad with empty | noPerm | otherPerm | misaligned | early
      · exact absurd empty taken.some_
      · exact absurd noPerm taken.perm.1
      · exact absurd taken.perm.2 otherPerm
      · exact absurd taken.aligned misaligned
      · exact absurd early (BitVec.not_lt.mpr taken.behind)
  · rw [if_neg bad]
    simp only [not_or, not_not] at bad
    obtain ⟨some_, permSome, perm, aligned, behind⟩ := bad
    cases added : addSpan spans b.fileOffset b.fileSize size with
    | none =>
      dsimp only
      constructor
      · intro done
        cases done
      · rintro ⟨⟨taken, _⟩, _⟩
        have fine := (@addSpan_iff spans _ _ _ _ some_).mpr ⟨taken.inside, rfl⟩
        rw [added] at fine
        cases fine
    | some after =>
      obtain ⟨inside, rfl⟩ := (addSpan_iff some_).mp added
      dsimp only
      by_cases refused : b.fileSize > cpuReserved - b.address ∨ misplaced base first stop b = true
      · rw [if_pos refused]
        constructor
        · intro done
          cases done
        · rintro ⟨⟨taken, placed⟩, _⟩
          rcases refused with big | misplaced_
          · exact absurd big (BitVec.not_lt.mpr taken.room)
          · rw [placed] at misplaced_
            cases misplaced_
      · rw [if_neg refused]
        rw [not_or, Bool.not_eq_true] at refused
        have taken : Taken size tableEnd b :=
          ⟨some_, ⟨permSome, perm⟩, aligned, BitVec.not_lt.mp behind, inside, BitVec.not_lt.mp refused.1⟩
        exact ⟨fun done => ⟨⟨taken, refused.2⟩, done⟩, fun both => both.2⟩

theorem v2Blocks_iff {base : Word} (blocks : List Block) {stop : Word} {first : Bool} {after : Spans} :
    (∃ last, v2Blocks base size tableEnd first stop spans blocks = some (last, after)) ↔
      (∀ b ∈ blocks, Taken size tableEnd b) ∧ Follows base first stop blocks ∧ after = recordAll spans blocks := by
  induction blocks generalizing stop first spans with
  | nil =>
    constructor
    · rintro ⟨last, done⟩
      cases done
      refine ⟨fun b member => ?_, trivial, rfl⟩
      cases member
    · rintro ⟨_, _, rfl⟩
      exact ⟨stop, rfl⟩
  | cons b rest ih =>
    simp only [v2Blocks_step, exists_and_left]
    rw [ih, List.forall_mem_cons]
    constructor
    · rintro ⟨⟨taken, placed⟩, all, follows, same⟩
      exact ⟨⟨taken, all⟩, ⟨placed, follows⟩, same⟩
    · rintro ⟨⟨taken, all⟩, ⟨placed, follows⟩, same⟩
      exact ⟨⟨taken, placed⟩, all, follows, same⟩

theorem Recorded.all (recorded : Recorded spans parts) (blocks : List Block) :
    Recorded (recordAll spans blocks) (blocks.map (fun b => b.span.interval) ++ parts) := by
  induction blocks generalizing spans parts with
  | nil => exact recorded
  | cons b rest ih =>
    have more := ih (recorded.insert b.span)
    refine ⟨more.same.trans ?_, more.sorted⟩
    exact List.perm_middle

/-! ## The header -/

theorem and_three {x : Word} : x &&& 3 = 0 ↔ x.toNat % 4 = 0 := Word.and_low_eq_zero x 2

theorem rd32_eq (file : File) (room : offset.toNat + 3 < 2 ^ 32) :
    file.rd32 offset = be32 file.bytes offset.toNat := by
  have one : (offset + 1).toNat = offset.toNat + 1 := by bv_omega
  have two : (offset + 2).toNat = offset.toNat + 2 := by bv_omega
  have three : (offset + 3).toNat = offset.toNat + 3 := by bv_omega
  unfold File.rd32 File.byte be32
  rw [one, two, three]

theorem size_toNat (file : File) : file.size.toNat = file.bytes.length := Nat.mod_eq_of_lt file.fits

theorem shifted_eq_zero {b : Byte} {k : Nat} (small : k ≤ 24) (zero : b.zeroExtend 32 <<< k = 0) : b = 0 := by
  have bound := b.isLt
  have value := congrArg BitVec.toNat zero
  rw [BitVec.toNat_shiftLeft, BitVec.zeroExtend, BitVec.toNat_setWidth, Nat.mod_eq_of_lt (show b.toNat < 2 ^ 32 by omega),
    Nat.shiftLeft_eq, Nat.mod_eq_of_lt] at value
  · rcases Nat.mul_eq_zero.mp value with none_ | power
    · exact BitVec.eq_of_toNat_eq none_
    · exact absurd power (Nat.pos_iff_ne_zero.mp (Nat.two_pow_pos k))
  · calc b.toNat * 2 ^ k < 2 ^ 8 * 2 ^ k := Nat.mul_lt_mul_of_pos_right bound (Nat.two_pow_pos k)
      _ ≤ 2 ^ 8 * 2 ^ 24 := Nat.mul_le_mul_left _ (Nat.pow_le_pow_right (by decide) small)
      _ = 2 ^ 32 := by decide

theorem ofBytes_eq_zero {b0 b1 b2 b3 : Byte} :
    Word.ofBytes b0 b1 b2 b3 = 0 ↔ b0 = 0 ∧ b1 = 0 ∧ b2 = 0 ∧ b3 = 0 := by
  constructor
  · intro zero
    unfold Word.ofBytes at zero
    change _ = 0#32 at zero
    rw [BitVec.or_eq_zero_iff, BitVec.or_eq_zero_iff, BitVec.or_eq_zero_iff] at zero
    obtain ⟨⟨⟨first, second⟩, third⟩, last⟩ := zero
    refine ⟨shifted_eq_zero (by decide) first, shifted_eq_zero (by decide) second, shifted_eq_zero (by decide) third, ?_⟩
    exact shifted_eq_zero (Nat.zero_le 24) ((BitVec.shiftLeft_zero _).trans last)
  · rintro ⟨rfl, rfl, rfl, rfl⟩
    rfl

/-- The image that `parse_v2` reads out of a header. -/
def v2Image (file : File) : Image := v2Fields (Image.blank file 2)

theorem magicOk_iff (long : 64 ≤ file.bytes.length) : magicOk file = true ↔ file.bytes.take 4 = magic := by
  obtain ⟨bytes, fits⟩ := file
  unfold magicOk File.byte magic
  dsimp only at long ⊢
  rcases bytes with _ | ⟨a, _ | ⟨b, _ | ⟨c, _ | ⟨e, rest⟩⟩⟩⟩
  · cases long
  · exact absurd (show 64 ≤ 1 from long) (by decide)
  · exact absurd (show 64 ≤ 2 from long) (by decide)
  · exact absurd (show 64 ≤ 3 from long) (by decide)
  · rw [Bool.and_eq_true, Bool.and_eq_true, Bool.and_eq_true, decide_eq_true_iff, decide_eq_true_iff, decide_eq_true_iff,
      decide_eq_true_iff]
    constructor
    · rintro ⟨⟨⟨first, second⟩, third⟩, last⟩
      change a = _ at first
      change b = _ at second
      change c = _ at third
      change e = _ at last
      rw [first, second, third, last]
      rfl
    · intro same
      injection same with first same
      injection same with second same
      injection same with third same
      injection same with last _
      exact ⟨⟨⟨first, second⟩, third⟩, last⟩

theorem sliceOf_eq (start count : Nat) (fits : start + count ≤ d.length) :
    sliceOf d start (start + count) = (List.range count).map fun k => d.getD (start + k) 0 := by
  unfold sliceOf
  rw [Nat.add_sub_cancel_left]
  apply List.ext_getElem
  · rw [List.length_take, List.length_drop, List.length_map, List.length_range]
    omega
  · intro k first second
    rw [List.length_map, List.length_range] at second
    rw [List.getElem_take, List.getElem_drop, List.getElem_map, List.getElem_range, List.getD_eq_getElem?_getD,
      List.getElem?_eq_getElem (show start + k < d.length by omega)]
    rfl

/-- Two zero words are eight zero bytes. -/
theorem reserved_iff (long : 64 ≤ d.length) :
    (be32 d 56 = 0 ∧ be32 d 60 = 0) ↔ ∀ b ∈ sliceOf d 56 64, b = 0 := by
  have bytes : sliceOf d 56 64 = (List.range 8).map fun k => d.getD (56 + k) 0 := sliceOf_eq 56 8 long
  have row : (List.range 8).map (fun k => d.getD (56 + k) 0) = [d.getD 56 0, d.getD 57 0, d.getD 58 0, d.getD 59 0,
      d.getD 60 0, d.getD 61 0, d.getD 62 0, d.getD 63 0] := rfl
  unfold be32
  rw [ofBytes_eq_zero, ofBytes_eq_zero, bytes, row]
  simp only [List.mem_cons, List.not_mem_nil, or_false, forall_eq_or_imp, forall_eq]
  tauto

/-- The debug data is there when its flag says so. -/
def Flagged (d : List Byte) : Prop :=
  (be32 d 40 ≠ 0 ↔ be16 d 10 &&& flagDebug ≠ 0) ∧ (be32 d 40 = 0 -> be32 d 36 = 0)

theorem debugOk_iff {flags : Word} :
    debugOk flags offset size = true ↔ (size ≠ 0 ↔ flags &&& flagDebug ≠ 0) ∧ (size = 0 -> offset = 0) := by
  unfold debugOk
  simp only [Bool.not_eq_true', Bool.or_eq_false_iff, bne_eq_false_iff_eq, decide_eq_decide, Bool.and_eq_false_iff,
    decide_eq_false_iff_not, not_not]
  tauto

/-- The header checks of `parse` and `parse_v2`. -/
structure V2Head (file : File) : Prop where
  long : headerV2 ≤ file.size
  magic_ : magicOk file = true
  version : file.rd16 4 = 2
  arch : file.rd16 8 = 1
  kind : file.rd16 6 = typeWax
  flags : file.rd16 10 &&& ~~~3 = 0
  isProtected : file.rd16 10 &&& flagProtected ≠ 0
  header : v2HeaderOk (v2Image file) = true

theorem long_iff : headerV2 ≤ file.size ↔ 64 ≤ file.bytes.length := by
  rw [← size_toNat file]
  exact Iff.rfl

theorem v2HeaderOk_iff : v2HeaderOk (v2Image file) = true ↔
    file.rd32 12 = headerV2 ∧ file.rd32 44 = file.size ∧ (file.rd32 56 = 0 ∧ file.rd32 60 = 0) ∧
      file.rd32 32 = 16 ∧ file.rd32 28 ≠ 0 ∧ file.rd32 28 ≤ 7 ∧
      (file.rd32 24 &&& 3 = 0 ∧ headerV2 ≤ file.rd32 24) ∧
      (file.rd32 24 ≤ file.size ∧ file.rd32 28 * 16 ≤ file.size - file.rd32 24) ∧
      debugOk (file.rd16 10) (file.rd32 36) (file.rd32 40) = true := by
  have unfolded : v2HeaderOk (v2Image file) =
      (!(decide (file.rd32 12 ≠ headerV2) || decide (file.rd32 44 ≠ file.size) || decide (file.rd32 56 ≠ 0) ||
          decide (file.rd32 60 ≠ 0)) &&
        !(decide (file.rd32 32 ≠ 16) || decide (file.rd32 28 = 0) || decide (file.rd32 28 > 7)) &&
        !(decide (file.rd32 24 &&& 3 ≠ 0) || decide (file.rd32 24 < headerV2) || decide (file.rd32 24 > file.size) ||
          decide (file.rd32 28 * 16 > file.size - file.rd32 24)) &&
        debugOk (file.rd16 10) (file.rd32 36) (file.rd32 40)) := rfl
  rw [unfolded]
  simp only [Bool.and_eq_true, Bool.not_eq_true', Bool.or_eq_false_iff, decide_eq_false_iff_not, not_not]
  simp only [gt_iff_lt, not_lt, and_assoc, ne_eq]

/-- The table of at most seven rows lies in the file. -/
theorem tableEnd_iff {table count : Word} (few : count ≤ 7) :
    table ≤ size ∧ count * 16 ≤ size - table ↔ table.toNat + count.toNat * 16 ≤ size.toNat := by
  have bound : count.toNat ≤ 7 := few
  have product : (count * 16).toNat = count.toNat * 16 := by
    rw [BitVec.toNat_mul]
    exact Nat.mod_eq_of_lt (show count.toNat * 16 < 2 ^ 32 by omega)
  generalize count * 16 = bytes at product ⊢
  rw [← product]
  constructor
  · rintro ⟨starts, ends⟩
    bv_omega
  · intro fits
    constructor <;> bv_omega

theorem v2Head_iff (file : File) : V2Head file ↔ Headed file.bytes ∧ Flagged file.bytes := by
  obtain ⟨d, fits⟩ := file
  have size := size_toNat ⟨d, fits⟩
  have table : (tableOf d).stop = (be32 d 24).toNat + (be32 d 28).toNat * (be32 d 32).toNat := rfl
  constructor
  · intro head
    obtain ⟨headerSize, fileSize, reserved, entrySize, some_, few, place, tableEnd, debug⟩ := v2HeaderOk_iff.mp head.header
    have long := long_iff.mp head.long
    have whole : (be32 d 44).toNat = d.length := (congrArg BitVec.toNat fileSize).trans size
    refine ⟨⟨long, (magicOk_iff long).mp head.magic_, head.version, head.kind, head.arch, headerSize, head.flags,
      head.isProtected, (reserved_iff long).mp reserved, whole, some_, entrySize, few, ?_, ?_⟩, debugOk_iff.mp debug⟩
    · exact ⟨and_three.mp place.1, place.2⟩
    · have ends := (tableEnd_iff few).mp tableEnd
      rw [size] at ends
      rw [table, whole, show be32 d 32 = 16 from entrySize]
      exact ends
  · rintro ⟨head, debug⟩
    have ends := head.tableEnd
    rw [table, head.size, head.entrySize] at ends
    refine ⟨long_iff.mpr head.long, (magicOk_iff head.long).mpr head.magic_, head.version, head.arch, head.kind,
      head.flags, head.isProtected, v2HeaderOk_iff.mpr ?_⟩
    refine ⟨head.headerSize, ?_, (reserved_iff head.long).mpr head.reserved, head.entrySize, head.some_, head.few,
      ⟨and_three.mpr head.tablePlace.1, head.tablePlace.2⟩, (tableEnd_iff head.few).mpr ?_, debugOk_iff.mpr debug⟩
    · exact BitVec.eq_of_toNat_eq (head.size.trans size.symm)
    · rw [size]
      exact ends

/-! ## The blocks -/

theorem indices_map {α : Type} (count : Word) (f : Nat -> α) (g : Word -> α)
    (same : ∀ k < count.toNat, g (BitVec.ofNat 32 k) = f k) : (indices count).map g = (List.range count.toNat).map f := by
  unfold indices
  rw [List.map_map]
  apply List.map_congr_left
  intro k member
  exact same k (List.mem_range.mp member)

theorem v2Image_blocks (head : Headed file.bytes) : (v2Image file).blocks = rowsOf file.bytes := by
  have fits := file.fits
  have ends := head.tableEnd
  rw [show (tableOf file.bytes).stop = (be32 file.bytes 24).toNat + (be32 file.bytes 28).toNat * (be32 file.bytes 32).toNat
    from rfl, head.size] at ends
  have sized : (be32 file.bytes 32).toNat = 16 := congrArg BitVec.toNat head.entrySize
  rw [sized] at ends
  apply indices_map
  intro k below
  change k < (be32 file.bytes 28).toNat at below
  have small : k < 2 ^ 32 := Nat.lt_trans below (be32 file.bytes 28).isLt
  have place : ((v2Image file).blockTable + BitVec.ofNat 32 k * (v2Image file).blockEntrySize).toNat =
      (be32 file.bytes 24).toNat + k * (be32 file.bytes 32).toNat := by
    change (be32 file.bytes 24 + BitVec.ofNat 32 k * be32 file.bytes 32).toNat = _
    rw [BitVec.toNat_add, BitVec.toNat_mul, BitVec.toNat_ofNat, Nat.mod_eq_of_lt small, sized,
      Nat.mod_eq_of_lt (show k * 16 < 2 ^ 32 by omega)]
    exact Nat.mod_eq_of_lt (by omega)
  have room : (be32 file.bytes 24).toNat + k * (be32 file.bytes 32).toNat + 16 < 2 ^ 32 := by
    rw [sized]
    omega
  change getBlock (v2Image file) (BitVec.ofNat 32 k) = tableBlock file.bytes (tableOf file.bytes) k
  unfold getBlock tableBlock
  rw [if_pos (show (v2Image file).version = 2 from rfl)]
  dsimp only
  generalize (v2Image file).blockTable + BitVec.ofNat 32 k * (v2Image file).blockEntrySize = e at place
  have word : ∀ step : Word, step.toNat ≤ 12 -> (v2Image file).word (e + step) =
      be32 file.bytes ((be32 file.bytes 24).toNat + k * (be32 file.bytes 32).toNat + step.toNat) := by
    intro step bound
    have shifted : (e + step).toNat = (be32 file.bytes 24).toNat + k * (be32 file.bytes 32).toNat + step.toNat := by
      rw [← place]
      bv_omega
    rw [← shifted]
    exact rd32_eq file (by omega)
  have first := word 0 (by decide)
  rw [Word.add_zero] at first
  rw [first, word 4 (by decide), word 8 (by decide), word 12 (by decide)]
  rfl

theorem v2Body_iff {final : Image} : v2Body im = .ok final ↔ ∃ spans last after,
    addSpan [] (im.word 36) (im.word 40) im.size = some spans ∧
      v2Blocks im.base im.size (im.blockTable + im.blockCount * 16) true 0 spans im.blocks = some (last, after) ∧
      spansOk after im.data false = true ∧ v2StackOk im = true ∧ v2EntryOk im = true ∧
      final = { im with span := last - im.base, align := 1 } := by
  unfold v2Body
  cases debug : addSpan [] (im.word 36) (im.word 40) im.size with
  | none =>
    dsimp only
    constructor
    · intro done
      cases done
    · rintro ⟨spans, last, after, added, _⟩
      cases added
  | some spans =>
    dsimp only
    cases blocks : v2Blocks im.base im.size (im.blockTable + im.blockCount * 16) true 0 spans im.blocks with
    | none =>
      dsimp only
      constructor
      · intro done
        cases done
      · rintro ⟨other, last, after, added, looped, _⟩
        cases added
        rw [blocks] at looped
        cases looped
    | some pair =>
      obtain ⟨last, after⟩ := pair
      dsimp only
      have stack : v2StackOk { im with span := last - im.base, align := 1 } = v2StackOk im := rfl
      have entry : v2EntryOk { im with span := last - im.base, align := 1 } = v2EntryOk im := rfl
      rw [stack, entry]
      constructor
      · intro done
        split_ifs at done with gaps both
        cases done
        rw [Bool.not_eq_true', Bool.not_eq_false] at gaps
        rw [Bool.and_eq_true] at both
        exact ⟨spans, last, after, rfl, blocks, gaps, both.1, both.2, rfl⟩
      · rintro ⟨other, otherLast, otherAfter, added, looped, gaps, stackOk, entryOk, rfl⟩
        cases added
        rw [blocks] at looped
        cases looped
        rw [gaps, stackOk, entryOk]
        rfl

/-- The kernel reads a byte string as a PROTECTED image of version 2. -/
def KernelReads (d : List Byte) (im : Image) : Prop := ∃ fits : d.length < 2 ^ 32, parse ⟨d, fits⟩ = .ok im ∧ im.version = 2

theorem parse_v2_iff :
    parse file = .ok im ∧ im.version = 2 ↔ V2Head file ∧ v2Body (v2Image file) = .ok im := by
  constructor
  · rintro ⟨done, version⟩
    rcases parse_accepted done with ⟨second, _, _⟩ | ⟨_, _, accepted⟩
    · unfold parse at done
      dsimp only at done
      rw [if_pos (show (Image.blank file (file.rd16 4)).version = 2 from second)] at done
      split_ifs at done with short
      unfold parseV2 at done
      dsimp only at done
      split_ifs at done with small other kind header
      rw [second] at header done
      simp only [not_or, not_not, Bool.not_eq_true', Bool.not_eq_false] at short other kind
      exact ⟨⟨BitVec.not_lt.mp small, short.2, second, other.1, kind.1, other.2.2.2, kind.2, header⟩, done⟩
    · rw [accepted.version] at version
      cases version
  · rintro ⟨head, body⟩
    have short : ¬ (file.size < 8 ∨ (!magicOk file) = true) := by
      rw [not_or, head.magic_]
      refine ⟨?_, Bool.false_ne_true⟩
      have long := head.long
      unfold headerV2 at long
      bv_omega
    have flags : ¬ ((Image.blank file 2).data.rd16 8 ≠ 1 ∨ (Image.blank file 2).data.rd16 6 < typeWax ∨
        (Image.blank file 2).data.rd16 6 > typeWal ∨ (Image.blank file 2).data.rd16 10 &&& ~~~3 ≠ 0) := by
      change ¬ (file.rd16 8 ≠ 1 ∨ file.rd16 6 < typeWax ∨ file.rd16 6 > typeWal ∨ file.rd16 10 &&& ~~~3 ≠ 0)
      rw [head.arch, head.kind, head.flags]
      decide
    have kind : ¬ ((Image.blank file 2).data.rd16 6 ≠ typeWax ∨
        (Image.blank file 2).data.rd16 10 &&& flagProtected = 0) := by
      rw [not_or, not_not]
      exact ⟨head.kind, head.isProtected⟩
    have version : im.version = 2 := by
      obtain ⟨spans, last, after, _, _, _, _, _, rfl⟩ := v2Body_iff.mp body
      rfl
    refine ⟨?_, version⟩
    unfold parse parseV2
    dsimp only
    rw [if_neg short, if_pos (show (Image.blank file (file.rd16 4)).version = 2 from head.version), head.version,
      if_neg (show ¬ (Image.blank file 2).size < headerV2 from BitVec.not_lt.mpr head.long),
      if_neg flags, if_neg kind,
      if_pos (show v2HeaderOk (v2Fields (Image.blank file 2)) = true from head.header)]
    exact body

/-! ## The whole file -/

/-- A byte string that `parse_v2` accepts. -/
structure KernelForm (d : List Byte) : Prop where
  fits : d.length < 2 ^ 32
  head : Headed d
  flagged : Flagged d
  debugInside : be32 d 36 ≤ be32 d 44 ∧ be32 d 40 ≤ be32 d 44 - be32 d 36
  taken : ∀ b ∈ rowsOf d, Taken (be32 d 44) (be32 d 24 + be32 d 28 * 16) b
  follows : Follows (be32 d 16) true 0 (rowsOf d)
  apart : ((rowsOf d).map Block.payload ++ debugSpan d).Pairwise Apart
  stackShape : be32 d 52 ≠ 0 ∧ (be32 d 52).toNat % 4 = 0 ∧ (be32 d 48).toNat % 4 = 0
  stackPlace : be32 d 48 ≤ cpuReserved ∧ be32 d 52 ≤ be32 d 48
  stackClear : ∀ b ∈ rowsOf d, ¬ (be32 d 48 - be32 d 52 < b.address + b.fileSize ∧ b.address < be32 d 48)
  entryWhole : be32 d 16 ≤ be32 d 16 + be32 d 20
  entry : ∃ b ∈ rowsOf d, b.perm &&& 4 ≠ 0 ∧ b.address ≤ be32 d 16 + be32 d 20 ∧
    be32 d 16 + be32 d 20 - b.address < b.fileSize

theorem Taken.interval {b : Block} (taken : Taken size tableEnd b) :
    b.span.interval = b.payload ∧ b.payload.start < b.payload.stop ∧ b.payload.Within ⟨tableEnd.toNat, size.toNat⟩ := by
  obtain ⟨some_, _, _, behind, ⟨starts, ends⟩, _⟩ := taken
  unfold Block.payload Block.span Span.interval Within
  refine ⟨?_, ?_, behind, ?_⟩
  · rw [Interval.mk.injEq]
    constructor
    · rfl
    · bv_omega
  · bv_omega
  · bv_omega

/-- The first range that is recorded is that of the debug data. -/
theorem recorded_debug (added : addSpan [] (be32 d 36) (be32 d 40) (be32 d 44) = some spans) :
    Recorded spans (debugSpan d) := by
  unfold debugSpan
  by_cases absent : be32 d 40 = 0
  · rw [if_pos absent]
    unfold addSpan at added
    rw [if_pos absent] at added
    split_ifs at added
    cases added
    exact ⟨List.Perm.refl _, List.Pairwise.nil⟩
  · rw [if_neg absent]
    obtain ⟨⟨starts, ends⟩, rfl⟩ := (addSpan_iff absent).mp added
    refine ⟨?_, List.pairwise_singleton _ _⟩
    have whole : (be32 d 36 + be32 d 40).toNat = (be32 d 36).toNat + (be32 d 40).toNat := by
      bv_omega
    rw [← whole]
    exact List.Perm.refl _

theorem addSpan_debug : (∃ spans, addSpan [] (be32 d 36) (be32 d 40) (be32 d 44) = some spans) ↔
    be32 d 36 ≤ be32 d 44 ∧ be32 d 40 ≤ be32 d 44 - be32 d 36 := by
  unfold addSpan
  constructor
  · rintro ⟨spans, added⟩
    split_ifs at added with out
    all_goals
      rw [not_or] at out
      exact ⟨BitVec.not_lt.mp out.1, BitVec.not_lt.mp out.2⟩
  · rintro ⟨starts, ends⟩
    have inside : ¬ (be32 d 36 > be32 d 44 ∨ be32 d 40 > be32 d 44 - be32 d 36) := by
      rw [not_or]
      exact ⟨BitVec.not_lt.mpr starts, BitVec.not_lt.mpr ends⟩
    rw [if_neg inside]
    split_ifs
    · exact ⟨_, rfl⟩
    · exact ⟨_, rfl⟩

/-- The debug data lies in the file. -/
theorem debug_inside (inside : be32 d 36 ≤ be32 d 44 ∧ be32 d 40 ≤ be32 d 44 - be32 d 36) :
    ∀ i ∈ debugSpan d, i.start < i.stop ∧ i.Within ⟨0, (be32 d 44).toNat⟩ := by
  obtain ⟨starts, ends⟩ := inside
  unfold debugSpan
  split_ifs with absent
  · intro i member
    cases member
  · intro i member
    rw [List.mem_singleton.mp member]
    unfold Within
    dsimp only
    refine ⟨?_, Nat.zero_le _, ?_⟩
    · bv_omega
    · bv_omega

theorem v2StackOk_iff (head : Headed file.bytes) : v2StackOk (v2Image file) = true ↔
    ((be32 file.bytes 52 ≠ 0 ∧ (be32 file.bytes 52).toNat % 4 = 0 ∧ (be32 file.bytes 48).toNat % 4 = 0) ∧
      (be32 file.bytes 48 ≤ cpuReserved ∧ be32 file.bytes 52 ≤ be32 file.bytes 48)) ∧
      ∀ b ∈ rowsOf file.bytes, ¬ (be32 file.bytes 48 - be32 file.bytes 52 < b.address + b.fileSize ∧
        b.address < be32 file.bytes 48) := by
  have top : (v2Image file).stackTop = be32 file.bytes 48 := rfl
  have size : (v2Image file).stackSize = be32 file.bytes 52 := rfl
  unfold v2StackOk
  dsimp only
  rw [v2Image_blocks head, top, size, ← and_three, ← and_three]
  generalize be32 file.bytes 48 = top, be32 file.bytes 52 = size, rowsOf file.bytes = blocks
  rw [Bool.and_eq_true, List.all_eq_true]
  apply and_congr
  · simp only [Bool.not_eq_true', Bool.or_eq_false_iff, decide_eq_false_iff_not, not_not]
    simp only [gt_iff_lt, not_lt]
    constructor
    · rintro ⟨⟨⟨⟨some_, four⟩, topFour⟩, fits⟩, below⟩
      exact ⟨⟨some_, four, topFour⟩, below, fits⟩
    · rintro ⟨⟨some_, four, topFour⟩, below, fits⟩
      exact ⟨⟨⟨⟨some_, four⟩, topFour⟩, fits⟩, below⟩
  · apply forall₂_congr
    intro b _
    rw [Bool.not_eq_true', ← Bool.not_eq_true, Bool.and_eq_true, decide_eq_true_iff, decide_eq_true_iff]

theorem v2EntryOk_iff (head : Headed file.bytes) : v2EntryOk (v2Image file) = true ↔
    be32 file.bytes 16 ≤ be32 file.bytes 16 + be32 file.bytes 20 ∧ ∃ b ∈ rowsOf file.bytes, b.perm &&& 4 ≠ 0 ∧
      b.address ≤ be32 file.bytes 16 + be32 file.bytes 20 ∧
      be32 file.bytes 16 + be32 file.bytes 20 - b.address < b.fileSize := by
  have base : (v2Image file).base = be32 file.bytes 16 := rfl
  have offset : (v2Image file).entryOffset = be32 file.bytes 20 := rfl
  unfold v2EntryOk
  dsimp only
  rw [v2Image_blocks head, base, offset]
  simp only [Bool.and_eq_true, Bool.not_eq_true', decide_eq_false_iff_not, List.any_eq_true, decide_eq_true_iff,
    not_lt, and_assoc]

/-- What the kernel keeps of a file. -/
theorem KernelReads.image (reads : KernelReads d im) :
    ∃ fits : d.length < 2 ^ 32, ∃ span, im = { v2Image ⟨d, fits⟩ with span := span, align := 1 } := by
  obtain ⟨fits, done⟩ := reads
  obtain ⟨_, body⟩ := parse_v2_iff.mp done
  obtain ⟨_, last, _, _, _, _, _, _, same⟩ := v2Body_iff.mp body
  exact ⟨fits, _, same⟩

/-- The table end that the kernel computes is the one the tools compute. -/
theorem Headed.tableEnd_toNat (head : Headed d) (fits : d.length < 2 ^ 32) :
    (be32 d 24 + be32 d 28 * 16).toNat = (tableOf d).stop := by
  have ends := head.tableEnd
  have same : (tableOf d).stop = (be32 d 24).toNat + (be32 d 28).toNat * (be32 d 32).toNat := rfl
  rw [same, head.size, head.entrySize] at ends
  rw [same, head.entrySize, BitVec.toNat_add, BitVec.toNat_mul]
  change (be32 d 24).toNat + (be32 d 28).toNat * 16 ≤ d.length at ends
  change ((be32 d 24).toNat + (be32 d 28).toNat * 16 % 2 ^ 32) % 2 ^ 32 = (be32 d 24).toNat + (be32 d 28).toNat * 16
  rw [Nat.mod_eq_of_lt (show (be32 d 28).toNat * 16 < 2 ^ 32 by omega), Nat.mod_eq_of_lt (by omega)]

/-- The ranges of an image that passed the loop are recorded, not empty and
inside the file. -/
theorem spans_of_taken (inside : be32 d 36 ≤ be32 d 44 ∧ be32 d 40 ≤ be32 d 44 - be32 d 36)
    (added : addSpan [] (be32 d 36) (be32 d 40) (be32 d 44) = some spans)
    (taken : ∀ b ∈ rowsOf d, Taken (be32 d 44) tableEnd b) :
    Recorded (recordAll spans (rowsOf d)) ((rowsOf d).map Block.payload ++ debugSpan d) ∧
      ∀ i ∈ (rowsOf d).map Block.payload ++ debugSpan d, i.start < i.stop ∧ i.Within ⟨0, (be32 d 44).toNat⟩ := by
  have recorded := (recorded_debug added).all (rowsOf d)
  have same : (rowsOf d).map (fun b => b.span.interval) = (rowsOf d).map Block.payload :=
    List.map_congr_left fun b member => (taken b member).interval.1
  rw [same] at recorded
  refine ⟨recorded, fun i member => ?_⟩
  rcases List.mem_append.mp member with payload | debug
  · obtain ⟨b, listed, rfl⟩ := List.mem_map.mp payload
    obtain ⟨_, nonempty, within⟩ := (taken b listed).interval
    exact ⟨nonempty, within.trans ⟨Nat.zero_le _, Nat.le_refl _⟩⟩
  · exact debug_inside inside i debug

theorem kernelReads_iff : (∃ im, KernelReads d im) ↔ KernelForm d := by
  constructor
  · rintro ⟨im, fits, done⟩
    obtain ⟨v2, body⟩ := parse_v2_iff.mp done
    obtain ⟨head, flagged⟩ := (v2Head_iff ⟨d, fits⟩).mp v2
    obtain ⟨spans, last, after, added, looped, gaps, stack, entry, _⟩ := v2Body_iff.mp body
    have size : (v2Image ⟨d, fits⟩).size = be32 d 44 :=
      BitVec.eq_of_toNat_eq ((size_toNat ⟨d, fits⟩).trans head.size.symm)
    rw [v2Image_blocks head, size] at looped
    rw [size] at added
    obtain ⟨taken, follows, rfl⟩ := (v2Blocks_iff _).mp ⟨last, looped⟩
    have inside := addSpan_debug.mp ⟨spans, added⟩
    obtain ⟨recorded, good⟩ := spans_of_taken inside added taken
    obtain ⟨⟨shape, place⟩, clear⟩ := (v2StackOk_iff head).mp stack
    obtain ⟨whole, entered⟩ := (v2EntryOk_iff head).mp entry
    refine ⟨fits, head, flagged, inside, taken, follows, ?_, shape, place, clear, whole, entered⟩
    refine (spansOk_iff recorded (fun i member => (good i member).1) fun i member => ?_).mp gaps
    have within : i.Within ⟨0, (be32 d 44).toNat⟩ := (good i member).2
    rw [← size] at within
    exact within
  · intro form
    obtain ⟨fits, head, flagged, inside, taken, follows, apart, shape, place, clear, whole, entered⟩ := form
    have size : (v2Image ⟨d, fits⟩).size = be32 d 44 :=
      BitVec.eq_of_toNat_eq ((size_toNat ⟨d, fits⟩).trans head.size.symm)
    obtain ⟨spans, added⟩ := addSpan_debug.mpr inside
    obtain ⟨recorded, good⟩ := spans_of_taken inside added taken
    obtain ⟨last, looped⟩ := (v2Blocks_iff (rowsOf d)).mpr ⟨taken, follows, rfl⟩
    refine ⟨{ v2Image ⟨d, fits⟩ with span := last - (v2Image ⟨d, fits⟩).base, align := 1 }, fits, parse_v2_iff.mpr ?_⟩
    refine ⟨(v2Head_iff ⟨d, fits⟩).mpr ⟨head, flagged⟩, v2Body_iff.mpr ?_⟩
    refine ⟨spans, last, recordAll spans (rowsOf d), ?_, ?_, ?_, (v2StackOk_iff head).mpr ⟨⟨shape, place⟩, clear⟩,
      (v2EntryOk_iff head).mpr ⟨whole, entered⟩, rfl⟩
    · rw [size]
      exact added
    · rw [v2Image_blocks head, size]
      exact looped
    · refine (spansOk_iff recorded (fun i member => (good i member).1) fun i member => ?_).mpr apart
      have within : i.Within ⟨0, (be32 d 44).toNat⟩ := (good i member).2
      rw [← size] at within
      exact within

end Src32.Wax
