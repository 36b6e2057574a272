import Src32.Wax.KernelReader

namespace Src32.Wax

open Interval

/-!
# The three readers of version 2

The kernel accepts what the tools accept, and more: it lets debug data lie
anywhere in the file, and a block that starts above the CPU-reserved area passes
its test of a block's size.  On a file without either, the three readers agree.
-/

variable {d : List Byte}

/-- No block starts above the CPU-reserved area, and debug data is aligned and
behind the block table. -/
structure Regular (d : List Byte) : Prop where
  below : ∀ b ∈ rowsOf d, b.address ≤ cpuReserved
  debug : ∀ span ∈ debugSpan d, span.start % 4 = 0 ∧ (tableOf d).stop ≤ span.start

/-! ## Words and numbers -/

variable {b : Block}

/-- A block that starts below the reserved area and fits under it does not wrap. -/
theorem stop_of_room (below : b.address ≤ cpuReserved) (room : b.fileSize ≤ cpuReserved - b.address) :
    b.stop ≤ cpuReserved.toNat := by
  unfold Block.stop
  bv_omega

theorem room_of_stop (stop : b.stop ≤ cpuReserved.toNat) :
    b.address ≤ cpuReserved ∧ b.fileSize ≤ cpuReserved - b.address := by
  unfold Block.stop at stop
  constructor <;> bv_omega

theorem stop_word (stop : b.stop ≤ cpuReserved.toNat) : (b.address + b.fileSize).toNat = b.stop := by
  unfold Block.stop at stop ⊢
  have reserved : cpuReserved.toNat < 2 ^ 32 := cpuReserved.isLt
  rw [BitVec.toNat_add]
  exact Nat.mod_eq_of_lt (by omega)

theorem clear_iff {top size : Word} (stop : b.stop ≤ cpuReserved.toNat) (fits : size ≤ top) :
    (top - size < b.address + b.fileSize ∧ b.address < top) ↔
      (top.toNat - size.toNat < b.stop ∧ b.address.toNat < top.toNat) := by
  have start : (top - size).toNat = top.toNat - size.toNat := by bv_omega
  rw [← start, ← stop_word stop]
  exact Iff.rfl

theorem entryWhole_iff {base offset : Word} :
    base ≤ base + offset ↔ base.toNat + offset.toNat ≤ 0xFFFFFFFF := by
  constructor
  · intro order
    bv_omega
  · intro whole
    bv_omega

theorem inside_iff {entry : Word} :
    (b.address ≤ entry ∧ entry - b.address < b.fileSize) ↔ b.address.toNat ≤ entry.toNat ∧ entry.toNat < b.stop := by
  unfold Block.stop
  constructor
  · rintro ⟨above, below⟩
    constructor <;> bv_omega
  · rintro ⟨above, below⟩
    constructor <;> bv_omega

/-! ## The block table -/

theorem row_iff {table : ToolTable} {size tableEnd : Word} (ends : tableEnd.toNat = table.stop)
    (whole : size.toNat = table.fileSize) (low : b.stop ≤ cpuReserved.toNat) :
    RowOk table b ∧ b.PermOk ↔ Taken size tableEnd b := by
  have room := (room_of_stop low).2
  constructor
  · rintro ⟨⟨some_, _, aligned, inside⟩, perm⟩
    unfold Within Block.payload at inside
    dsimp only at inside
    rw [← ends, ← whole] at inside
    refine ⟨some_, perm, and_three.mpr aligned, inside.1, ⟨?_, ?_⟩, room⟩
    · have starts : b.fileOffset.toNat ≤ size.toNat := by omega
      exact starts
    · bv_omega
  · intro taken
    have inside := taken.interval.2.2
    rw [ends, whole] at inside
    refine ⟨⟨taken.some_, ?_, and_three.mp taken.aligned, inside⟩, taken.perm⟩
    exact Nat.le_trans low (Nat.le_of_lt cpuReserved.isLt)

/-- The place that the loop of the kernel asks for is the one the tools ask for. -/
theorem placed_iff {base stop : Word} {first : Bool} {previous : Option Nat} {b : Block}
    (same : first = true ∧ previous = none ∨ first = false ∧ previous = some stop.toNat) :
    misplaced base first stop b = false ↔
      (∀ last ∈ previous, last ≤ b.address.toNat) ∧ (first = true -> b.address = base) := by
  unfold misplaced
  rcases same with ⟨rfl, rfl⟩ | ⟨rfl, rfl⟩
  · rw [if_pos rfl, decide_eq_false_iff_not, not_not]
    constructor
    · intro here
      refine ⟨fun last member => ?_, fun _ => here⟩
      cases member
    · rintro ⟨_, here⟩
      exact here rfl
  · rw [if_neg Bool.false_ne_true, decide_eq_false_iff_not, BitVec.not_lt]
    constructor
    · intro behind
      refine ⟨fun last member => ?_, fun wrong => ?_⟩
      · cases member
        exact behind
      · cases wrong
    · rintro ⟨behind, _⟩
      exact behind stop.toNat rfl

/-- The rows of the tools and the blocks of the kernel, where nothing wraps. -/
theorem rows_iff {table : ToolTable} {base size tableEnd : Word} (ends : tableEnd.toNat = table.stop)
    (whole : size.toNat = table.fileSize) {blocks : List Block} (low : ∀ b ∈ blocks, b.stop ≤ cpuReserved.toNat)
    {first : Bool} {stop : Word} {previous : Option Nat}
    (same : first = true ∧ previous = none ∨ first = false ∧ previous = some stop.toNat) :
    (Rows table True previous blocks ∧ (first = true -> ∀ b ∈ blocks.head?, b.address = base)) ↔
      (∀ b ∈ blocks, Taken size tableEnd b) ∧ Follows base first stop blocks := by
  induction blocks generalizing first stop previous with
  | nil =>
    constructor
    · intro _
      refine ⟨fun b member => ?_, trivial⟩
      cases member
    · intro _
      refine ⟨trivial, fun _ b member => ?_⟩
      cases member
  | cons b rest ih =>
    obtain ⟨here, later⟩ := List.forall_mem_cons.mp low
    have next := ih later (Or.inr ⟨rfl, congrArg some (stop_word here).symm⟩)
    have row := row_iff ends whole here
    have place := @placed_iff base stop first previous b same
    rw [List.forall_mem_cons]
    constructor
    · rintro ⟨⟨rowOk, perm, order, others⟩, head⟩
      obtain ⟨taken, follows⟩ := next.mp ⟨others, fun wrong => absurd wrong Bool.false_ne_true⟩
      exact ⟨⟨row.mp ⟨rowOk, perm trivial⟩, taken⟩, place.mpr ⟨order, fun start => head start b rfl⟩, follows⟩
    · rintro ⟨⟨taken, others⟩, placed, follows⟩
      obtain ⟨rowOk, perm⟩ := row.mpr taken
      obtain ⟨order, head⟩ := place.mp placed
      refine ⟨⟨rowOk, fun _ => perm, order, (next.mpr ⟨others, follows⟩).1⟩, fun start c member => ?_⟩
      cases member
      exact head start

/-! ## The whole file -/

theorem base_iff {base : Word} : (∀ b ∈ (toolImage d).blocks.head?, base = b.loadAddress) ↔
    ∀ b ∈ (rowsOf d).head?, b.address = base := by
  change (∀ b ∈ ((rowsOf d).map (Block.tool d)).head?, base = b.loadAddress) ↔ _
  cases rowsOf d with
  | nil =>
    constructor
    · intro _ b member
      cases member
    · intro _ b member
      cases member
  | cons first rest =>
    constructor
    · intro same b member
      cases member
      exact (same _ rfl).symm
    · intro same b member
      cases member
      exact (same first rfl).symm

/-- The entry of an image that does not wrap. -/
theorem entry_toNat (whole : (be32 d 16).toNat + (be32 d 20).toNat ≤ 0xFFFFFFFF) :
    (be32 d 16 + be32 d 20).toNat = (toolImage d).entry := by
  rw [BitVec.toNat_add]
  exact Nat.mod_eq_of_lt (by omega)

/-- The protection of the tools and of the kernel, on blocks that do not wrap. -/
theorem guarded_iff (low : ∀ b ∈ rowsOf d, b.stop ≤ cpuReserved.toNat) (same : ∀ b ∈ rowsOf d, (b.tool d).stop = b.stop)
    (whole : (be32 d 16).toNat + (be32 d 20).toNat ≤ 0xFFFFFFFF) :
    Guarded (be32 d 48) (be32 d 52) (toolImage d).blocks (toolImage d).entry ↔
      ((be32 d 52 ≠ 0 ∧ (be32 d 52).toNat % 4 = 0 ∧ (be32 d 48).toNat % 4 = 0) ∧
        (be32 d 48 ≤ cpuReserved ∧ be32 d 52 ≤ be32 d 48)) ∧
      (∀ b ∈ rowsOf d, ¬ (be32 d 48 - be32 d 52 < b.address + b.fileSize ∧ b.address < be32 d 48)) ∧
      ∃ b ∈ rowsOf d, b.perm &&& 4 ≠ 0 ∧ b.address ≤ be32 d 16 + be32 d 20 ∧
        be32 d 16 + be32 d 20 - b.address < b.fileSize := by
  have entered : ∀ b ∈ rowsOf d, ((b.address ≤ be32 d 16 + be32 d 20 ∧ be32 d 16 + be32 d 20 - b.address < b.fileSize) ↔
      (b.tool d).loadAddress.toNat ≤ (toolImage d).entry ∧ (toolImage d).entry < (b.tool d).stop) := by
    intro b member
    rw [inside_iff, entry_toNat whole, same b member]
    exact Iff.rfl
  constructor
  · intro guarded
    refine ⟨⟨guarded.shape, guarded.place⟩, fun b member reaches => ?_, ?_⟩
    · have clear := guarded.clear _ (List.mem_map_of_mem member)
      rw [same b member] at clear
      exact clear ((clear_iff (low b member) guarded.place.2).mp reaches)
    · obtain ⟨tool, listed, above, below, perm⟩ := guarded.entry
      obtain ⟨b, member, rfl⟩ := List.mem_map.mp listed
      exact ⟨b, member, perm, (entered b member).mpr ⟨above, below⟩⟩
  · rintro ⟨⟨shape, place⟩, clear, b, member, perm, holds⟩
    obtain ⟨above, below⟩ := (entered b member).mp holds
    refine ⟨shape, place, ?_, ?_, b.tool d, List.mem_map_of_mem member, above, below, perm⟩
    · intro tool listed
      obtain ⟨c, row, rfl⟩ := List.mem_map.mp listed
      rw [same c row]
      exact fun reaches => clear c row ((clear_iff (low c row) place.2).mpr reaches)
    · intro tool listed
      obtain ⟨c, row, rfl⟩ := List.mem_map.mp listed
      rw [same c row]
      exact low c row

/-- The table has rows. -/
theorem Headed.table_nonempty (head : Headed d) : (be32 d 24).toNat < (tableOf d).stop := by
  have some_ : 0 < (be32 d 28).toNat := by
    rw [Nat.pos_iff_ne_zero]
    exact fun zero => head.some_ (BitVec.eq_of_toNat_eq zero)
  have same : (tableOf d).stop = (be32 d 24).toNat + (be32 d 28).toNat * (be32 d 32).toNat := rfl
  have sized : (be32 d 32).toNat = 16 := congrArg BitVec.toNat head.entrySize
  rw [same, sized]
  omega

/-- The file parts, once every payload and the debug data are behind the table. -/
theorem parts_iff (head : Headed d)
    (behind : ∀ i ∈ (rowsOf d).map Block.payload ++ debugSpan d, i.start < i.stop ∧ (tableOf d).stop ≤ i.start) :
    inOrder ((partsOf d).insertionSort Before) = true ↔
      ((rowsOf d).map Block.payload ++ debugSpan d).Pairwise Apart := by
  have parts : partsOf d = ⟨(be32 d 24).toNat, (tableOf d).stop⟩ :: ((rowsOf d).map Block.payload ++ debugSpan d) := rfl
  rw [parts, inOrder_insertionSort, List.pairwise_cons]
  · refine ⟨fun both => both.2, fun apart => ⟨fun i member => Or.inl (behind i member).2, apart⟩⟩
  · intro i member
    rcases List.mem_cons.mp member with rfl | later
    · exact head.table_nonempty
    · exact (behind i later).1

theorem debugSpan_some (there : be32 d 40 ≠ 0) :
    ⟨(be32 d 36).toNat, (be32 d 36).toNat + (be32 d 40).toNat⟩ ∈ debugSpan d := by
  unfold debugSpan
  rw [if_neg there]
  exact List.mem_singleton_self _

theorem KernelForm.accepts (form : KernelForm d) (regular : Regular d) : ToolAccepts d := by
  have head := form.head
  have ends := head.tableEnd_toNat form.fits
  have low : ∀ b ∈ rowsOf d, b.stop ≤ cpuReserved.toNat := fun b member =>
    stop_of_room (regular.below b member) (form.taken b member).room
  have rows := (@rows_iff (tableOf d) (be32 d 16) (be32 d 44) _ ends rfl _ low true 0 none (Or.inl ⟨rfl, rfl⟩)).mpr
    ⟨form.taken, form.follows⟩
  have whole := entryWhole_iff.mp form.entryWhole
  have behind : ∀ i ∈ (rowsOf d).map Block.payload ++ debugSpan d, i.start < i.stop ∧ (tableOf d).stop ≤ i.start := by
    intro i member
    rcases List.mem_append.mp member with payload | debug
    · obtain ⟨b, listed, rfl⟩ := List.mem_map.mp payload
      obtain ⟨_, nonempty, within⟩ := (form.taken b listed).interval
      rw [ends] at within
      exact ⟨nonempty, within.1⟩
    · exact ⟨(debug_inside form.debugInside i debug).1, (regular.debug i debug).2⟩
  have same : ∀ b ∈ rowsOf d, (b.tool d).stop = b.stop := by
    intro b member
    exact stop_tool head (rows.1.ok b member)
  have debugOk : DebugOk d := by
    refine ⟨form.flagged.1, form.flagged.2, fun i member => ?_⟩
    obtain ⟨aligned, start⟩ := regular.debug i member
    exact ⟨aligned, start, (debug_inside form.debugInside i member).2.2⟩
  have guarded := (guarded_iff low same whole).mpr ⟨⟨form.stackShape, form.stackPlace⟩, form.stackClear, form.entry⟩
  refine ⟨⟨head, rows.1, debugOk, (parts_iff head behind).mpr form.apart, base_iff.mpr (rows.2 rfl), whole, ?_⟩, guarded⟩
  obtain ⟨b, member, above, below, _⟩ := guarded.entry
  exact ⟨b, member, above, below⟩

theorem ToolAccepts.kernel (accepts : ToolAccepts d) : KernelForm d ∧ Regular d := by
  obtain ⟨framed, guarded⟩ := accepts
  have head := framed.toHeaded
  have fits : d.length < 2 ^ 32 := by
    rw [← head.size]
    exact (be32 d 44).isLt
  have ends := head.tableEnd_toNat fits
  have same : ∀ b ∈ rowsOf d, (b.tool d).stop = b.stop := fun b member => stop_tool head (framed.rows.ok b member)
  have low : ∀ b ∈ rowsOf d, b.stop ≤ cpuReserved.toNat := by
    intro b member
    rw [← same b member]
    exact guarded.below _ (List.mem_map_of_mem member)
  obtain ⟨taken, follows⟩ :=
    (@rows_iff (tableOf d) (be32 d 16) (be32 d 44) _ ends rfl _ low true 0 none (Or.inl ⟨rfl, rfl⟩)).mp
      ⟨framed.rows, fun _ => base_iff.mp framed.base⟩
  have inside : be32 d 36 ≤ be32 d 44 ∧ be32 d 40 ≤ be32 d 44 - be32 d 36 := by
    by_cases absent : be32 d 40 = 0
    · rw [framed.debug.absent absent, absent]
      exact ⟨Nat.zero_le _, Nat.zero_le _⟩
    · have within := (framed.debug.placed _ (debugSpan_some absent)).2.2
      dsimp only at within
      constructor <;> bv_omega
  have regular : Regular d := by
    refine ⟨fun b member => (room_of_stop (low b member)).1, fun i member => ?_⟩
    obtain ⟨aligned, start, _⟩ := framed.debug.placed i member
    exact ⟨aligned, start⟩
  have behind : ∀ i ∈ (rowsOf d).map Block.payload ++ debugSpan d, i.start < i.stop ∧ (tableOf d).stop ≤ i.start := by
    intro i member
    rcases List.mem_append.mp member with payload | debug
    · obtain ⟨b, listed, rfl⟩ := List.mem_map.mp payload
      obtain ⟨_, nonempty, within⟩ := (taken b listed).interval
      rw [ends] at within
      exact ⟨nonempty, within.1⟩
    · exact ⟨(debug_inside inside i debug).1, (regular.debug i debug).2⟩
  obtain ⟨⟨shape, place⟩, clear, entry⟩ := (guarded_iff low same framed.entryWhole).mp guarded
  exact ⟨⟨fits, head, ⟨framed.debug.flagged, framed.debug.absent⟩, inside, taken, follows,
    (parts_iff head behind).mp framed.apart, shape, place, clear, entryWhole_iff.mpr framed.entryWhole, entry⟩, regular⟩

/-! ## Agreement -/

/-- `parse` of `wax.py` reports a PROTECTED executable. -/
def PyReads (d : List Byte) (tool : ToolImage) : Prop := pyParse d = .ok tool ∧ tool.protection.isSome = true

/-- `parse` of `wax.rs` reports a PROTECTED executable. -/
def RustReads (d : List Byte) (tool : ToolImage) : Prop := rustParse d = .ok tool ∧ tool.protection.isSome = true

/-- The kernel and a tool read the same base, entry, stack and blocks. -/
structure Same (d : List Byte) (im : Image) (tool : ToolImage) : Prop where
  base : tool.base = im.base
  entry : tool.entry = (im.base + im.entryOffset).toNat
  stack : tool.protection = some (im.stackTop, im.stackSize)
  blocks : tool.blocks = im.blocks.map (Block.tool d)

/-- The parts of the file of an image: header, block table, payloads and debug
data. -/
def Image.parts (im : Image) : List Interval :=
  ⟨0, 64⟩ :: ⟨im.blockTable.toNat, im.blockTable.toNat + im.blockCount.toNat * 16⟩ ::
    (im.blocks.map Block.payload ++
      if im.word 40 = 0 then [] else [⟨(im.word 36).toNat, (im.word 36).toNat + (im.word 40).toNat⟩])

/-- The readers agree about a byte string. -/
structure Agree (d : List Byte) : Prop where
  py : (∃ im, KernelReads d im) ↔ ∃ tool, PyReads d tool
  rust : (∃ im, KernelReads d im) ↔ ∃ tool, RustReads d tool
  same : ∀ im tool, KernelReads d im -> PyReads d tool ∨ RustReads d tool -> Same d im tool
  apart : ∀ im, KernelReads d im -> im.parts.Pairwise Apart

theorem pyReads_iff : (∃ tool, PyReads d tool) ↔ ToolAccepts d := by
  constructor
  · rintro ⟨tool, reads⟩
    exact (pyParse_iff.mp reads).1
  · intro accepts
    exact ⟨toolImage d, pyParse_iff.mpr ⟨accepts, rfl⟩⟩

theorem rustReads_iff : (∃ tool, RustReads d tool) ↔ ToolAccepts d := by
  constructor
  · rintro ⟨tool, reads⟩
    exact (rustParse_iff.mp reads).1
  · intro accepts
    exact ⟨toolImage d, rustParse_iff.mpr ⟨accepts, rfl⟩⟩

theorem ToolAccepts.apart (accepts : ToolAccepts d) {im : Image} (reads : KernelReads d im) :
    im.parts.Pairwise Apart := by
  obtain ⟨fits, span, rfl⟩ := reads.image
  obtain ⟨form, regular⟩ := accepts.kernel
  have head := form.head
  have blocks : Image.blocks { v2Image ⟨d, fits⟩ with span := span, align := 1 } = rowsOf d := v2Image_blocks head
  have ends := head.tableEnd_toNat form.fits
  have sized : (be32 d 32).toNat = 16 := congrArg BitVec.toNat head.entrySize
  have tableStop : (tableOf d).stop = (be32 d 24).toNat + (be32 d 28).toNat * 16 := by
    rw [← sized]
    rfl
  have parts : Image.parts { v2Image ⟨d, fits⟩ with span := span, align := 1 } =
      ⟨0, 64⟩ :: ⟨(be32 d 24).toNat, (tableOf d).stop⟩ :: ((rowsOf d).map Block.payload ++ debugSpan d) := by
    unfold Image.parts
    rw [blocks, tableStop]
    rfl
  have behind : ∀ i ∈ (rowsOf d).map Block.payload ++ debugSpan d, (tableOf d).stop ≤ i.start := by
    intro i member
    rcases List.mem_append.mp member with payload | debug
    · obtain ⟨b, listed, rfl⟩ := List.mem_map.mp payload
      have within := (form.taken b listed).interval.2.2
      rw [ends] at within
      exact within.1
    · exact (regular.debug i debug).2
  have place : 64 ≤ (be32 d 24).toNat := head.tablePlace.2
  have table := head.table_nonempty
  rw [parts]
  refine List.pairwise_cons.mpr ⟨fun i member => Or.inl ?_, List.pairwise_cons.mpr ⟨fun i member => Or.inl ?_, form.apart⟩⟩
  · rcases List.mem_cons.mp member with rfl | later
    · exact place
    · have start := behind i later
      change 64 ≤ i.start
      omega
  · exact behind i member

theorem ToolAccepts.same (accepts : ToolAccepts d) {im : Image} (reads : KernelReads d im) : Same d im (toolImage d) := by
  obtain ⟨fits, span, rfl⟩ := reads.image
  obtain ⟨form, _⟩ := accepts.kernel
  have blocks : Image.blocks { v2Image ⟨d, fits⟩ with span := span, align := 1 } = rowsOf d := v2Image_blocks form.head
  refine ⟨rfl, (entry_toNat (entryWhole_iff.mp form.entryWhole)).symm, rfl, ?_⟩
  rw [blocks]
  rfl

/-- The three readers agree about every byte string but those that the kernel
accepts although a block starts above the CPU-reserved area or the debug data is
misaligned or reaches in front of the block table's end. -/
theorem agree_iff (d : List Byte) : Agree d ↔ (KernelForm d -> Regular d) := by
  constructor
  · intro agree form
    exact (pyReads_iff.mp (agree.py.mp (kernelReads_iff.mpr form))).kernel.2
  · intro regular
    have both : KernelForm d ↔ ToolAccepts d :=
      ⟨fun form => form.accepts (regular form), fun accepts => accepts.kernel.1⟩
    refine ⟨?_, ?_, fun im tool reads read => ?_, fun im reads => ?_⟩
    · rw [kernelReads_iff, pyReads_iff, both]
    · rw [kernelReads_iff, rustReads_iff, both]
    · have accepts := both.mp (kernelReads_iff.mp ⟨im, reads⟩)
      have same : tool = toolImage d := by
        rcases read with py | rust
        · exact (pyParse_iff.mp py).2
        · exact (rustParse_iff.mp rust).2
      rw [same]
      exact accepts.same reads
    · exact (both.mp (kernelReads_iff.mp ⟨im, reads⟩)).apart reads

/-! ## Files that split the readers -/

def bytesOfWord (word : Word) : List Byte :=
  [(word >>> 24).setWidth 8, (word >>> 16).setWidth 8, (word >>> 8).setWidth 8, word.setWidth 8]

/-- A file of one executable block of four bytes at `address`; its debug data, if
`debugSize` is not 0, is the start of the header. -/
def oneBlock (flags debugSize address : Word) : List Byte :=
  let words : List Word := [headerV2, address, 0, headerV2, 1, 16, 0, debugSize, 84, 0x2000, 0x100, 0, 0, address, 80, 4, 5, 0]
  magic ++ [0, 2, 0, 1, 0, 1, 0, flags.setWidth 8] ++ words.flatMap bytesOfWord

theorem kernelReads_of_parse {d : List Byte} (fits : d.length < 2 ^ 32)
    (taken : (parse ⟨d, fits⟩).toOption.any (fun im => im.version = 2) = true) : ∃ im, KernelReads d im := by
  cases done : parse ⟨d, fits⟩ with
  | error failure =>
    rw [done] at taken
    cases taken
  | ok im =>
    rw [done] at taken
    exact ⟨im, fits, done, of_decide_eq_true taken⟩

theorem not_agree_of_split {d : List Byte} (fits : d.length < 2 ^ 32)
    (taken : (parse ⟨d, fits⟩).toOption.any (fun im => im.version = 2) = true)
    (refused : (pyParse d).toOption.isSome = false) : ¬ Agree d := by
  intro agree
  obtain ⟨tool, read, _⟩ := agree.py.mp (kernelReads_of_parse fits taken)
  rw [read] at refused
  cases refused

/-- The kernel takes debug data that overlaps the header, and a block above the
CPU-reserved area; `wax.py` refuses both. -/
theorem irregular_files_split : ¬ Agree (oneBlock 3 4 0x10000) ∧ ¬ Agree (oneBlock 2 0 0xFFFF8000) := by
  constructor
  · exact not_agree_of_split (by decide +kernel) (by decide +kernel) (by decide +kernel)
  · exact not_agree_of_split (by decide +kernel) (by decide +kernel) (by decide +kernel)

/-- A regular file is read by all three. -/
example : (pyParse (oneBlock 2 0 0x10000)).toOption.isSome = true ∧ (rustParse (oneBlock 2 0 0x10000)).toOption.isSome = true := by
  decide +kernel

end Src32.Wax
