import Src32.Wax.Pack

namespace Src32.Wax

open Interval

/-!
# Conditions under which the tools read a file

The checks of `toolParse` one by one, for images with and without protection and for
libraries.  Both readers make them; they differ in what they ask of the blocks and in
how they validate the protection.
-/

variable {d : List Byte}

/-- The header of a file and what its parts are. -/
structure Readable (d : List Byte) (isProtected isLib : Bool) (blocks : List ToolBlock) (spans : List Interval)
    (debug : List Byte) (debugSpans : List Interval) : Prop where
  long : 64 ≤ d.length
  magic_ : d.take 4 = magic
  version : be16 d 4 = 2
  ftype : be16 d 6 = if isLib then typeWal else typeWax
  arch : be16 d 8 = 1
  headerSize : be32 d 12 = headerV2
  flags : be16 d 10 &&& ~~~3 = 0
  flagged : decide (be16 d 10 &&& flagProtected ≠ 0) = isProtected
  onlyWax : isProtected = true -> isLib = false
  reserved : ∀ b ∈ sliceOf d (if isProtected then 56 else 48) 64, b = 0
  size : (be32 d 44).toNat = d.length
  some_ : be32 d 28 ≠ 0
  entrySize : be32 d 32 = if isProtected then 16 else 12
  few : isProtected = true -> be32 d 28 ≤ 7
  tablePlace : be32 d 24 = 64
  tableEnd : (be32 d 24).toNat + (be32 d 28).toNat * (be32 d 32).toNat ≤ (be32 d 44).toNat
  debugged : toolDebug d ((be32 d 24).toNat + (be32 d 28).toNat * (be32 d 32).toNat) (be32 d 44).toNat (be16 d 10)
    (be32 d 36) (be32 d 40) = .ok (debug, debugSpans)
  apart : inOrder ((⟨(be32 d 24).toNat, (be32 d 24).toNat + (be32 d 28).toNat * (be32 d 32).toNat⟩ :: spans ++
    debugSpans).insertionSort Before) = true
  library : isLib = true -> be32 d 16 = 0 ∧ be32 d 20 = 0
  lowest : isLib = false -> ∀ b ∈ blocks.head?, be32 d 16 = b.loadAddress
  entryWhole : (be32 d 16).toNat + (be32 d 20).toNat ≤ 0xFFFFFFFF
  entry : isLib = false -> ∃ b ∈ blocks, b.loadAddress.toNat ≤ (be32 d 16).toNat + (be32 d 20).toNat ∧
    (be32 d 16).toNat + (be32 d 20).toNat < b.stop

/-- What the tools report of such a file. -/
def readImage (d : List Byte) (isProtected isLib : Bool) (blocks : List ToolBlock) (debug : List Byte) : ToolImage where
  isLib := isLib
  base := be32 d 16
  entry := (be32 d 16).toNat + (be32 d 20).toNat
  blocks := blocks
  debug := debug
  protection := if isProtected then some (be32 d 48, be32 d 52) else none

/-- The table that the loop over the blocks works on. -/
def readTable (d : List Byte) (isProtected : Bool) : ToolTable where
  offset := be32 d 24
  entrySize := be32 d 32
  stop := (be32 d 24).toNat + (be32 d 28).toNat * (be32 d 32).toNat
  fileSize := (be32 d 44).toNat
  isProtected := isProtected

variable {isProtected : Bool} {entrySize : Nat}

theorem toolParse_ok {permInLoop : Bool} {validate : Word -> Word -> List ToolBlock -> Nat -> Except String Unit}
    {isLib : Bool} {blocks : List ToolBlock} {spans debugSpans : List Interval} {debug : List Byte}
    (readable : Readable d isProtected isLib blocks spans debug debugSpans)
    (read : toolBlocks permInLoop d (readTable d isProtected) none (List.range (be32 d 28).toNat) = .ok (blocks, spans))
    (valid : isProtected = true ->
      validate (be32 d 48) (be32 d 52) blocks ((be32 d 16).toNat + (be32 d 20).toNat) = .ok ()) :
    toolParse permInLoop validate d = .ok (readImage d isProtected isLib blocks debug) := by
  have lib : decide (be16 d 6 = typeWal) = isLib := by
    rw [readable.ftype]
    cases isLib with
    | false => rfl
    | true => rfl
  have known : be16 d 6 = typeWax ∨ be16 d 6 = typeWal := by
    rw [readable.ftype]
    cases isLib with
    | false => exact .inl rfl
    | true => exact .inr rfl
  unfold toolParse
  dsimp only
  rw [readable.flagged, lib]
  simp only [refuse_bind]
  refine ⟨Nat.not_lt.mpr readable.long, not_not.mpr readable.magic_, not_not.mpr readable.version,
    fun neither => known.elim neither.1 neither.2, not_not.mpr readable.arch, not_not.mpr readable.headerSize,
    not_not.mpr readable.flags, ?_, ?_, not_not.mpr readable.size, readable.some_, not_not.mpr readable.entrySize, ?_, ?_,
    Nat.not_lt.mpr readable.tableEnd, ?_⟩
  · rintro ⟨guarded, other⟩
    rw [readable.ftype, readable.onlyWax guarded] at other
    exact other rfl
  · rintro ⟨b, member, other⟩
    exact other (readable.reserved b member)
  · rintro ⟨guarded, more⟩
    exact absurd (readable.few guarded) (BitVec.not_le.mpr more)
  · rw [readable.tablePlace]
    decide
  · refine Fallible.bind_ok_iff.mpr ⟨_, read, ?_⟩
    dsimp only
    refine Fallible.bind_ok_iff.mpr ⟨_, readable.debugged, ?_⟩
    dsimp only
    simp only [refuse_bind]
    refine ⟨ne_false_of_eq_true readable.apart, ?_, ?_, Nat.not_lt.mpr readable.entryWhole, ?_, ?_⟩
    · rintro ⟨wal, other⟩
      obtain ⟨base, offset⟩ := readable.library wal
      exact other.elim (fun differs => differs base) (fun differs => differs offset)
    · rintro ⟨wax, b, member, other⟩
      exact other (readable.lowest wax b member)
    · rintro ⟨wax, outside⟩
      exact outside (readable.entry wax)
    · cases isProtected with
      | false => rfl
      | true =>
        rw [if_pos rfl]
        exact Fallible.bind_ok_iff.mpr ⟨(), valid rfl, rfl⟩

/-! ## The block table -/

/-- An entry of the block table as it is read: address, offset and size of a block,
its permission and its bytes. -/
structure ReadRow (d : List Byte) (isProtected : Bool) (index : Nat) (row : ToolBlock × Interval) : Prop where
  address : be32 d (64 + index * (if isProtected then 16 else 12)) = row.1.loadAddress
  offset : (be32 d (64 + index * (if isProtected then 16 else 12) + 4)).toNat = row.2.start
  size : (be32 d (64 + index * (if isProtected then 16 else 12) + 8)).toNat = row.1.data.length
  perm : (if isProtected then be32 d (64 + index * (if isProtected then 16 else 12) + 12) else 0) = row.1.perm
  data : sliceOf d row.2.start row.2.stop = row.1.data
  stop : row.2.stop = row.2.start + row.1.data.length

/-- What the loop asks of the entries behind a block that ends at `previous`. -/
def ReadRows (permInLoop isProtected : Bool) (table : ToolTable) (previous : Option Nat) : List (ToolBlock × Interval) -> Prop
  | [] => True
  | row :: rest => row.1.data ≠ [] ∧
      (permInLoop = true -> isProtected = true -> row.1.perm ≠ 0 ∧ row.1.perm &&& ~~~7 = 0) ∧
      row.1.stop ≤ 2 ^ 32 ∧ (∀ stop ∈ previous, stop ≤ row.1.loadAddress.toNat) ∧ row.2.start % 4 = 0 ∧
      table.stop ≤ row.2.start ∧ row.2.stop ≤ table.fileSize ∧
      ReadRows permInLoop isProtected table (some row.1.stop) rest

theorem toolBlocks_ok {permInLoop : Bool} {table : ToolTable} (guards : table.isProtected = isProtected)
    (offset : table.offset = 64) (entrySize : table.entrySize = if isProtected then 16 else 12)
    (rows : List (ToolBlock × Interval)) (index : Nat) {previous : Option Nat}
    (read : ∀ place row, rows[place]? = some row -> ReadRow d isProtected (index + place) row)
    (fine : ReadRows permInLoop isProtected table previous rows) :
    toolBlocks permInLoop d table previous (List.range' index rows.length) =
      .ok (rows.map Prod.fst, rows.map Prod.snd) := by
  induction rows generalizing index previous with
  | nil => rfl
  | cons row rest ih =>
    obtain ⟨some_, perms, whole, order, aligned, behind, inside, others⟩ := fine
    have here := read 0 row rfl
    rw [Nat.add_zero] at here
    have later := ih (index + 1) (fun place row found => by
      have shifted := read (place + 1) row found
      rwa [show index + (place + 1) = index + 1 + place by omega] at shifted) others
    have record : table.offset.toNat + index * table.entrySize.toNat =
        64 + index * (if isProtected then 16 else 12) := by
      rw [offset, entrySize]
      cases isProtected with
      | false => rfl
      | true => rfl
    have stop : (be32 d (64 + index * (if isProtected then 16 else 12))).toNat +
        (be32 d (64 + index * (if isProtected then 16 else 12) + 8)).toNat = row.1.stop := by
      rw [here.address, here.size]
      rfl
    have span : row.2.stop = (be32 d (64 + index * (if isProtected then 16 else 12) + 4)).toNat +
        (be32 d (64 + index * (if isProtected then 16 else 12) + 8)).toNat := by
      rw [here.offset, here.size, here.stop]
    rw [List.length_cons, List.range'_succ, toolBlocks, guards, record]
    simp only [refuse_bind]
    refine ⟨?_, ?_, ?_, ?_, ?_, ?_, Fallible.bind_ok_iff.mpr ⟨(rest.map Prod.fst, rest.map Prod.snd), ?_, ?_⟩⟩
    · intro zero
      have none : row.1.data.length = 0 := by
        rw [← here.size, zero]
        rfl
      exact some_ (List.eq_nil_of_length_eq_zero none)
    · rintro ⟨inLoop, guarded, bad⟩
      rw [here.perm] at bad
      obtain ⟨nonzero, mask⟩ := perms inLoop guarded
      exact bad.elim nonzero (fun other => other mask)
    · rw [stop]
      exact Nat.not_lt.mpr whole
    · rintro ⟨last, member, below⟩
      rw [here.address] at below
      exact absurd (order last member) (Nat.not_le.mpr below)
    · rw [here.offset]
      exact not_not.mpr aligned
    · rw [← span, here.offset]
      rintro (below | above)
      · exact absurd behind (Nat.not_le.mpr below)
      · exact absurd inside (Nat.not_le.mpr above)
    · rw [stop]
      exact later
    · rw [← span, here.address, here.perm, here.offset, here.data]
      rfl

/-!
## Where `pack` writes

Header, block table, payloads and debug data lie apart from each other, so the file
holds each of them at its offset.
-/

/-! ## The layout -/

theorem align4_spec (n : Nat) : n ≤ align4 n ∧ align4 n % 4 = 0 := by
  unfold align4
  omega

/-- The place of a payload in the file. -/
def payloadSpan (placed : PackBlock × Nat) : Interval := ⟨placed.2, placed.2 + placed.1.data.length⟩

theorem layOut_blocks (blocks : List PackBlock) (cursor : Nat) : (layOut cursor blocks).1.map Prod.fst = blocks := by
  induction blocks generalizing cursor with
  | nil => rfl
  | cons b rest ih => exact congrArg (b :: ·) (ih _)

theorem layOut_length (blocks : List PackBlock) (cursor : Nat) : (layOut cursor blocks).1.length = blocks.length := by
  have same := congrArg List.length (layOut_blocks blocks cursor)
  rwa [List.length_map] at same

theorem layOut_aligned (blocks : List PackBlock) (cursor : Nat) : ∀ placed ∈ (layOut cursor blocks).1, placed.2 % 4 = 0 := by
  induction blocks generalizing cursor with
  | nil => exact fun placed member => absurd member List.not_mem_nil
  | cons b rest ih =>
    intro placed member
    rcases List.mem_cons.mp member with rfl | later
    · exact (align4_spec cursor).2
    · exact ih _ placed later

/-- Payloads follow one another from the cursor on. -/
theorem layOut_ascending (blocks : List PackBlock) (cursor : Nat) :
    Ascending cursor ((layOut cursor blocks).1.map payloadSpan) (layOut cursor blocks).2 := by
  induction blocks generalizing cursor with
  | nil => exact Nat.le_refl cursor
  | cons b rest ih => exact ⟨(align4_spec cursor).1, Nat.le_add_right _ _, ih _⟩

/-! ## The pieces -/

/-- The size of a table entry. -/
def entrySizeOf (isProtected : Bool) : Nat := if isProtected then 16 else 12

theorem length_packRecord (isProtected : Bool) (placed : PackBlock × Nat) :
    (packRecord isProtected placed).length = entrySizeOf isProtected := by
  cases isProtected with
  | false => rfl
  | true => rfl

/-- The place of an entry of the table. -/
def recordSpan (entrySize index : Nat) : Interval := ⟨64 + index * entrySize, 64 + index * entrySize + entrySize⟩

theorem mem_packPieces (size : entrySize = entrySizeOf isProtected) (placed : List (PackBlock × Nat)) (index : Nat)
    {piece : Nat × List Byte} (member : piece ∈ packPieces isProtected entrySize index placed) :
    (∃ row, index ≤ row ∧ row < index + placed.length ∧ pieceSpan piece = recordSpan entrySize row) ∨
      pieceSpan piece ∈ placed.map payloadSpan := by
  induction placed generalizing index with
  | nil => exact absurd member List.not_mem_nil
  | cons first rest ih =>
    rw [packPieces, List.mem_cons, List.mem_cons] at member
    rcases member with rfl | rfl | later
    · refine .inl ⟨index, Nat.le_refl _, by rw [List.length_cons]; omega, ?_⟩
      unfold pieceSpan recordSpan
      dsimp only
      rw [length_packRecord, size]
    · exact .inr (List.mem_map.mpr ⟨first, List.mem_cons_self, rfl⟩)
    · rcases ih (index + 1) later with ⟨row, low, high, span⟩ | payload
      · exact .inl ⟨row, Nat.le_of_succ_le low, by rw [List.length_cons]; omega, span⟩
      · exact .inr (List.mem_cons_of_mem _ payload)

/-- An entry lies in the table. -/
theorem recordSpan_within (entrySize : Nat) {row count : Nat} (below : row < count) :
    (recordSpan entrySize row).Within ⟨64, 64 + count * entrySize⟩ := by
  unfold recordSpan
  refine ⟨Nat.le_add_right _ _, ?_⟩
  have rows : (row + 1) * entrySize ≤ count * entrySize := Nat.mul_le_mul_right _ below
  rw [Nat.add_mul, Nat.one_mul] at rows
  show 64 + row * entrySize + entrySize ≤ 64 + count * entrySize
  omega

theorem recordSpan_apart {first second : Nat} (order : first < second) :
    (recordSpan entrySize first).Apart (recordSpan entrySize second) := by
  have rows : (first + 1) * entrySize ≤ second * entrySize := Nat.mul_le_mul_right _ order
  rw [Nat.add_mul, Nat.one_mul] at rows
  refine Or.inl ?_
  show 64 + first * entrySize + entrySize ≤ 64 + second * entrySize
  omega

/-- No two pieces of table and payloads touch, when the payloads are behind the table. -/
theorem packPieces_apart (size : entrySize = entrySizeOf isProtected) (placed : List (PackBlock × Nat))
    (index count : Nat) (room : index + placed.length ≤ count) {low high : Nat}
    (behind : 64 + count * entrySize ≤ low) (ascending : Ascending low (placed.map payloadSpan) high) :
    ((packPieces isProtected entrySize index placed).map pieceSpan).Pairwise Apart := by
  induction placed generalizing index low with
  | nil => exact List.Pairwise.nil
  | cons first rest ih =>
    obtain ⟨above, ordered, others⟩ := ascending
    rw [List.length_cons] at room
    have later := ih (index + 1) (by omega) (Nat.le_trans behind (Nat.le_trans above ordered)) others
    have record : pieceSpan (64 + index * entrySize, packRecord isProtected first) = recordSpan entrySize index := by
      unfold pieceSpan recordSpan
      dsimp only
      rw [length_packRecord, size]
    have payload : pieceSpan (first.2, first.1.data) = payloadSpan first := rfl
    have table := recordSpan_within entrySize (show index < count by omega)
    rw [packPieces, List.map_cons, List.map_cons, record, payload]
    refine List.pairwise_cons.mpr ⟨fun other member => ?_, List.pairwise_cons.mpr ⟨fun other member => ?_, later⟩⟩
    · rcases List.mem_cons.mp member with rfl | member
      · exact Or.inl (Nat.le_trans table.2 (Nat.le_trans behind above))
      · obtain ⟨piece, listed, rfl⟩ := List.mem_map.mp member
        rcases mem_packPieces size rest (index + 1) listed with ⟨row, less, _, span⟩ | inside
        · rw [span]
          exact recordSpan_apart less
        · have within := others.within _ inside
          exact Or.inl (Nat.le_trans table.2 (Nat.le_trans behind (Nat.le_trans above (Nat.le_trans ordered within.1))))
    · obtain ⟨piece, listed, rfl⟩ := List.mem_map.mp member
      rcases mem_packPieces size rest (index + 1) listed with ⟨row, _, most, span⟩ | inside
      · rw [span]
        have other_table := recordSpan_within entrySize (show row < count by omega)
        exact Or.inr (Nat.le_trans other_table.2 (Nat.le_trans behind above))
      · exact Or.inl (others.within _ inside).1

/-- The pieces of the i-th block. -/
theorem packPieces_mem (isProtected : Bool) (entrySize : Nat) (placed : List (PackBlock × Nat)) (index row : Nat)
    {p : PackBlock × Nat} (found : placed[row]? = some p) :
    (64 + (index + row) * entrySize, packRecord isProtected p) ∈ packPieces isProtected entrySize index placed ∧
      (p.2, p.1.data) ∈ packPieces isProtected entrySize index placed := by
  induction placed generalizing index row with
  | nil => exact absurd found.symm (Option.some_ne_none _)
  | cons first rest ih =>
    rw [packPieces]
    cases row with
    | zero =>
      obtain rfl := Option.some.inj found
      exact ⟨List.mem_cons_self, List.mem_cons_of_mem _ List.mem_cons_self⟩
    | succ row =>
      obtain ⟨record, payload⟩ := ih (index + 1) row found
      rw [show index + 1 + row = index + (row + 1) by omega] at record
      exact ⟨List.mem_cons_of_mem _ (List.mem_cons_of_mem _ record),
        List.mem_cons_of_mem _ (List.mem_cons_of_mem _ payload)⟩

/-! ## The whole file -/

section File

variable (isProtected isLib : Bool) (base entryOffset : Int) (stack : Int × Int) (blocks : List PackBlock) (debug : List Byte)

/-- The header of the file. -/
def packHead : PackHeader := (packFile isProtected isLib base entryOffset stack blocks debug).1

/-- The blocks of the file and where their payloads are. -/
def packPlaced : List (PackBlock × Nat) := (layOut (64 + blocks.length * entrySizeOf isProtected) blocks).1

/-- The bytes of the file. -/
def packBytes : List Byte :=
  (packFile isProtected isLib base entryOffset stack blocks debug).2.foldl patch
    (List.replicate (packFile isProtected isLib base entryOffset stack blocks debug).1.fileSize 0)

/-- Where the payloads end. -/
def packEnd : Nat := (layOut (64 + blocks.length * entrySizeOf isProtected) blocks).2

/-- Where the debug data is, if there is any. -/
def packDebug : List Interval :=
  if debug = [] then [] else [⟨align4 (packEnd isProtected blocks), align4 (packEnd isProtected blocks) + debug.length⟩]

theorem packFile_pieces : (packFile isProtected isLib base entryOffset stack blocks debug).2 =
    (0, (packHead isProtected isLib base entryOffset stack blocks debug).bytes) ::
      packPieces isProtected (entrySizeOf isProtected) 0 (packPlaced isProtected blocks) ++
        if debug = [] then [] else [(align4 (packEnd isProtected blocks), debug)] := by
  have tail : (if debug = [] then [] else
        [((if debug = [] then 0 else align4 (packEnd isProtected blocks)), debug)] : List (Nat × List Byte)) =
      if debug = [] then [] else [(align4 (packEnd isProtected blocks), debug)] := by
    split
    · rfl
    · rfl
  exact congrArg (fun rest => (0, (packHead isProtected isLib base entryOffset stack blocks debug).bytes) ::
    packPieces isProtected (entrySizeOf isProtected) 0 (packPlaced isProtected blocks) ++ rest) tail

theorem fileSize_eq : (packHead isProtected isLib base entryOffset stack blocks debug).fileSize =
    if debug = [] then packEnd isProtected blocks else align4 (packEnd isProtected blocks) + debug.length := rfl

theorem tableEnd_le : 64 + blocks.length * entrySizeOf isProtected ≤ packEnd isProtected blocks :=
  (layOut_ascending blocks _).le

theorem packEnd_le : packEnd isProtected blocks ≤ (packHead isProtected isLib base entryOffset stack blocks debug).fileSize := by
  rw [fileSize_eq]
  split
  · exact Nat.le_refl _
  · exact Nat.le_trans (align4_spec _).1 (Nat.le_add_right _ _)

theorem length_header (h : PackHeader) : h.bytes.length = 64 := rfl

/-- The parts of the file in the order of the pieces. -/
theorem packFile_spans : (packFile isProtected isLib base entryOffset stack blocks debug).2.map pieceSpan =
    ⟨0, 64⟩ :: (packPieces isProtected (entrySizeOf isProtected) 0 (packPlaced isProtected blocks)).map pieceSpan ++
      packDebug isProtected blocks debug := by
  rw [packFile_pieces, List.map_append, List.map_cons]
  unfold packDebug
  split
  · rfl
  · rfl

theorem packPieces_within {i : Interval}
    (member : i ∈ (packPieces isProtected (entrySizeOf isProtected) 0 (packPlaced isProtected blocks)).map pieceSpan) :
    i.Within ⟨64, packEnd isProtected blocks⟩ := by
  obtain ⟨piece, listed, rfl⟩ := List.mem_map.mp member
  have table := tableEnd_le isProtected blocks
  rcases mem_packPieces rfl _ 0 listed with ⟨row, _, most, span⟩ | payload
  · rw [span]
    have count : (packPlaced isProtected blocks).length = blocks.length := layOut_length blocks _
    have inside := recordSpan_within (entrySizeOf isProtected) (show row < blocks.length by omega)
    exact ⟨inside.1, Nat.le_trans inside.2 table⟩
  · have inside := (layOut_ascending blocks (64 + blocks.length * entrySizeOf isProtected)).within _ payload
    exact ⟨Nat.le_trans (Nat.le_add_right _ _) inside.1, inside.2⟩

theorem packFile_apart : ((packFile isProtected isLib base entryOffset stack blocks debug).2.map pieceSpan).Pairwise Apart := by
  have pieces := packPieces_apart rfl (packPlaced isProtected blocks) 0 blocks.length
    (by rw [Nat.zero_add]; exact Nat.le_of_eq (layOut_length blocks _)) (Nat.le_refl _)
    (layOut_ascending blocks (64 + blocks.length * entrySizeOf isProtected))
  have behind : ∀ i ∈ packDebug isProtected blocks debug, packEnd isProtected blocks ≤ i.start := by
    intro i member
    unfold packDebug at member
    split at member
    · exact absurd member List.not_mem_nil
    · rw [List.mem_singleton.mp member]
      exact (align4_spec _).1
  have table := tableEnd_le isProtected blocks
  rw [packFile_spans, List.cons_append]
  refine List.pairwise_cons.mpr ⟨fun i member => Or.inl ?_, List.pairwise_append.mpr ⟨pieces, ?_, fun i first j second => ?_⟩⟩
  · rcases List.mem_append.mp member with piece | last
    · exact (packPieces_within isProtected blocks piece).1
    · have start := behind i last
      show 64 ≤ i.start
      omega
  · unfold packDebug
    split
    · exact List.Pairwise.nil
    · exact List.pairwise_singleton _ _
  · exact Or.inl (Nat.le_trans (packPieces_within isProtected blocks first).2 (behind j second))

theorem packFile_fits : ∀ p ∈ (packFile isProtected isLib base entryOffset stack blocks debug).2,
    p.1 + p.2.length ≤ (packHead isProtected isLib base entryOffset stack blocks debug).fileSize := by
  intro p member
  have table := tableEnd_le isProtected blocks
  have ends := packEnd_le isProtected isLib base entryOffset stack blocks debug
  rw [packFile_pieces, List.cons_append, List.mem_cons, List.mem_append] at member
  rcases member with rfl | piece | last
  · show 0 + (packHead isProtected isLib base entryOffset stack blocks debug).bytes.length ≤ _
    rw [length_header]
    omega
  · have inside := packPieces_within isProtected blocks (List.mem_map_of_mem piece)
    exact Nat.le_trans inside.2 ends
  · rw [fileSize_eq]
    split at last
    · exact absurd last List.not_mem_nil
    · next some_ =>
        rw [List.mem_singleton.mp last, if_neg some_]

theorem packBytes_length : (packBytes isProtected isLib base entryOffset stack blocks debug).length =
    (packHead isProtected isLib base entryOffset stack blocks debug).fileSize := by
  unfold packBytes
  rw [length_patches]
  · exact List.length_replicate
  · rw [List.length_replicate]
    exact packFile_fits isProtected isLib base entryOffset stack blocks debug

/-- The file holds each piece at its offset. -/
theorem packBytes_getD {piece : Nat × List Byte}
    (written : piece ∈ (packFile isProtected isLib base entryOffset stack blocks debug).2) {place : Nat}
    (inside : place < piece.2.length) :
    (packBytes isProtected isLib base entryOffset stack blocks debug).getD (piece.1 + place) 0 = piece.2.getD place 0 := by
  unfold packBytes
  refine getD_patches _ ?_ (packFile_apart isProtected isLib base entryOffset stack blocks debug) written inside 0
  rw [List.length_replicate]
  exact packFile_fits isProtected isLib base entryOffset stack blocks debug

end File

end Src32.Wax
