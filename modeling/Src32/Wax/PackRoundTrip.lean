import Src32.Wax.PackFields

namespace Src32.Wax

open Interval
open PackHeader (be32_bytes)

/-!
# Files of version 2 are read back

What `pack` accepts and writes both readers of the tools accept, and they report what
was given to it.
-/

/-! ## What `pack` accepts and writes -/

section Accepted

variable {base entryOffset : Int} {blocks : List PackBlock} {debug : List Byte} {kind : String}
  {protection : Option (Int × Int)}

/-- The file of blocks that are accepted. -/
def acceptedBytes (base entryOffset : Int) (blocks : List PackBlock) (debug : List Byte) (kind : String)
    (protection : Option (Int × Int)) : List Byte :=
  packBytes protection.isSome (decide (kind = "wal")) base entryOffset (protection.getD (0, 0)) blocks debug

/-- The rows that the tools read of it. -/
def acceptedRows (blocks : List PackBlock) (protection : Option (Int × Int)) : List (ToolBlock × Interval) :=
  (packPlaced protection.isSome blocks).map (toolRow protection.isSome)

/-- The header of the file. -/
def acceptedHead (base entryOffset : Int) (blocks : List PackBlock) (debug : List Byte) (kind : String)
    (protection : Option (Int × Int)) : PackHeader :=
  packHead protection.isSome (decide (kind = "wal")) base entryOffset (protection.getD (0, 0)) blocks debug

theorem accepted_header (offset : Nat) (room : offset + 4 ≤ 64) :
    be32 (acceptedBytes base entryOffset blocks debug kind protection) offset =
      be32 (acceptedHead base entryOffset blocks debug kind protection).bytes offset := by
  have field := be32_of_getD (packBytes_header protection.isSome (decide (kind = "wal")) base entryOffset
    (protection.getD (0, 0)) blocks debug)
    (show offset + 4 ≤ _ from room)
  rw [Nat.zero_add] at field
  exact field

theorem accepted_half (offset : Nat) (room : offset + 2 ≤ 64) :
    be16 (acceptedBytes base entryOffset blocks debug kind protection) offset =
      be16 (acceptedHead base entryOffset blocks debug kind protection).bytes offset := by
  have field := be16_of_getD (packBytes_header protection.isSome (decide (kind = "wal")) base entryOffset
    (protection.getD (0, 0)) blocks debug)
    (show offset + 2 ≤ _ from room)
  rw [Nat.zero_add] at field
  exact field

/-- The file begins with its header. -/
theorem accepted_take : (acceptedBytes base entryOffset blocks debug kind protection).take 64 =
    (acceptedHead base entryOffset blocks debug kind protection).bytes := by
  have long : 64 ≤ (acceptedBytes base entryOffset blocks debug kind protection).length := by
    unfold acceptedBytes
    rw [packBytes_length]
    have table := tableEnd_le protection.isSome blocks
    have ends := packEnd_le protection.isSome (decide (kind = "wal")) base entryOffset (protection.getD (0, 0)) blocks debug
    omega
  have whole := sliceOf_of_getD (packBytes_header protection.isSome (decide (kind = "wal")) base entryOffset
    (protection.getD (0, 0)) blocks debug)
    (by rw [length_header, Nat.zero_add]; exact long)
  exact whole

theorem accepted_length (accepts : PackAccepts base entryOffset blocks debug kind protection) :
    (acceptedBytes base entryOffset blocks debug kind protection).length =
        (acceptedHead base entryOffset blocks debug kind protection).fileSize ∧
      (acceptedHead base entryOffset blocks debug kind protection).fileSize ≤ 0xFFFFFFFF ∧
      64 + blocks.length * entrySizeOf protection.isSome ≤
        (acceptedHead base entryOffset blocks debug kind protection).fileSize := by
  refine ⟨packBytes_length _ _ _ _ _ _ _, accepts.size, ?_⟩
  exact Nat.le_trans (tableEnd_le _ _) (packEnd_le _ _ _ _ _ _ _)

theorem entrySizeOf_pos (isProtected : Bool) : 12 ≤ entrySizeOf isProtected := by
  cases isProtected with
  | false => decide
  | true => decide

theorem accepted_count (accepts : PackAccepts base entryOffset blocks debug kind protection) :
    0 < blocks.length ∧ (be32 (acceptedBytes base entryOffset blocks debug kind protection) 28).toNat = blocks.length := by
  obtain ⟨-, small, table⟩ := accepted_length accepts
  have size := entrySizeOf_pos protection.isSome
  have count : blocks.length ≤ blocks.length * entrySizeOf protection.isSome := Nat.le_mul_of_pos_right _ (by omega)
  refine ⟨List.length_pos_iff.mpr accepts.some_, ?_⟩
  rw [accepted_header 28 (by decide), (be32_bytes _).2.2.2.2.1]
  exact toNat_ofInt_natCast (show blocks.length ≤ 0xFFFFFFFF by omega)

theorem accepted_entrySize : be32 (acceptedBytes base entryOffset blocks debug kind protection) 32 =
    if protection.isSome then 16 else 12 := by
  rw [accepted_header 32 (by decide), (be32_bytes _).2.2.2.2.2.1]
  show BitVec.ofInt 32 ((entrySizeOf protection.isSome : Nat) : Int) = _
  cases protection.isSome with
  | false => rfl
  | true => rfl

/-- Where the block table ends, as the readers count. -/
theorem accepted_tableEnd (accepts : PackAccepts base entryOffset blocks debug kind protection) :
    (be32 (acceptedBytes base entryOffset blocks debug kind protection) 24).toNat +
        (be32 (acceptedBytes base entryOffset blocks debug kind protection) 28).toNat *
          (be32 (acceptedBytes base entryOffset blocks debug kind protection) 32).toNat =
      64 + blocks.length * entrySizeOf protection.isSome := by
  rw [(accepted_count accepts).2, accepted_entrySize, accepted_header 24 (by decide), (be32_bytes _).2.2.2.1]
  cases protection.isSome with
  | false => rfl
  | true => rfl

theorem accepted_fileSize (accepts : PackAccepts base entryOffset blocks debug kind protection) :
    (be32 (acceptedBytes base entryOffset blocks debug kind protection) 44).toNat =
      (acceptedHead base entryOffset blocks debug kind protection).fileSize := by
  rw [accepted_header 44 (by decide), (be32_bytes _).2.2.2.2.2.2.2.2.1]
  exact toNat_ofInt_natCast (accepted_length accepts).2.1

/-- The kind and the flags of the file. -/
theorem accepted_flags (base entryOffset : Int) (blocks : List PackBlock) (debug : List Byte) (kind : String)
    (protection : Option (Int × Int)) : be16 (acceptedBytes base entryOffset blocks debug kind protection) 6 =
      (if decide (kind = "wal") then typeWal else typeWax) ∧
    be16 (acceptedBytes base entryOffset blocks debug kind protection) 10 &&& ~~~3 = 0 ∧
    decide (be16 (acceptedBytes base entryOffset blocks debug kind protection) 10 &&& flagProtected ≠ 0) = protection.isSome ∧
    (debug ≠ [] ↔ be16 (acceptedBytes base entryOffset blocks debug kind protection) 10 &&& flagDebug ≠ 0) := by
  obtain ⟨-, ftype, -, flags⟩ := PackHeader.be16_bytes (acceptedHead base entryOffset blocks debug kind protection)
  rw [accepted_half 6 (by decide), accepted_half 10 (by decide), ftype, flags]
  have kinds : (acceptedHead base entryOffset blocks debug kind protection).ftype =
      if decide (kind = "wal") then 2 else 1 := rfl
  have bits : (acceptedHead base entryOffset blocks debug kind protection).flags =
      (if debug = [] then 0 else 1) + if protection.isSome then 2 else 0 := rfl
  rw [kinds, bits]
  refine ⟨?_, ?_⟩
  · cases decide (kind = "wal") with
    | false => rfl
    | true => rfl
  · by_cases none : debug = []
    · rw [if_pos none]
      cases protection.isSome with
      | false | true => exact ⟨rfl, rfl, ⟨fun some_ => absurd none some_, fun bit => absurd rfl bit⟩⟩
    · rw [if_neg none]
      cases protection.isSome with
      | false | true => exact ⟨rfl, rfl, ⟨fun _ => by decide, fun _ => none⟩⟩

/-- The readers find the debug data. -/
theorem accepted_debug (accepts : PackAccepts base entryOffset blocks debug kind protection) :
    toolDebug (acceptedBytes base entryOffset blocks debug kind protection)
        (64 + blocks.length * entrySizeOf protection.isSome)
        (acceptedHead base entryOffset blocks debug kind protection).fileSize
        (be16 (acceptedBytes base entryOffset blocks debug kind protection) 10)
        (be32 (acceptedBytes base entryOffset blocks debug kind protection) 36)
        (be32 (acceptedBytes base entryOffset blocks debug kind protection) 40) =
      .ok (debug, packDebug protection.isSome blocks debug) := by
  obtain ⟨length, small, table⟩ := accepted_length accepts
  have flagged := (accepted_flags base entryOffset blocks debug kind protection).2.2.2
  have total : (acceptedHead base entryOffset blocks debug kind protection).fileSize =
      if debug = [] then packEnd protection.isSome blocks else align4 (packEnd protection.isSome blocks) + debug.length := rfl
  have size : (be32 (acceptedBytes base entryOffset blocks debug kind protection) 40).toNat = debug.length := by
    rw [accepted_header 40 (by decide), (be32_bytes _).2.2.2.2.2.2.2.1]
    refine toNat_ofInt_natCast (show debug.length ≤ 0xFFFFFFFF from ?_)
    by_cases none : debug = []
    · rw [none]
      exact Nat.zero_le _
    · rw [if_neg none] at total
      omega
  have zero : be32 (acceptedBytes base entryOffset blocks debug kind protection) 40 = 0 ↔ debug = [] := by
    rw [← List.length_eq_zero_iff, ← size]
    exact ⟨fun same => congrArg BitVec.toNat same, fun same => BitVec.eq_of_toNat_eq same⟩
  have flag : ¬ ¬ (be32 (acceptedBytes base entryOffset blocks debug kind protection) 40 ≠ 0 ↔
      be16 (acceptedBytes base entryOffset blocks debug kind protection) 10 &&& flagDebug ≠ 0) := by
    rw [not_not, ← flagged]
    exact not_congr zero
  have offset : (acceptedHead base entryOffset blocks debug kind protection).debugOffset =
      if debug = [] then 0 else align4 (packEnd protection.isSome blocks) := rfl
  unfold toolDebug
  rw [refuse_bind]
  refine ⟨flag, ?_⟩
  by_cases none : debug = []
  · rw [if_pos (zero.mpr none), refuse_bind, accepted_header 36 (by decide), (be32_bytes _).2.2.2.2.2.2.1, offset,
      if_pos none]
    refine ⟨not_not.mpr rfl, ?_⟩
    unfold packDebug
    rw [if_pos none, none]
  · rw [if_neg none] at total
    have place : (be32 (acceptedBytes base entryOffset blocks debug kind protection) 36).toNat =
        align4 (packEnd protection.isSome blocks) := by
      rw [accepted_header 36 (by decide), (be32_bytes _).2.2.2.2.2.2.1, offset, if_neg none]
      exact toNat_ofInt_natCast (by omega)
    have ends := tableEnd_le protection.isSome blocks
    obtain ⟨above, aligned⟩ := align4_spec (packEnd protection.isSome blocks)
    rw [if_neg (fun absent => none (zero.mp absent)), refuse_bind, refuse_bind, place, size, total]
    refine ⟨?_, Nat.lt_irrefl _, ?_⟩
    · rintro (misaligned | inside)
      · exact misaligned aligned
      · omega
    · have written : (align4 (packEnd protection.isSome blocks), debug) ∈
          (packFile protection.isSome (decide (kind = "wal")) base entryOffset (protection.getD (0, 0)) blocks debug).2 := by
        rw [packFile_pieces, if_neg none]
        exact List.mem_append_right _ (List.mem_singleton.mpr rfl)
      have bytes : sliceOf (acceptedBytes base entryOffset blocks debug kind protection)
          (align4 (packEnd protection.isSome blocks)) (align4 (packEnd protection.isSome blocks) + debug.length) = debug :=
        sliceOf_of_getD (fun place inside => packBytes_getD _ _ _ _ _ _ _ written inside) (by rw [length, total])
      rw [bytes]
      unfold packDebug
      rw [if_neg none]

/-- The parts that the readers compare are apart. -/
theorem accepted_apart (accepts : PackAccepts base entryOffset blocks debug kind protection) :
    inOrder ((⟨64, 64 + blocks.length * entrySizeOf protection.isSome⟩ :: (acceptedRows blocks protection).map Prod.snd ++
      packDebug protection.isSome blocks debug).insertionSort Before) = true := by
  have ascending := layOut_ascending blocks (64 + blocks.length * entrySizeOf protection.isSome)
  have spans : (acceptedRows blocks protection).map Prod.snd =
      (layOut (64 + blocks.length * entrySizeOf protection.isSome) blocks).1.map payloadSpan := by
    unfold acceptedRows
    rw [List.map_map]
    rfl
  have size := entrySizeOf_pos protection.isSome
  have count := (accepted_count accepts).1
  have rows : blocks.length ≤ blocks.length * entrySizeOf protection.isSome := Nat.le_mul_of_pos_right _ (by omega)
  have filled : ∀ blocks : List PackBlock, ∀ before, Packed before blocks -> ∀ b ∈ blocks, b.data ≠ [] := by
    intro blocks
    induction blocks with
    | nil => exact fun before _ b member => absurd member List.not_mem_nil
    | cons first rest ih =>
      rintro before ⟨-, some_, -, -, others⟩ b member
      rcases List.mem_cons.mp member with rfl | later
      · exact some_
      · exact ih _ others b later
  have last : ∀ i ∈ packDebug protection.isSome blocks debug, i.start < i.stop ∧ packEnd protection.isSome blocks ≤ i.start := by
    intro i member
    unfold packDebug at member
    split at member
    · exact absurd member List.not_mem_nil
    · next some_ =>
        rw [List.mem_singleton.mp member]
        exact ⟨Nat.lt_add_of_pos_right (List.length_pos_iff.mpr some_), (align4_spec _).1⟩
  rw [inOrder_insertionSort, spans, List.cons_append]
  · refine List.pairwise_cons.mpr ⟨fun i member => Or.inl ?_, List.pairwise_append.mpr ⟨ascending.pairwise, ?_, ?_⟩⟩
    · rcases List.mem_append.mp member with payload | tail
      · exact (ascending.within _ payload).1
      · exact Nat.le_trans (tableEnd_le _ _) (last i tail).2
    · unfold packDebug
      split
      · exact List.Pairwise.nil
      · exact List.pairwise_singleton _ _
    · intro i first j second
      exact Or.inl (Nat.le_trans (ascending.within _ first).2 (last j second).2)
  · intro i member
    rw [List.cons_append, List.mem_cons, List.mem_append] at member
    rcases member with rfl | payload | tail
    · show 64 < 64 + blocks.length * entrySizeOf protection.isSome
      omega
    · rw [spans] at payload
      obtain ⟨placed, listed, rfl⟩ := List.mem_map.mp payload
      have block : placed.1 ∈ blocks := by
        have member := List.mem_map_of_mem (f := Prod.fst) listed
        rwa [layOut_blocks] at member
      exact Nat.lt_add_of_pos_right (List.length_pos_iff.mpr (filled blocks none accepts.packed _ block))
    · exact (last i tail).1

/-- A block as the readers report it. -/
def toolBlock (isProtected : Bool) (b : PackBlock) : ToolBlock :=
  ⟨BitVec.ofInt 32 b.address, b.data, if isProtected then BitVec.ofInt 32 b.perm else 0⟩

theorem accepted_blocks (blocks : List PackBlock) (protection : Option (Int × Int)) :
    (acceptedRows blocks protection).map Prod.fst = blocks.map (toolBlock protection.isSome) := by
  unfold acceptedRows
  rw [List.map_map]
  have same := congrArg (List.map (toolBlock protection.isSome))
    (layOut_blocks blocks (64 + blocks.length * entrySizeOf protection.isSome))
  rw [List.map_map] at same
  exact same

/-- Base and entry are read as they were given. -/
theorem accepted_base (accepts : PackAccepts base entryOffset blocks debug kind protection) :
    ((be32 (acceptedBytes base entryOffset blocks debug kind protection) 16).toNat : Int) = base ∧
      ((be32 (acceptedBytes base entryOffset blocks debug kind protection) 20).toNat : Int) = entryOffset := by
  rw [accepted_header 16 (by decide), accepted_header 20 (by decide), (be32_bytes _).2.1,
    (be32_bytes _).2.2.1]
  exact ⟨toNat_ofInt accepts.baseFits, toNat_ofInt accepts.offsetFits⟩

/-- So is the stack of a protected image. -/
theorem accepted_stack : be32 (acceptedBytes base entryOffset blocks debug kind protection) 48 =
      BitVec.ofInt 32 (protection.getD (0, 0)).1 ∧
    be32 (acceptedBytes base entryOffset blocks debug kind protection) 52 = BitVec.ofInt 32 (protection.getD (0, 0)).2 := by
  rw [accepted_header 48 (by decide), accepted_header 52 (by decide)]
  exact (be32_bytes (acceptedHead base entryOffset blocks debug kind protection)).2.2.2.2.2.2.2.2.2

theorem Packed.fits {previousEnd : Option Int} {blocks : List PackBlock} (packed : Packed previousEnd blocks) :
    ∀ b ∈ blocks, FitsU32 b.address := by
  induction blocks generalizing previousEnd with
  | nil => exact fun b member => absurd member List.not_mem_nil
  | cons first rest ih =>
    intro b member
    rcases List.mem_cons.mp member with rfl | later
    · exact packed.1
    · exact ih packed.2.2.2.2 b later

theorem Packed.ascend {previousEnd : Option Int} {blocks : List PackBlock} (packed : Packed previousEnd blocks) :
    (∀ stop ∈ previousEnd, ∀ b ∈ blocks, stop ≤ b.address) ∧ blocks.Pairwise fun b c => b.stop ≤ c.address := by
  induction blocks generalizing previousEnd with
  | nil => exact ⟨fun stop _ b member => absurd member List.not_mem_nil, List.Pairwise.nil⟩
  | cons first rest ih =>
    obtain ⟨-, -, -, order, others⟩ := packed
    obtain ⟨behind, apart⟩ := ih others
    have next : ∀ b ∈ rest, first.stop ≤ b.address := behind first.stop rfl
    refine ⟨fun stop member b listed => ?_, List.pairwise_cons.mpr ⟨next, apart⟩⟩
    rcases List.mem_cons.mp listed with rfl | later
    · exact order stop member
    · have start := order stop member
      have long : first.address ≤ first.stop := Int.le_add_of_nonneg_right (Int.natCast_nonneg _)
      exact Int.le_trans start (Int.le_trans long (next b later))

/-- What is left of the header is zero. -/
theorem accepted_reserved : ∀ b ∈ sliceOf (acceptedBytes base entryOffset blocks debug kind protection)
    (if protection.isSome then 56 else 48) 64, b = 0 := by
  have tail : ∀ offset, sliceOf (acceptedBytes base entryOffset blocks debug kind protection) offset 64 =
      (acceptedHead base entryOffset blocks debug kind protection).bytes.drop offset := by
    intro offset
    rw [← accepted_take, List.drop_take]
    rfl
  have zeros : (acceptedHead base entryOffset blocks debug kind protection).bytes.drop (if protection.isSome then 56 else 48) =
      List.replicate (if protection.isSome then 8 else 16) 0 := by
    cases protection with
    | none =>
      have stack := PackHeader.drop_bytes_stack (acceptedHead base entryOffset blocks debug kind none)
      rw [show (acceptedHead base entryOffset blocks debug kind none).stack = (0, 0) from rfl] at stack
      exact stack.trans (by decide)
    | some stack => exact PackHeader.drop_bytes _
  intro b member
  rw [tail, zeros] at member
  exact List.eq_of_mem_replicate member

/-- What `pack` accepts has the header that the readers ask for. -/
theorem accepted_readable (accepts : PackAccepts base entryOffset blocks debug kind protection) :
    Readable (acceptedBytes base entryOffset blocks debug kind protection) protection.isSome (decide (kind = "wal"))
      (blocks.map (toolBlock protection.isSome)) ((acceptedRows blocks protection).map Prod.snd) debug
      (packDebug protection.isSome blocks debug) := by
  obtain ⟨length, small, table⟩ := accepted_length accepts
  obtain ⟨some_, count⟩ := accepted_count accepts
  obtain ⟨ftype, flags, flagged, -⟩ := accepted_flags base entryOffset blocks debug kind protection
  obtain ⟨base_, offset⟩ := accepted_base accepts
  have tableEnd := accepted_tableEnd accepts
  have fileSize := accepted_fileSize accepts
  have place : be32 (acceptedBytes base entryOffset blocks debug kind protection) 24 = 64 := by
    rw [accepted_header 24 (by decide), (be32_bytes _).2.2.2.1]
  have start : (be32 (acceptedBytes base entryOffset blocks debug kind protection) 24).toNat = 64 := by
    rw [place]
    rfl
  have entry : (((be32 (acceptedBytes base entryOffset blocks debug kind protection) 16).toNat +
      (be32 (acceptedBytes base entryOffset blocks debug kind protection) 20).toNat : Nat) : Int) = base + entryOffset := by
    rw [Int.natCast_add, base_, offset]
  have kinds : decide (kind = "wal") = false -> kind = "wax" := by
    intro other
    exact accepts.known.resolve_right (of_decide_eq_false other)
  have fits := accepts.packed.fits
  refine ⟨?_, ?_, ?_, ftype, ?_, ?_, flags, flagged, ?_, ?_, ?_, ?_, accepted_entrySize, ?_, place, ?_, ?_, ?_, ?_, ?_, ?_, ?_⟩
  · omega
  · have head : ((acceptedBytes base entryOffset blocks debug kind protection).take 64).take 4 =
        (acceptedHead base entryOffset blocks debug kind protection).bytes.take 4 := congrArg (List.take 4) accepted_take
    rw [List.take_take] at head
    exact head
  · rw [accepted_half 4 (by decide)]
    exact (PackHeader.be16_bytes _).1
  · rw [accepted_half 8 (by decide)]
    exact (PackHeader.be16_bytes _).2.2.1
  · rw [accepted_header 12 (by decide)]
    exact (be32_bytes _).1
  · intro guarded
    rw [accepts.onlyWax guarded]
    decide
  · exact accepted_reserved
  · rw [fileSize, length]
  · intro zero
    rw [zero] at count
    exact absurd count.symm (Nat.ne_of_gt some_)
  · intro guarded
    obtain ⟨stack, given⟩ := Option.isSome_iff_exists.mp guarded
    have few := (accepts.guarded stack given).few
    rw [BitVec.le_def, count]
    exact few
  · rw [tableEnd, fileSize]
    exact table
  · rw [tableEnd, fileSize]
    exact accepted_debug accepts
  · rw [tableEnd, start]
    exact accepted_apart accepts
  · intro wal
    obtain ⟨zero, zero'⟩ := accepts.library (of_decide_eq_true wal)
    exact ⟨eq_zero_of_toNat (base_.trans zero), eq_zero_of_toNat (offset.trans zero')⟩
  · intro wax b member
    rw [List.head?_map, Option.mem_map] at member
    obtain ⟨first, listed, rfl⟩ := member
    rw [accepted_header 16 (by decide), (be32_bytes _).2.1]
    rw [show (acceptedHead base entryOffset blocks debug kind protection).base = base from rfl,
      accepts.lowest (kinds wax) first listed]
    rfl
  · have whole := accepts.entryWhole
    omega
  · intro wax
    obtain ⟨b, member, low, high⟩ := accepts.entry (kinds wax)
    refine ⟨toolBlock protection.isSome b, List.mem_map_of_mem member, ?_, ?_⟩
    · rw [← toNat_ofInt (fits b member), ← entry] at low
      exact Int.ofNat_le.mp low
    · rw [← stop_ofInt (fits b member) (if protection.isSome then BitVec.ofInt 32 b.perm else 0), ← entry] at high
      exact Int.ofNat_lt.mp high

/-- The protection that `pack` validated is one that both readers validate. -/
theorem accepted_guarded {stack : Int × Int} {entry : Nat} (packed : Packed none blocks)
    (guarded : PackGuarded stack.1 stack.2 blocks entry) :
    (∀ b ∈ blocks.map (toolBlock true), b.perm ≠ 0 ∧ b.perm &&& ~~~7 = 0) ∧
      Guarded (BitVec.ofInt 32 stack.1) (BitVec.ofInt 32 stack.2) (blocks.map (toolBlock true)) entry := by
  have fits := packed.fits
  have top := toNat_ofInt guarded.fits.1
  have size := toNat_ofInt guarded.fits.2
  obtain ⟨nonzero, multiple, aligned⟩ := guarded.shape
  obtain ⟨low, inside⟩ := guarded.place
  have address : ∀ b ∈ blocks, ((toolBlock true b).loadAddress.toNat : Int) = b.address :=
    fun b member => toNat_ofInt (fits b member)
  have stop : ∀ b ∈ blocks, ((toolBlock true b).stop : Int) = b.stop := fun b member => stop_ofInt (fits b member) _
  refine ⟨?_, ⟨⟨?_, by omega, by omega⟩, ⟨?_, ?_⟩, ?_, ?_, ?_⟩⟩
  · intro b member
    obtain ⟨given, listed, rfl⟩ := List.mem_map.mp member
    obtain ⟨some_, mask, -⟩ := perm_ofInt (guarded.perms given listed)
    exact ⟨some_, mask⟩
  · intro zero
    rw [zero] at size
    exact nonzero size.symm
  · rw [BitVec.le_def]
    omega
  · rw [BitVec.le_def]
    omega
  · intro b member
    obtain ⟨given, listed, rfl⟩ := List.mem_map.mp member
    have clear := guarded.clear given listed
    rw [← address given listed, ← stop given listed] at clear
    omega
  · intro b member
    obtain ⟨given, listed, rfl⟩ := List.mem_map.mp member
    have below := guarded.below given listed
    rw [← stop given listed] at below
    exact Int.ofNat_le.mp below
  · obtain ⟨given, listed, start, behind, execute⟩ := guarded.entry
    rw [← address given listed] at start
    rw [← stop given listed] at behind
    exact ⟨toolBlock true given, List.mem_map_of_mem listed, Int.ofNat_le.mp start, Int.ofNat_lt.mp behind,
      (perm_ofInt (guarded.perms given listed)).2.2.2 execute⟩

/-- Both readers accept the file and report the same image. -/
theorem accepted_parse (accepts : PackAccepts base entryOffset blocks debug kind protection) :
    pyParse (acceptedBytes base entryOffset blocks debug kind protection) =
        .ok (readImage (acceptedBytes base entryOffset blocks debug kind protection) protection.isSome (decide (kind = "wal"))
          (blocks.map (toolBlock protection.isSome)) debug) ∧
      rustParse (acceptedBytes base entryOffset blocks debug kind protection) =
        .ok (readImage (acceptedBytes base entryOffset blocks debug kind protection) protection.isSome (decide (kind = "wal"))
          (blocks.map (toolBlock protection.isSome)) debug) := by
  obtain ⟨length, small, -⟩ := accepted_length accepts
  obtain ⟨base_, offset⟩ := accepted_base accepts
  have readable := accepted_readable accepts
  have fits := accepts.packed.fits
  have entry : (((be32 (acceptedBytes base entryOffset blocks debug kind protection) 16).toNat +
      (be32 (acceptedBytes base entryOffset blocks debug kind protection) 20).toNat : Nat) : Int) = base + entryOffset := by
    rw [Int.natCast_add, base_, offset]
  have rows : ∀ permInLoop, toolBlocks permInLoop (acceptedBytes base entryOffset blocks debug kind protection)
      (readTable (acceptedBytes base entryOffset blocks debug kind protection) protection.isSome) none
      (List.range (be32 (acceptedBytes base entryOffset blocks debug kind protection) 28).toNat) =
        .ok (blocks.map (toolBlock protection.isSome), (acceptedRows blocks protection).map Prod.snd) := by
    intro permInLoop
    have count : (be32 (acceptedBytes base entryOffset blocks debug kind protection) 28).toNat =
        (acceptedRows blocks protection).length := by
      rw [(accepted_count accepts).2]
      unfold acceptedRows packPlaced
      rw [List.length_map, layOut_length]
    rw [count, ← accepted_blocks, List.range_eq_range']
    refine toolBlocks_ok rfl readable.tablePlace readable.entrySize (acceptedRows blocks protection) 0 ?_ ?_
    · intro place row found
      unfold acceptedRows at found
      rw [List.getElem?_map, Option.map_eq_some_iff] at found
      obtain ⟨placed, listed, rfl⟩ := found
      rw [Nat.zero_add]
      exact readRow small listed
    · have packed : Packed none ((packPlaced protection.isSome blocks).map Prod.fst) := by
        unfold packPlaced
        rw [layOut_blocks]
        exact accepts.packed
      have nothing : ∀ last ∈ (none : Option Nat), ((last : Nat) : Int) ∈ (none : Option Int) :=
        fun last member => absurd member (Option.not_mem_none last)
      refine readRows _ nothing packed ?_ (layOut_aligned blocks _) ?_
      · intro guarded placed member
        obtain ⟨stack, given⟩ := Option.isSome_iff_exists.mp guarded
        refine (accepts.guarded stack given).perms placed.1 ?_
        have listed := List.mem_map_of_mem (f := Prod.fst) member
        unfold packPlaced at listed
        rwa [layOut_blocks] at listed
      · intro placed member
        have inside := payload_le (decide (kind = "wal")) base entryOffset (protection.getD (0, 0)) debug member
        rw [← accepted_tableEnd accepts] at inside
        exact ⟨inside.1, Nat.le_trans inside.2 (Nat.le_of_eq (accepted_fileSize accepts).symm)⟩
  have valid : protection.isSome = true -> (∀ b ∈ blocks.map (toolBlock protection.isSome), b.perm ≠ 0 ∧ b.perm &&& ~~~7 = 0) ∧
      Guarded (be32 (acceptedBytes base entryOffset blocks debug kind protection) 48)
        (be32 (acceptedBytes base entryOffset blocks debug kind protection) 52) (blocks.map (toolBlock protection.isSome))
        ((be32 (acceptedBytes base entryOffset blocks debug kind protection) 16).toNat +
          (be32 (acceptedBytes base entryOffset blocks debug kind protection) 20).toNat) := by
    intro guarded
    obtain ⟨stack, rfl⟩ := Option.isSome_iff_exists.mp guarded
    rw [accepted_stack.1, accepted_stack.2]
    have checked := accepts.guarded stack rfl
    rw [← entry] at checked
    exact accepted_guarded accepts.packed checked
  have apart : (blocks.map (toolBlock protection.isSome)).Pairwise fun b c => b.stop ≤ c.loadAddress.toNat := by
    rw [List.pairwise_map]
    refine accepts.packed.ascend.2.imp_of_mem fun {b c} first second order => ?_
    rw [← stop_ofInt (fits b first) (if protection.isSome then BitVec.ofInt 32 b.perm else 0), ← toNat_ofInt (fits c second)]
      at order
    exact Int.ofNat_le.mp order
  exact ⟨toolParse_ok readable (rows false) fun guarded => pyValidate_iff.mpr (valid guarded),
    toolParse_ok readable (rows true) fun guarded => (rustValidate_iff apart).mpr (valid guarded).2⟩

end Accepted

/-! ## The round trip -/

/-- A reported block and the one that was packed. -/
structure Reports (isProtected : Bool) (reported : ToolBlock) (b : PackBlock) : Prop where
  address : (reported.loadAddress.toNat : Int) = b.address
  data : reported.data = b.data
  perm : isProtected = true -> (reported.perm.toNat : Int) = b.perm

/-- The image has what was given to `pack`. -/
theorem accepted_reports {base entryOffset : Int} {blocks : List PackBlock} {debug : List Byte} {kind : String}
    {protection : Option (Int × Int)} (accepts : PackAccepts base entryOffset blocks debug kind protection) {image : ToolImage}
    (read : readImage (acceptedBytes base entryOffset blocks debug kind protection) protection.isSome (decide (kind = "wal"))
      (blocks.map (toolBlock protection.isSome)) debug = image) :
    (if image.isLib then "wal" else "wax") = kind ∧ (image.base.toNat : Int) = base ∧
      (image.entry : Int) = base + entryOffset ∧ image.debug = debug ∧
      image.protection.map (fun stack => ((stack.1.toNat : Int), (stack.2.toNat : Int))) = protection ∧
      List.Forall₂ (Reports protection.isSome) image.blocks blocks := by
  obtain ⟨base_, offset⟩ := accepted_base accepts
  subst read
  refine ⟨?_, base_, ?_, rfl, ?_, ?_⟩
  · rcases accepts.known with rfl | rfl
    · rfl
    · rfl
  · show (((be32 (acceptedBytes base entryOffset blocks debug kind protection) 16).toNat +
      (be32 (acceptedBytes base entryOffset blocks debug kind protection) 20).toNat : Nat) : Int) = base + entryOffset
    rw [Int.natCast_add, base_, offset]
  · cases protection with
    | none => rfl
    | some stack =>
      have guarded := accepts.guarded stack rfl
      show some (((be32 (acceptedBytes base entryOffset blocks debug kind (some stack)) 48).toNat : Int),
        ((be32 (acceptedBytes base entryOffset blocks debug kind (some stack)) 52).toNat : Int)) = some stack
      rw [accepted_stack.1, accepted_stack.2]
      exact congrArg some (Prod.ext (toNat_ofInt guarded.fits.1) (toNat_ofInt guarded.fits.2))
  · show List.Forall₂ (Reports protection.isSome) (blocks.map (toolBlock protection.isSome)) blocks
    rw [List.forall₂_map_left_iff, List.forall₂_same]
    intro b member
    refine ⟨toNat_ofInt (accepts.packed.fits b member), rfl, fun guarded => ?_⟩
    obtain ⟨stack, given⟩ := Option.isSome_iff_exists.mp guarded
    show ((if protection.isSome then BitVec.ofInt 32 b.perm else 0 : Word).toNat : Int) = b.perm
    rw [if_pos guarded]
    exact (perm_ofInt ((accepts.guarded stack given).perms b member)).2.2.1

/-- What `pack` writes both readers parse to the same image: base, entry, debug data and
protection are those that were given, and the blocks are the given ones by address. -/
theorem parse_pack {base entryOffset : Int} {given : List GivenBlock} {debug : List Byte} {kind : String}
    {protection : Option (Int × Int)} {d : List Byte}
    (done : pack base entryOffset given debug kind protection = .ok d) :
    ∃ image blocks, pyParse d = .ok image ∧ rustParse d = .ok image ∧
      (if image.isLib then "wal" else "wax") = kind ∧ (image.base.toNat : Int) = base ∧
      (image.entry : Int) = base + entryOffset ∧ image.debug = debug ∧
      image.protection.map (fun stack => ((stack.1.toNat : Int), (stack.2.toNat : Int))) = protection ∧
      blocks.Perm (given.map GivenBlock.full) ∧ blocks.Pairwise (fun b c => b.stop ≤ c.address) ∧
      List.Forall₂ (Reports protection.isSome) image.blocks blocks := by
  obtain ⟨accepts, rfl⟩ := pack_ok done
  obtain ⟨py, rust⟩ := accepted_parse accepts
  obtain ⟨kinds, base_, entry, data, stack, blocks⟩ := accepted_reports accepts rfl
  exact ⟨_, _, py, rust, kinds, base_, entry, data, stack, List.perm_insertionSort _ _, accepts.packed.ascend.2, blocks⟩

/-- A protected program of two blocks, given in the other order, with debug data. -/
theorem parse_pack_protected : ∃ d image, pack 0x1000 4 [⟨0x2000, [1, 2, 3], some 3⟩, ⟨0x1000, [0, 0, 0, 0, 9], some 5⟩] [7] "wax"
    (some (0x10000, 0x1000)) = .ok d ∧ pyParse d = .ok image ∧ rustParse d = .ok image ∧ (image.entry : Int) = 0x1000 + 4 := by
  generalize attempt : pack 0x1000 4 [⟨0x2000, [1, 2, 3], some 3⟩, ⟨0x1000, [0, 0, 0, 0, 9], some 5⟩] [7] "wax"
    (some (0x10000, 0x1000)) = result
  have packed : (pack 0x1000 4 [⟨0x2000, [1, 2, 3], some 3⟩, ⟨0x1000, [0, 0, 0, 0, 9], some 5⟩] [7] "wax"
    (some (0x10000, 0x1000))).toOption.isSome = true := by decide +kernel
  rw [attempt] at packed
  cases result with
  | error text => exact Bool.noConfusion packed
  | ok d =>
    obtain ⟨image, _, py, rust, -, -, entry, -⟩ := parse_pack attempt
    exact ⟨d, image, rfl, py, rust, entry⟩

/-- What `pack` writes for a protected program the kernel reads: base, entry and stack are
those that were given, the blocks are the given ones by address, and the parts of the
file are apart. -/
theorem kernel_reads_pack {base entryOffset : Int} {given : List GivenBlock} {debug : List Byte} {stack : Int × Int}
    {d : List Byte} (done : pack base entryOffset given debug "wax" (some stack) = .ok d) :
    ∃ im blocks, KernelReads d im ∧ (im.base.toNat : Int) = base ∧
      ((im.base + im.entryOffset).toNat : Int) = base + entryOffset ∧
      ((im.stackTop.toNat : Int), (im.stackSize.toNat : Int)) = stack ∧
      blocks.Perm (given.map GivenBlock.full) ∧ blocks.Pairwise (fun b c => b.stop ≤ c.address) ∧
      List.Forall₂ (Reports true) (im.blocks.map (Block.tool d)) blocks ∧ im.parts.Pairwise Apart := by
  obtain ⟨accepts, rfl⟩ := pack_ok done
  obtain ⟨py, -⟩ := accepted_parse accepts
  obtain ⟨-, base_, entry, -, stack_, blocks⟩ := accepted_reports accepts rfl
  obtain ⟨tool, image⟩ := pyParse_iff.mp ⟨py, rfl⟩
  rw [image] at base_ entry stack_ blocks
  obtain ⟨im, reads⟩ := kernelReads_iff.mpr tool.kernel.1
  have same := tool.same reads
  rw [same.base] at base_
  rw [same.entry] at entry
  rw [same.stack] at stack_
  rw [same.blocks] at blocks
  exact ⟨im, _, reads, base_, entry, Option.some.inj stack_, List.perm_insertionSort _ _, accepts.packed.ascend.2, blocks,
    tool.apart reads⟩

theorem kernel_reads_pack_small : ∃ d im, KernelReads d im ∧ (im.base.toNat : Int) = 0x1000 := by
  have packed : (pack 0x1000 0 [⟨0x1000, [0, 0, 0, 0], some 5⟩] [] "wax" (some (0x10000, 0x1000))).toOption.isSome = true := by
    decide +kernel
  cases done : pack 0x1000 0 [⟨0x1000, [0, 0, 0, 0], some 5⟩] [] "wax" (some (0x10000, 0x1000)) with
  | error text =>
    rw [done] at packed
    exact Bool.noConfusion packed
  | ok d =>
    obtain ⟨im, _, reads, base, -⟩ := kernel_reads_pack done
    exact ⟨d, im, reads, base⟩

end Src32.Wax
