import Mathlib.Tactic.IntervalCases
import Src32.Wax.PackLayout

namespace Src32.Wax

open Interval
open BitVec (ofInt)

/-!
# The fields of a packed file

What the readers find in the header, the block table and the payloads that `pack`
wrote.
-/

/-! ## Fields -/

variable {bytes d : List Byte} {start : Nat}

theorem be32_of_getD {offset : Nat}
    (same : ∀ place, place < bytes.length -> d.getD (start + place) 0 = bytes.getD place 0)
    (room : offset + 4 ≤ bytes.length) : be32 d (start + offset) = be32 bytes offset := by
  unfold be32
  rw [Nat.add_assoc, Nat.add_assoc, Nat.add_assoc, same offset (by omega), same (offset + 1) (by omega),
    same (offset + 2) (by omega), same (offset + 3) (by omega)]

theorem be16_of_getD {offset : Nat}
    (same : ∀ place, place < bytes.length -> d.getD (start + place) 0 = bytes.getD place 0)
    (room : offset + 2 ≤ bytes.length) : be16 d (start + offset) = be16 bytes offset := by
  unfold be16
  rw [Nat.add_assoc, same offset (by omega), same (offset + 1) (by omega)]

theorem sliceOf_of_getD (same : ∀ place, place < bytes.length -> d.getD (start + place) 0 = bytes.getD place 0)
    (long : start + bytes.length ≤ d.length) : sliceOf d start (start + bytes.length) = bytes := by
  have size : (sliceOf d start (start + bytes.length)).length = bytes.length := by
    rw [length_sliceOf start long, Nat.add_sub_cancel_left]
  apply List.ext_getElem?
  intro place
  by_cases inside : place < bytes.length
  · have here := same place inside
    rw [List.getD_eq_getElem?_getD, List.getD_eq_getElem?_getD] at here
    have left : (sliceOf d start (start + bytes.length))[place]? = d[start + place]? := by
      unfold sliceOf
      rw [Nat.add_sub_cancel_left, List.getElem?_take_of_lt inside, List.getElem?_drop]
    rw [left]
    rw [List.getElem?_eq_getElem (show start + place < d.length by omega), List.getElem?_eq_getElem inside] at here ⊢
    exact congrArg some here
  · rw [List.getElem?_eq_none (by omega), List.getElem?_eq_none (by omega)]

theorem toNat_ofInt_natCast {n : Nat} (small : n ≤ 0xFFFFFFFF) : (ofInt 32 n).toNat = n := by
  rw [BitVec.ofInt_natCast, BitVec.toNat_ofNat]
  exact Nat.mod_eq_of_lt (Nat.lt_succ_of_le small)

/-- Numbers that fit 32 bits are their words. -/
theorem toNat_ofInt {n : Int} (fits : FitsU32 n) : ((ofInt 32 n).toNat : Int) = n := by
  obtain ⟨value, rfl⟩ := Int.eq_ofNat_of_zero_le fits.1
  have small : value ≤ 0xFFFFFFFF := by
    have top := fits.2
    omega
  rw [toNat_ofInt_natCast small]

theorem eq_zero_of_toNat {w : Word} (zero : (w.toNat : Int) = 0) : w = 0 :=
  BitVec.eq_of_toNat_eq (Int.natCast_eq_zero.mp zero)

/-! ## The header -/

namespace PackHeader

variable (h : PackHeader)

theorem be32_bytes : be32 h.bytes 12 = 64 ∧ be32 h.bytes 16 = ofInt 32 h.base ∧
    be32 h.bytes 20 = ofInt 32 h.entryOffset ∧ be32 h.bytes 24 = 64 ∧
    be32 h.bytes 28 = ofInt 32 h.blockCount ∧ be32 h.bytes 32 = ofInt 32 h.entrySize ∧
    be32 h.bytes 36 = ofInt 32 h.debugOffset ∧ be32 h.bytes 40 = ofInt 32 h.debugSize ∧
    be32 h.bytes 44 = ofInt 32 h.fileSize ∧ be32 h.bytes 48 = ofInt 32 h.stack.1 ∧
    be32 h.bytes 52 = ofInt 32 h.stack.2 := by
  refine ⟨?_, ?_, ?_, ?_, ?_, ?_, ?_, ?_, ?_, ?_, ?_⟩
  · exact Word.ofBytes_bytes (ofInt 32 64)
  · exact Word.ofBytes_bytes (ofInt 32 h.base)
  · exact Word.ofBytes_bytes (ofInt 32 h.entryOffset)
  · exact Word.ofBytes_bytes (ofInt 32 64)
  · exact Word.ofBytes_bytes (ofInt 32 h.blockCount)
  · exact Word.ofBytes_bytes (ofInt 32 h.entrySize)
  · exact Word.ofBytes_bytes (ofInt 32 h.debugOffset)
  · exact Word.ofBytes_bytes (ofInt 32 h.debugSize)
  · exact Word.ofBytes_bytes (ofInt 32 h.fileSize)
  · exact Word.ofBytes_bytes (ofInt 32 h.stack.1)
  · exact Word.ofBytes_bytes (ofInt 32 h.stack.2)

theorem be16_bytes : be16 h.bytes 4 = 2 ∧
    be16 h.bytes 6 = (BitVec.ofNat 8 (h.ftype / 256)).zeroExtend 32 <<< 8 ||| (BitVec.ofNat 8 h.ftype).zeroExtend 32 ∧
    be16 h.bytes 8 = 1 ∧
    be16 h.bytes 10 = (BitVec.ofNat 8 (h.flags / 256)).zeroExtend 32 <<< 8 ||| (BitVec.ofNat 8 h.flags).zeroExtend 32 := by
  refine ⟨?_, rfl, ?_, rfl⟩
  · show (BitVec.ofNat 8 (2 / 256)).zeroExtend 32 <<< 8 ||| (BitVec.ofNat 8 2).zeroExtend 32 = _
    decide
  · show (BitVec.ofNat 8 (1 / 256)).zeroExtend 32 <<< 8 ||| (BitVec.ofNat 8 1).zeroExtend 32 = _
    decide

theorem drop_bytes : h.bytes.drop 56 = List.replicate 8 0 := rfl

theorem drop_bytes_stack : h.bytes.drop 48 = u32Bytes h.stack.1 ++ (u32Bytes h.stack.2 ++ List.replicate 8 0) := rfl

end PackHeader

/-! ## The table -/

/-- The row of a block that the tools read. -/
def toolRow (isProtected : Bool) (placed : PackBlock × Nat) : ToolBlock × Interval :=
  (⟨ofInt 32 placed.1.address, placed.1.data, if isProtected then ofInt 32 placed.1.perm else 0⟩,
    payloadSpan placed)

section File

variable {isProtected isLib : Bool} {base entryOffset : Int} {stack : Int × Int} {blocks : List PackBlock} {debug : List Byte}

theorem packBytes_header (isProtected isLib : Bool) (base entryOffset : Int) (stack : Int × Int) (blocks : List PackBlock)
    (debug : List Byte) : ∀ place, place < (packHead isProtected isLib base entryOffset stack blocks debug).bytes.length ->
    (packBytes isProtected isLib base entryOffset stack blocks debug).getD (0 + place) 0 =
      (packHead isProtected isLib base entryOffset stack blocks debug).bytes.getD place 0 := by
  have written : (0, (packHead isProtected isLib base entryOffset stack blocks debug).bytes) ∈
      (packFile isProtected isLib base entryOffset stack blocks debug).2 := by
    rw [packFile_pieces]
    exact List.mem_append_left _ List.mem_cons_self
  exact fun place inside => packBytes_getD isProtected isLib base entryOffset stack blocks debug written inside

/-- A payload fits the file. -/
theorem payload_le (isLib : Bool) (base entryOffset : Int) (stack : Int × Int) (debug : List Byte)
    {placed : PackBlock × Nat} (member : placed ∈ packPlaced isProtected blocks) :
    64 + blocks.length * entrySizeOf isProtected ≤ placed.2 ∧
      placed.2 + placed.1.data.length ≤ (packHead isProtected isLib base entryOffset stack blocks debug).fileSize := by
  have inside := (layOut_ascending blocks (64 + blocks.length * entrySizeOf isProtected)).within _ (List.mem_map_of_mem member)
  exact ⟨inside.1, Nat.le_trans inside.2 (packEnd_le isProtected isLib base entryOffset stack blocks debug)⟩

/-- The entry of a block in the table and its payload are as they were written. -/
theorem readRow (small : (packHead isProtected isLib base entryOffset stack blocks debug).fileSize ≤ 0xFFFFFFFF)
    {index : Nat} {placed : PackBlock × Nat} (found : (packPlaced isProtected blocks)[index]? = some placed) :
    ReadRow (packBytes isProtected isLib base entryOffset stack blocks debug) isProtected index (toolRow isProtected placed) := by
  obtain ⟨record, payload⟩ := packPieces_mem isProtected (entrySizeOf isProtected)
    (packPlaced isProtected blocks) 0 index found
  rw [Nat.zero_add] at record
  have written : ∀ piece ∈ packPieces isProtected (entrySizeOf isProtected) 0 (packPlaced isProtected blocks),
      piece ∈ (packFile isProtected isLib base entryOffset stack blocks debug).2 := by
    intro piece member
    rw [packFile_pieces]
    exact List.mem_append_left _ (List.mem_cons_of_mem _ member)
  obtain ⟨-, fits⟩ := payload_le isLib base entryOffset stack debug (List.mem_of_getElem? found)
  have record_bytes : ∀ place, place < (packRecord isProtected placed).length ->
      (packBytes isProtected isLib base entryOffset stack blocks debug).getD
        (64 + index * (if isProtected then 16 else 12) + place) 0 = (packRecord isProtected placed).getD place 0 :=
    fun place inside => packBytes_getD isProtected isLib base entryOffset stack blocks debug (written _ record) inside
  have payload_bytes : ∀ place, place < placed.1.data.length ->
      (packBytes isProtected isLib base entryOffset stack blocks debug).getD (placed.2 + place) 0 =
        placed.1.data.getD place 0 :=
    fun place inside => packBytes_getD isProtected isLib base entryOffset stack blocks debug (written _ payload) inside
  have long : 12 ≤ (packRecord isProtected placed).length := by
    rw [length_packRecord]
    cases isProtected with
    | false => decide
    | true => decide
  have field : ∀ offset, offset + 4 ≤ (packRecord isProtected placed).length ->
      be32 (packBytes isProtected isLib base entryOffset stack blocks debug)
        (64 + index * (if isProtected then 16 else 12) + offset) = be32 (packRecord isProtected placed) offset :=
    fun offset room => be32_of_getD record_bytes room
  refine ⟨?_, ?_, ?_, ?_, ?_, rfl⟩
  · have first := field 0 (by omega)
    rw [Nat.add_zero] at first
    rw [first]
    exact Word.ofBytes_bytes (ofInt 32 placed.1.address)
  · rw [field 4 (by omega), show be32 (packRecord isProtected placed) 4 = ofInt 32 placed.2 from
      Word.ofBytes_bytes (ofInt 32 placed.2)]
    exact toNat_ofInt_natCast (by omega)
  · rw [field 8 (by omega), show be32 (packRecord isProtected placed) 8 = ofInt 32 placed.1.data.length from
      Word.ofBytes_bytes (ofInt 32 placed.1.data.length)]
    exact toNat_ofInt_natCast (by omega)
  · cases isProtected with
    | false => rfl
    | true =>
      rw [if_pos rfl, field 12 (by rw [length_packRecord]; decide)]
      exact Word.ofBytes_bytes (ofInt 32 placed.1.perm)
  · refine sliceOf_of_getD payload_bytes ?_
    rw [packBytes_length]
    exact fits

/-! ## What was accepted satisfies the readers -/

theorem stop_ofInt {b : PackBlock} (fits : FitsU32 b.address) (perm : Word) :
    ((⟨ofInt 32 b.address, b.data, perm⟩ : ToolBlock).stop : Int) = b.stop := by
  show (((ofInt 32 b.address).toNat + b.data.length : Nat) : Int) = b.address + b.data.length
  rw [Int.natCast_add, toNat_ofInt fits]

/-- A permission that `pack` accepts, as a word. -/
theorem perm_ofInt {perm : Int} (mask : perm ≠ 0 ∧ 0 ≤ perm ∧ perm ≤ 7) : ofInt 32 perm ≠ 0 ∧
    ofInt 32 perm &&& ~~~7 = 0 ∧ ((ofInt 32 perm).toNat : Int) = perm ∧
    (perm.toNat &&& 4 ≠ 0 -> ofInt 32 perm &&& 4 ≠ 0) := by
  obtain ⟨nonzero, low, high⟩ := mask
  obtain ⟨value, rfl⟩ := Int.eq_ofNat_of_zero_le low
  have small : value ≤ 7 := by omega
  interval_cases value
  · exact absurd rfl nonzero
  all_goals decide

/-- The loop over the table accepts the blocks that `pack` accepted. -/
theorem readRows {permInLoop : Bool} {table : ToolTable} (placed : List (PackBlock × Nat)) {before : Option Int}
    {previous : Option Nat} (same : ∀ last ∈ previous, ((last : Nat) : Int) ∈ before)
    (packed : Packed before (placed.map Prod.fst))
    (perms : isProtected = true -> ∀ p ∈ placed, p.1.perm ≠ 0 ∧ 0 ≤ p.1.perm ∧ p.1.perm ≤ 7)
    (aligned : ∀ p ∈ placed, p.2 % 4 = 0)
    (fits : ∀ p ∈ placed, table.stop ≤ p.2 ∧ p.2 + p.1.data.length ≤ table.fileSize) :
    ReadRows permInLoop isProtected table previous (placed.map (toolRow isProtected)) := by
  induction placed generalizing before previous with
  | nil => trivial
  | cons p rest ih =>
    obtain ⟨address, some_, whole, order, others⟩ := packed
    have stop := stop_ofInt address (if isProtected then ofInt 32 p.1.perm else 0)
    refine ⟨some_, fun _ guarded => ?_, ?_, ?_, aligned p List.mem_cons_self, (fits p List.mem_cons_self).1,
      (fits p List.mem_cons_self).2, ?_⟩
    · obtain ⟨nonzero, mask, -⟩ := perm_ofInt (perms guarded p List.mem_cons_self)
      show (if isProtected then ofInt 32 p.1.perm else 0) ≠ 0 ∧
        (if isProtected then ofInt 32 p.1.perm else 0) &&& ~~~7 = 0
      rw [if_pos guarded]
      exact ⟨nonzero, mask⟩
    · have bound : ((toolRow isProtected p).1.stop : Int) ≤ 0x100000000 := by
        rw [show ((toolRow isProtected p).1.stop : Int) = p.1.stop from stop]
        exact whole
      exact Int.ofNat_le.mp bound
    · intro last member
      have after := order _ (same last member)
      rw [← toNat_ofInt address] at after
      exact Int.ofNat_le.mp after
    · refine ih ?_ others (fun guarded q member => perms guarded q (List.mem_cons_of_mem _ member))
        (fun q member => aligned q (List.mem_cons_of_mem _ member)) (fun q member => fits q (List.mem_cons_of_mem _ member))
      intro last member
      rw [← Option.some.inj member]
      exact congrArg some stop.symm

end File

end Src32.Wax
