import Src32.Lib.Intervals

namespace Src32

/-!
# Writing pieces into a buffer

A buffer of fixed length is filled by pieces written at their offsets.  Where no two
pieces touch the same place, each is found again at its offset, whatever the order
of the writes.
-/

section Patches

variable {α : Type}

/-- A piece is written at its offset. -/
def patch (buffer : List α) (piece : Nat × List α) : List α :=
  buffer.take piece.1 ++ piece.2 ++ buffer.drop (piece.1 + piece.2.length)

/-- The places of a piece. -/
def pieceSpan (piece : Nat × List α) : Interval := ⟨piece.1, piece.1 + piece.2.length⟩

variable {buffer : List α} {piece : Nat × List α}

theorem length_patch (fits : piece.1 + piece.2.length ≤ buffer.length) : (patch buffer piece).length = buffer.length := by
  unfold patch
  rw [List.length_append, List.length_append, List.length_take, List.length_drop]
  omega

/-- Inside a piece the buffer holds the piece. -/
theorem getD_patch_inside (fits : piece.1 + piece.2.length ≤ buffer.length) {place : Nat} (inside : place < piece.2.length)
    (default : α) : (patch buffer piece).getD (piece.1 + place) default = piece.2.getD place default := by
  have front : (buffer.take piece.1).length = piece.1 := by
    rw [List.length_take]
    omega
  unfold patch
  rw [List.getD_eq_getElem?_getD, List.getD_eq_getElem?_getD, List.append_assoc, List.getElem?_append_right (by omega), front,
    Nat.add_sub_cancel_left, List.getElem?_append_left inside]

/-- Outside of a piece the buffer stays as it is. -/
theorem getD_patch_outside (fits : piece.1 + piece.2.length ≤ buffer.length) {place : Nat}
    (outside : ¬ (pieceSpan piece).Contains place) (default : α) :
    (patch buffer piece).getD place default = buffer.getD place default := by
  have front : (buffer.take piece.1).length = piece.1 := by
    rw [List.length_take]
    omega
  unfold Interval.Contains pieceSpan at outside
  dsimp only at outside
  unfold patch
  rw [List.getD_eq_getElem?_getD, List.getD_eq_getElem?_getD]
  by_cases before : place < piece.1
  · rw [List.append_assoc, List.getElem?_append_left (by omega), List.getElem?_take_of_lt before]
  · have behind : piece.1 + piece.2.length ≤ place := by omega
    rw [List.getElem?_append_right (by rw [List.length_append]; omega), List.getElem?_drop, List.length_append, front,
      Nat.add_sub_cancel' behind]

theorem length_patches (pieces : List (Nat × List α)) (fits : ∀ p ∈ pieces, p.1 + p.2.length ≤ buffer.length) :
    (pieces.foldl patch buffer).length = buffer.length := by
  induction pieces generalizing buffer with
  | nil => rfl
  | cons first rest ih =>
    have here := length_patch (fits first List.mem_cons_self)
    rw [List.foldl_cons, ih, here]
    intro p member
    rw [here]
    exact fits p (List.mem_cons_of_mem _ member)

/-- Pieces written elsewhere leave a place as it is. -/
theorem getD_patches_outside (pieces : List (Nat × List α)) (fits : ∀ p ∈ pieces, p.1 + p.2.length ≤ buffer.length)
    {place : Nat} (outside : ∀ p ∈ pieces, ¬ (pieceSpan p).Contains place) (default : α) :
    (pieces.foldl patch buffer).getD place default = buffer.getD place default := by
  induction pieces generalizing buffer with
  | nil => rfl
  | cons first rest ih =>
    have here := length_patch (fits first List.mem_cons_self)
    rw [List.foldl_cons, ih, getD_patch_outside (fits first List.mem_cons_self) (outside first List.mem_cons_self)]
    · intro p member
      rw [here]
      exact fits p (List.mem_cons_of_mem _ member)
    · exact fun p member => outside p (List.mem_cons_of_mem _ member)

/-- Each of several pieces that do not touch is found at its offset. -/
theorem getD_patches (pieces : List (Nat × List α)) (fits : ∀ p ∈ pieces, p.1 + p.2.length ≤ buffer.length)
    (apart : (pieces.map pieceSpan).Pairwise Interval.Apart) (written : piece ∈ pieces) {place : Nat}
    (inside : place < piece.2.length) (default : α) :
    (pieces.foldl patch buffer).getD (piece.1 + place) default = piece.2.getD place default := by
  induction pieces generalizing buffer with
  | nil => exact absurd written List.not_mem_nil
  | cons first rest ih =>
    obtain ⟨clear, others⟩ := List.pairwise_cons.mp apart
    have here := length_patch (fits first List.mem_cons_self)
    have later : ∀ p ∈ rest, p.1 + p.2.length ≤ (patch buffer first).length := by
      intro p member
      rw [here]
      exact fits p (List.mem_cons_of_mem _ member)
    rw [List.foldl_cons]
    rcases List.mem_cons.mp written with rfl | member
    · rw [getD_patches_outside rest later, getD_patch_inside (fits piece List.mem_cons_self) inside]
      intro p member holds
      have off := clear _ (List.mem_map_of_mem member)
      unfold Interval.Apart at off
      unfold Interval.Contains at holds
      change piece.1 + piece.2.length ≤ p.1 ∨ p.1 + p.2.length ≤ piece.1 at off
      change p.1 ≤ piece.1 + place ∧ piece.1 + place < p.1 + p.2.length at holds
      omega
    · exact ih later others member

end Patches
end Src32
