import Src32.Libfnd.Heap

namespace Src32.Libfnd

open Kernel Wax Tiling

/-!
# A block is taken or freed

The writes of `fnd_mem_alloc` and `fnd_mem_free` stay inside free blocks and
the headers of the blocks they are about.
-/

section Writes

variable {mem : Memory} {w : Word}

theorem header_storeWord (fits : w.toNat + 8 ≤ 2 ^ 32) (size used : Word) :
    Header (storeWord (storeWord mem w size) (w + 4) used) w ⟨size.toNat, !decide (used = 0)⟩ := by
  have behind : (w + 4).toNat = w.toNat + 4 := by
    rw [BitVec.toNat_add]
    have step : (4 : Word).toNat = 4 := rfl
    omega
  constructor
  · rw [wordAt_apart (by omega) (by omega) used (by omega), wordAt_storeWord]
  · rw [wordAt_storeWord]
    simp

theorem headers_outside (fits : w.toNat + 8 ≤ 2 ^ 32) (size used : Word) {x : Word}
    (outside : x.toNat < w.toNat ∨ w.toNat + 8 ≤ x.toNat) :
    storeWord (storeWord mem w size) (w + 4) used x = mem x := by
  have behind : (w + 4).toNat = w.toNat + 4 := by
    rw [BitVec.toNat_add]
    have step : (4 : Word).toNat = 4 := rfl
    omega
  rw [storeWord_outside (by omega) used (by omega), storeWord_outside (by omega) size (by omega)]

/-- Only the mark changes. -/
theorem header_mark {b : Tile} (header : Header mem w b) (fits : w.toNat + 8 ≤ 2 ^ 32) (used : Word) :
    Header (storeWord mem (w + 4) used) w ⟨b.size, !decide (used = 0)⟩ := by
  have behind : (w + 4).toNat = w.toNat + 4 := by
    rw [BitVec.toNat_add]
    have step : (4 : Word).toNat = 4 := rfl
    omega
  constructor
  · rw [wordAt_apart (by omega) (by omega) used (by omega)]
    exact header.1
  · rw [wordAt_storeWord]
    simp

/-- Only the size changes. -/
theorem header_resize {b : Tile} (header : Header mem w b) (fits : w.toNat + 8 ≤ 2 ^ 32) (size : Word) :
    Header (storeWord mem w size) w ⟨size.toNat, b.used⟩ := by
  have behind : (w + 4).toNat = w.toNat + 4 := by
    rw [BitVec.toNat_add]
    have step : (4 : Word).toNat = 4 := rfl
    omega
  constructor
  · rw [wordAt_storeWord]
  · rw [wordAt_apart (by omega) (by omega) size (by omega)]
    exact header.2

end Writes

namespace Program

variable {s : Program} {place : Nat} {before behind : List Tile} {b : Tile} {w size : Word}

/-- What a free block becomes. -/
def cut (size : Nat) (b : Tile) : List Tile :=
  if size + 16 ≤ b.size then [⟨size, true⟩, ⟨b.size - size - 8, false⟩] else [⟨b.size, true⟩]

theorem span_cut (size : Nat) : span 8 (cut size b) = 8 + b.size := by
  unfold cut
  split
  · simp only [span_cons, span_nil]
    omega
  · rfl

theorem take_spec (tiles : Tiles s.mem place (before ++ b :: behind)) (here : w.toNat = place + span 8 before)
    (fits : place + span 8 (before ++ b :: behind) ≤ 2 ^ 31) (room : size.toNat ≤ b.size) :
    ∃ mem, s.take w size = { s with mem := mem } ∧ Tiles mem place (before ++ (cut size.toNat b ++ behind)) ∧
      ∀ x : Word, x.toNat < w.toNat ∨ w.toNat + 8 + b.size ≤ x.toNat -> mem x = s.mem x := by
  obtain ⟨front, middle⟩ := tiles_append.mp tiles
  rw [← here] at middle
  obtain ⟨header, back⟩ := tiles_cons.mp middle
  rw [span_append, span_cons] at fits
  have large : s.sizeOf w ≥ size + 16 ↔ size.toNat + 16 ≤ b.size := by
    have sum : (size + 16).toNat = size.toNat + 16 := by
      rw [BitVec.toNat_add]
      have step : (16 : Word).toNat = 16 := rfl
      omega
    have number : (s.sizeOf w).toNat = b.size := header.1
    rw [← number, ← sum]
    exact BitVec.le_def
  -- Whatever the block becomes, the others keep their headers.
  have around : ∀ {mem : Memory}, (∀ x : Word, x.toNat < w.toNat ∨ w.toNat + 8 + b.size ≤ x.toNat -> mem x = s.mem x) ->
      Tiles mem w.toNat (cut size.toNat b) -> Tiles mem place (before ++ (cut size.toNat b ++ behind)) := by
    intro mem outside piece
    refine tiles_append.mpr ⟨?_, tiles_append.mpr ⟨by rwa [← here], ?_⟩⟩
    · exact front.of_inside (by omega) fun x _ most => outside x (.inl (by omega))
    · rw [← here, span_cut, ← Nat.add_assoc]
      exact back.of_inside (by omega) fun x least _ => outside x (.inr (by omega))
  unfold take
  by_cases split_ : size.toNat + 16 ≤ b.size
  · rw [if_pos (large.mpr split_)]
    have next : (w + 8 + size).toNat = w.toNat + 8 + size.toNat := by
      rw [BitVec.toNat_add, BitVec.toNat_add]
      have step : (8 : Word).toNat = 8 := rfl
      omega
    have rest : (s.sizeOf w - size - 8).toNat = b.size - size.toNat - 8 := by
      have number : (s.sizeOf w).toNat = b.size := header.1
      have step : (8 : Word).toNat = 8 := rfl
      rw [BitVec.toNat_sub, BitVec.toNat_sub, number]
      omega
    have outside : ∀ x : Word, x.toNat < w.toNat ∨ w.toNat + 8 + b.size ≤ x.toNat ->
        ((((s.setSize (w + 8 + size) (s.sizeOf w - size - 8)).setUsed (w + 8 + size) 0).setSize w size).setUsed w 1).mem x =
          s.mem x := by
      intro x apart
      change storeWord (storeWord (storeWord (storeWord s.mem _ _) _ _) _ _) _ _ x = _
      rw [headers_outside (by omega) _ _ (by omega), headers_outside (by omega) _ _ (by omega)]
    refine ⟨_, rfl, around outside ?_, outside⟩
    unfold cut
    rw [if_pos split_]
    refine tiles_cons.mpr ⟨header_storeWord (by omega) size 1, ?_⟩
    rw [← next]
    refine tiles_cons.mpr ⟨?_, tiles_nil⟩
    rw [← rest]
    refine (@header_storeWord s.mem (w + 8 + size) (by omega) _ 0).of_same (by omega) fun x least most => ?_
    exact headers_outside (by omega) _ _ (by omega)
  · rw [if_neg fun wide => split_ (large.mp wide)]
    have outside : ∀ x : Word, x.toNat < w.toNat ∨ w.toNat + 8 + b.size ≤ x.toNat -> (s.setUsed w 1).mem x = s.mem x := by
      intro x apart
      refine storeWord_outside ?_ 1 ?_
      all_goals
        rw [BitVec.toNat_add]
        have step : (4 : Word).toNat = 4 := rfl
        omega
    refine ⟨_, rfl, around outside ?_, outside⟩
    unfold cut
    rw [if_neg split_]
    exact tiles_cons.mpr ⟨header_mark header (by omega) 1, tiles_nil⟩

/-! ## The loop of a free -/

theorem sweep_ends {c : Word} {fuel : Nat} (whole : c.toNat = s.heapEnd.toNat) : sweep (fuel + 1) s c = some s := by
  unfold sweep
  rw [if_neg (not_inside whole)]

theorem sweep_merges {c : Word} {blocks : List Tile} {fuel : Nat} (tiles : Tiles s.mem c.toNat blocks)
    (whole : c.toNat + span 8 blocks = s.heapEnd.toNat) (positive : 0 < c.toNat ∨ blocks = []) (enough : blocks.length < fuel) :
    ∃ mem, sweep fuel s c = some { s with mem := mem } ∧ Tiles mem c.toNat (merge 8 blocks) ∧
      (∀ x : Word, x.toNat < c.toNat -> mem x = s.mem x) ∧
      ∀ y b, (y, b) ∈ placed 8 c.toNat blocks -> b.used = true ->
        ∀ x : Word, y ≤ x.toNat -> x.toNat < y + 8 + b.size -> mem x = s.mem x := by
  have bound := s.heapEnd.isLt
  fun_induction merge 8 blocks generalizing s c fuel with
  | case1 =>
    obtain ⟨fuel, rfl⟩ : ∃ n, fuel = n + 1 := ⟨fuel - 1, by rw [List.length_nil] at enough; omega⟩
    exact ⟨s.mem, sweep_ends (by simpa using whole), tiles_nil, fun _ _ => rfl, fun _ _ member => absurd member List.not_mem_nil⟩
  | case2 b =>
    obtain ⟨fuel, rfl⟩ : ∃ n, fuel = n + 2 := ⟨fuel - 2, by rw [List.length_singleton] at enough; omega⟩
    rw [span_cons, span_nil] at whole
    have next := nextOf_toNat (tiles_cons.mp tiles).1.1 (by omega)
    refine ⟨s.mem, ?_, tiles, fun _ _ => rfl, fun _ _ _ _ _ _ _ => rfl⟩
    unfold sweep
    rw [if_pos (inside_heap (positive.resolve_right (List.cons_ne_nil _ _)) (show c.toNat + (8 + b.size) ≤ s.heapEnd.toNat by omega)),
      if_neg ?_]
    · exact sweep_ends (by omega)
    · rintro ⟨_, below, _⟩
      have less : (s.nextOf c).toNat < s.heapEnd.toNat := below
      omega
  | case3 b d rest free ih =>
    obtain ⟨fuel, rfl⟩ : ∃ n, fuel = n + 1 := ⟨fuel - 1, by rw [List.length_cons] at enough; omega⟩
    rw [List.length_cons, List.length_cons] at enough
    rw [span_cons, span_cons] at whole
    obtain ⟨header, others⟩ := tiles_cons.mp tiles
    have next := nextOf_toNat header.1 (by omega)
    rw [← next] at others
    obtain ⟨second, back⟩ := tiles_cons.mp others
    have sum : (s.sizeOf c + (s.sizeOf (s.nextOf c) + 8)).toNat = b.size + (d.size + 8) := by
      have first : (s.sizeOf c).toNat = b.size := header.1
      have other : (s.sizeOf (s.nextOf c)).toNat = d.size := second.1
      have step : (8 : Word).toNat = 8 := rfl
      rw [BitVec.toNat_add, BitVec.toNat_add, first, other]
      omega
    have outside : ∀ x : Word, x.toNat < c.toNat ∨ c.toNat + 4 ≤ x.toNat ->
        (s.setSize c (s.sizeOf c + (s.sizeOf (s.nextOf c) + 8))).mem x = s.mem x :=
      fun x apart => storeWord_outside (by omega) _ apart
    have merged : Tiles (s.setSize c (s.sizeOf c + (s.sizeOf (s.nextOf c) + 8))).mem c.toNat
        (⟨b.size + (d.size + 8), false⟩ :: rest) := by
      refine tiles_cons.mpr ⟨?_, ?_⟩
      · have resized := header_resize header (by omega) (s.sizeOf c + (s.sizeOf (s.nextOf c) + 8))
        rw [sum, free.1] at resized
        exact resized
      · have place : c.toNat + 8 + (b.size + (d.size + 8)) = (s.nextOf c).toNat + 8 + d.size := by omega
        rw [place]
        exact back.of_inside (by omega) fun x least _ => outside x (.inr (by omega))
    obtain ⟨mem, done, laid, front, kept⟩ := @ih (s.setSize c (s.sizeOf c + (s.sizeOf (s.nextOf c) + 8))) c fuel merged
      (by rw [span_cons]; exact (by omega : c.toNat + (8 + (b.size + (d.size + 8)) + span 8 rest) = s.heapEnd.toNat))
      (.inl (positive.resolve_right (List.cons_ne_nil _ _))) (by rw [List.length_cons]; omega) bound
    refine ⟨mem, ?_, laid, fun x below => (front x below).trans (outside x (.inl below)), ?_⟩
    · have below : s.nextOf c < s.heapEnd := by
        show (s.nextOf c).toNat < s.heapEnd.toNat
        omega
      unfold sweep
      rw [if_pos (inside_heap (positive.resolve_right (List.cons_ne_nil _ _)) (show c.toNat + (8 + b.size) ≤ s.heapEnd.toNat by omega)),
        if_pos ⟨header.2.mpr free.1, below, second.2.mpr free.2⟩]
      exact done
    · intro y e member used x least most
      have later : (y, e) ∈ placed 8 (c.toNat + 8 + b.size + 8 + d.size) rest := by
        rw [placed, placed, List.mem_cons, List.mem_cons] at member
        rcases member with same | same | later
        · cases same
          rw [free.1] at used
          cases used
        · cases same
          rw [free.2] at used
          cases used
        · exact later
      have behind := (placed_inside later).1
      have moved : (y, e) ∈ placed 8 c.toNat (⟨b.size + (d.size + 8), false⟩ :: rest) := by
        rw [placed, List.mem_cons]
        right
        have place : c.toNat + 8 + (b.size + (d.size + 8)) = c.toNat + 8 + b.size + 8 + d.size := by omega
        rw [place]
        exact later
      exact (kept y e moved used x least most).trans (outside x (.inr (by omega)))
  | case4 b d rest marked ih =>
    obtain ⟨fuel, rfl⟩ : ∃ n, fuel = n + 1 := ⟨fuel - 1, by rw [List.length_cons] at enough; omega⟩
    rw [List.length_cons] at enough
    rw [span_cons] at whole
    have small : 8 + d.size ≤ span 8 (d :: rest) := by
      rw [span_cons]
      omega
    obtain ⟨header, others⟩ := tiles_cons.mp tiles
    have next := nextOf_toNat header.1 (by omega)
    rw [← next] at others
    have second := (tiles_cons.mp others).1
    obtain ⟨mem, done, laid, front, kept⟩ := @ih s (s.nextOf c) fuel others (by omega) (.inl (by omega)) (by omega) bound
    refine ⟨mem, ?_, tiles_cons.mpr ⟨?_, ?_⟩, fun x below => front x (by omega), ?_⟩
    · unfold sweep
      rw [if_pos (inside_heap (positive.resolve_right (List.cons_ne_nil _ _)) (show c.toNat + (8 + b.size) ≤ s.heapEnd.toNat by omega)),
        if_neg ?_]
      · exact done
      · rintro ⟨first, _, other⟩
        exact marked ⟨header.2.mp first, second.2.mp other⟩
    · exact header.of_same (by omega) fun x _ most => front x (by omega)
    · rw [← next]
      exact laid
    · intro y e member used x least most
      rw [placed, List.mem_cons] at member
      rcases member with same | later
      · cases same
        exact front x (by omega)
      · rw [← next] at later
        exact kept y e later used x least most

end Program
end Src32.Libfnd
