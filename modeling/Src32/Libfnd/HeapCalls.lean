import Src32.Libfnd.HeapSteps

namespace Src32.Libfnd

open Kernel Wax Tiling

/-!
# An allocation

The search ends at a free block that is large enough, or the heap grows; then one
block is used that was not, and everything else is as it was.
-/

/-- The kernel's part: it answers a refusal with an error, and no heap grows
beyond the lower half of the address space. -/
def Kind (kernel : Word -> Growth) (s : Program) : Prop :=
  ∀ delta fresh, kernel delta = .granted fresh -> s.brk.toNat + delta.toNat ≤ 2 ^ 31

namespace Program

/-- The blocks tile the heap from `first` to `heap_end`. -/
structure Tiled (s : Program) (blocks : List Tile) : Prop where
  tiles : Tiles s.mem s.first.toNat blocks
  whole : s.first.toNat + span 8 blocks = s.heapEnd.toNat
  apart : Apart blocks
  sizes : ∀ b ∈ blocks, 8 ∣ b.size
  begins : s.first = 0 ∧ s.heapEnd = 0 ∨ 0 < s.first.toNat ∧ 8 ∣ s.first.toNat ∧ s.heapEnd = s.brk
  ends : 0 < s.brk.toNat ∧ s.brk.toNat ≤ 2 ^ 31 ∧ 8 ∣ s.brk.toNat

variable {s : Program} {blocks : List Tile}

theorem Tiled.positive (tiled : s.Tiled blocks) : 0 < s.first.toNat ∨ blocks = [] := by
  rcases tiled.begins with ⟨first, last⟩ | ⟨positive, _⟩
  · right
    have whole := tiled.whole
    rw [first, last] at whole
    cases blocks with
    | nil => rfl
    | cons b rest =>
      rw [span_cons] at whole
      have zero : (0 : Word).toNat = 0 := rfl
      omega
  · exact .inl positive

theorem Tiled.fits (tiled : s.Tiled blocks) : s.first.toNat + span 8 blocks ≤ 2 ^ 31 := by
  have whole := tiled.whole
  rcases tiled.begins with ⟨_, last⟩ | ⟨_, _, last⟩
  · rw [whole, last]
    decide
  · rw [whole, last]
    exact tiled.ends.2.1

theorem Tiled.enough (tiled : s.Tiled blocks) : blocks.length < s.fuel := by
  have short : blocks.length ≤ span 8 blocks := length_le_span (by decide)
  have whole := tiled.whole
  unfold fuel
  omega

end Program

/-! ## Lists of blocks -/

section Lists

variable {before behind : List Tile} {b : Tile} {n : Nat}

/-- A free block may become used. -/
theorem apart_used (apart : Apart (before ++ b :: behind)) : Apart (before ++ (⟨n, true⟩ :: behind)) := by
  unfold Apart at apart ⊢
  rw [List.isChain_append] at apart ⊢
  obtain ⟨front, back, seam⟩ := apart
  refine ⟨front, ?_, ?_⟩
  · cases behind with
    | nil => exact List.isChain_singleton _
    | cons c rest =>
      rw [List.isChain_cons_cons] at back ⊢
      exact ⟨.inl rfl, back.2⟩
  · intro c _ d last
    cases last
    exact .inr rfl

/-- A free block is split. -/
theorem apart_split {m : Nat} (apart : Apart (before ++ b :: behind)) (free : b.used = false) :
    Apart (before ++ (⟨n, true⟩ :: ⟨m, false⟩ :: behind)) := by
  unfold Apart at apart ⊢
  rw [List.isChain_append] at apart ⊢
  obtain ⟨front, back, _⟩ := apart
  refine ⟨front, ?_, ?_⟩
  · rw [List.isChain_cons_cons]
    refine ⟨.inl rfl, ?_⟩
    cases behind with
    | nil => exact List.isChain_singleton _
    | cons c rest =>
      rw [List.isChain_cons_cons] at back ⊢
      exact ⟨.inr (back.1.resolve_left fun used => by rw [free] at used; cases used), back.2⟩
  · intro c _ d last
    cases last
    exact .inr rfl

theorem apart_behind (apart : Apart before) : Apart (before ++ [⟨n, true⟩]) := by
  unfold Apart at apart ⊢
  rw [List.isChain_append]
  refine ⟨apart, List.isChain_singleton _, fun c _ d last => ?_⟩
  cases last
  exact .inr rfl

theorem apart_front (apart : Apart (before ++ behind)) : Apart before := (List.isChain_append.mp apart).1

/-- The used blocks of a list in which one block takes the place of free ones. -/
theorem placed_taken {place y : Nat} {gone rest : List Tile} {c : Tile} (used : c.used = true)
    (free : ∀ d ∈ gone, d.used = false) (rests : ∀ d ∈ rest, d.used = false)
    (same : behind = [] ∨ span 8 gone = 8 + n + span 8 rest) :
    (y, c) ∈ placed 8 place (before ++ (⟨n, true⟩ :: (rest ++ behind))) ↔
      (y, c) ∈ placed 8 place (before ++ (gone ++ behind)) ∨ (y, c) = (place + span 8 before, ⟨n, true⟩) := by
  have none : ∀ {at_ : Nat} {list : List Tile}, (∀ d ∈ list, d.used = false) -> (y, c) ∉ placed 8 at_ list := by
    intro at_ list all member
    rw [all c (mem_of_placed member)] at used
    cases used
  have last : (y, c) ∈ placed 8 (place + span 8 before + 8 + n + span 8 rest) behind ↔
      (y, c) ∈ placed 8 (place + span 8 before + span 8 gone) behind := by
    rcases same with rfl | same
    · exact iff_of_false nofun nofun
    · rw [same, ← Nat.add_assoc, ← Nat.add_assoc]
  rw [placed_append, placed_append, placed_append, placed, placed_append, List.mem_append, List.mem_append, List.mem_append,
    List.mem_cons, List.mem_append, last, or_iff_right (none rests), or_iff_right (none free)]
  tauto

end Lists

/-! ## Allocating -/

/-- A block was free or not there, and is used now; the others are as they were. -/
structure Given (s t : Program) (blocks next : List Tile) (p size : Word) : Prop where
  tiled : t.Tiled next
  block : ∃ x b, p.toNat = x + 8 ∧ b.used = true ∧ size.toNat ≤ b.size ∧ (∀ c, c.used = true -> (x, c) ∉ placed 8 s.first.toNat blocks) ∧
    ∀ y c, c.used = true ->
      ((y, c) ∈ placed 8 t.first.toNat next ↔ (y, c) ∈ placed 8 s.first.toNat blocks ∨ (y, c) = (x, b))
  kept : ∀ y c, (y, c) ∈ placed 8 s.first.toNat blocks -> c.used = true ->
    ∀ x : Word, y ≤ x.toNat -> x.toNat < y + 8 + c.size -> t.mem x = s.mem x

namespace Program

variable {s : Program} {blocks before behind : List Tile} {b : Tile} {w size : Word}

theorem take_given (tiled : s.Tiled (before ++ b :: behind)) (here : w.toNat = s.first.toNat + span 8 before)
    (free : b.used = false) (room : size.toNat ≤ b.size) (unit : 8 ∣ size.toNat) :
    ∃ next, Given s (s.take w size) (before ++ b :: behind) next (w + 8) size := by
  have fits := tiled.fits
  obtain ⟨mem, taken, tiles, outside⟩ := take_spec tiled.tiles here fits room
  rw [taken]
  have place : (w + 8).toNat = w.toNat + 8 := by
    rw [span_append, span_cons] at fits
    rw [BitVec.toNat_add]
    have step : (8 : Word).toNat = 8 := rfl
    omega
  have whole : s.first.toNat + span 8 (before ++ (cut size.toNat b ++ behind)) = s.heapEnd.toNat := by
    rw [← tiled.whole, span_append, span_append, span_append, span_cut, span_cons]
  have inside : b ∈ before ++ b :: behind := List.mem_append_right _ List.mem_cons_self
  have kept : ∀ y c, (y, c) ∈ placed 8 s.first.toNat (before ++ b :: behind) -> c.used = true ->
      ∀ x : Word, y ≤ x.toNat -> x.toNat < y + 8 + c.size -> mem x = s.mem x := by
    intro y c member used x least most
    have own : (w.toNat, b) ∈ placed 8 s.first.toNat (before ++ b :: behind) :=
      placed_iff.mpr ⟨before, behind, rfl, here⟩
    have other : y ≠ w.toNat := by
      rintro rfl
      rw [placed_unique (by decide) member own, free] at used
      cases used
    rcases Nat.lt_or_gt_of_ne other with less | more
    · exact outside x (.inl (by have apart := placed_disjoint member own less; omega))
    · exact outside x (.inr (by have apart := placed_disjoint own member more; omega))
  have fresh : ∀ c : Tile, c.used = true -> (w.toNat, c) ∉ placed 8 s.first.toNat (before ++ b :: behind) := by
    intro c used member
    rw [placed_unique (by decide) member (placed_iff.mpr ⟨before, behind, rfl, here⟩), free] at used
    cases used
  by_cases wide : size.toNat + 16 ≤ b.size
  · have pieces : cut size.toNat b = [⟨size.toNat, true⟩, ⟨b.size - size.toNat - 8, false⟩] := if_pos wide
    rw [pieces] at tiles whole
    refine ⟨_, ⟨⟨tiles, whole, apart_split tiled.apart free, ?_, tiled.begins, tiled.ends⟩, ?_, kept⟩⟩
    · intro c member
      rw [List.mem_append] at member
      rcases member with front | middle
      · exact tiled.sizes c (List.mem_append_left _ front)
      · rcases List.mem_cons.mp middle with rfl | middle
        · exact unit
        · rcases List.mem_cons.mp middle with rfl | back
          · exact Nat.dvd_sub (Nat.dvd_sub (tiled.sizes b inside) unit) (Nat.dvd_refl 8)
          · exact tiled.sizes c (List.mem_append_right _ (List.mem_cons_of_mem _ back))
    · refine ⟨w.toNat, ⟨size.toNat, true⟩, place, rfl, Nat.le_refl _, fresh, fun y c used => ?_⟩
      rw [here]
      refine @placed_taken before behind size.toNat s.first.toNat y [b] [⟨b.size - size.toNat - 8, false⟩] c used ?_ ?_ (.inr ?_)
      · simpa using free
      · simp
      · simp only [span_cons, span_nil]
        omega
  · have pieces : cut size.toNat b = [⟨b.size, true⟩] := if_neg wide
    rw [pieces] at tiles whole
    refine ⟨_, ⟨⟨tiles, whole, apart_used tiled.apart, ?_, tiled.begins, tiled.ends⟩, ?_, kept⟩⟩
    · intro c member
      rw [List.mem_append] at member
      rcases member with front | middle
      · exact tiled.sizes c (List.mem_append_left _ front)
      · rcases List.mem_cons.mp middle with rfl | back
        · exact tiled.sizes b inside
        · exact tiled.sizes c (List.mem_append_right _ (List.mem_cons_of_mem _ back))
    · refine ⟨w.toNat, ⟨b.size, true⟩, place, rfl, room, fresh, fun y c used => ?_⟩
      rw [here]
      refine @placed_taken before behind b.size s.first.toNat y [b] [] c used ?_ ?_ (.inr ?_)
      · simpa using free
      · simp
      · simp only [span_cons, span_nil]


/-- The heap has grown for a block at its end. -/
theorem end_given {t : Program} {gone : List Tile} (tiled : s.Tiled (before ++ gone)) (free : ∀ d ∈ gone, d.used = false)
    (large : 8 + size.toNat ≤ 2 ^ 31) (unit : 8 ∣ size.toNat) (first : t.first.toNat + span 8 before = w.toNat)
    (tiles : Tiles s.mem t.first.toNat (before ++ gone)) (whole : t.first.toNat + span 8 (before ++ gone) = s.brk.toNat)
    (same : ∀ e, e ∈ placed 8 s.first.toNat (before ++ gone) ↔ e ∈ placed 8 t.first.toNat (before ++ gone))
    (memory : ∀ x : Word, x.toNat < s.brk.toNat -> t.mem x = s.mem x)
    (ends : t.heapEnd.toNat = w.toNat + 8 + size.toNat) (brk : t.heapEnd = t.brk) (limit : t.brk.toNat ≤ 2 ^ 31)
    (start : 0 < t.first.toNat ∧ 8 ∣ t.first.toNat) (multiple : 8 ∣ t.brk.toNat) :
    Given s ((t.setSize w size).setUsed w 1) (before ++ gone) (before ++ [⟨size.toNat, true⟩]) (w + 8) size := by
  have stop := tiled.ends.2.1
  rw [span_append] at whole
  rw [brk] at ends
  have place : (w + 8).toNat = w.toNat + 8 := by
    rw [BitVec.toNat_add]
    have step : (8 : Word).toNat = 8 := rfl
    omega
  have outside : ∀ x : Word, x.toNat < w.toNat -> ((t.setSize w size).setUsed w 1).mem x = s.mem x := by
    intro x less
    exact (headers_outside (by omega) size 1 (.inl less)).trans (memory x (by omega))
  refine ⟨⟨?_, ?_, apart_behind (apart_front tiled.apart), ?_, .inr ⟨start.1, start.2, brk⟩, ?_⟩,
    ⟨w.toNat, ⟨size.toNat, true⟩, place, rfl, Nat.le_refl _, ?_, ?_⟩, ?_⟩
  · refine tiles_append.mpr ⟨?_, ?_⟩
    · exact (tiles_append.mp tiles).1.of_inside (by omega) fun x _ most => outside x (by omega)
    · change Tiles _ (t.first.toNat + span 8 before) _
      rw [first]
      exact tiles_cons.mpr ⟨header_storeWord (by omega) size 1, tiles_nil⟩
  · change t.first.toNat + _ = t.heapEnd.toNat
    rw [span_append, span_cons, span_nil, brk]
    dsimp only
    omega
  · intro c member
    rcases List.mem_append.mp member with front | last
    · exact tiled.sizes c (List.mem_append_left _ front)
    · rw [List.mem_singleton.mp last]
      exact unit
  · exact ⟨by change 0 < t.brk.toNat; omega, limit, multiple⟩
  · intro c used member
    rw [same, placed_append, List.mem_append, first] at member
    rcases member with front | back
    · have inside := (placed_inside front).2
      omega
    · rw [free c (mem_of_placed back)] at used
      cases used
  · intro y c used
    have taken := @placed_taken before [] size.toNat t.first.toNat y gone [] c used free nofun (.inl rfl)
    rw [List.append_nil, List.append_nil, first] at taken
    rw [same]
    exact taken
  · intro y c member used x least most
    rw [same, placed_append, List.mem_append] at member
    rcases member with front | back
    · have inside := (placed_inside front).2
      exact outside x (by omega)
    · rw [free c (mem_of_placed back)] at used
      cases used


theorem code_negative (error : FndError) : error.code.msb = true := by
  cases error <;> decide

/-- How much `fnd_mem_alloc` asks for. -/
def need (s : Program) (last size : Word) : Word :=
  if last ≠ 0 ∧ s.usedOf last = 0 then size + 8 - (s.sizeOf last + 8) else size + 8

/-- What the program has then. -/
def grown (s : Program) (fresh : Memory) (delta : Word) : Program where
  first := if s.first = 0 then s.brk else s.first
  heapEnd := s.brk + delta
  mem := fun a => if s.brk ≤ a ∧ a < s.brk + delta then fresh a else s.mem a
  brk := s.brk + delta

variable {kernel : Word -> Growth} {last : Word} {blocks : List Tile}

theorem extend_refused {error : FndError} (answer : kernel (s.need last size) = .refused error) :
    s.extend kernel last size = (0, s) := by
  unfold need at answer
  unfold extend memGrow
  dsimp only
  rw [answer]
  exact if_pos (code_negative error)

theorem extend_granted {fresh : Memory} (low : s.brk.msb = false)
    (answer : kernel (s.need last size) = .granted fresh) :
    s.extend kernel last size =
      ((if last ≠ 0 ∧ (s.grown fresh (s.need last size)).usedOf last = 0 then last else s.brk) + 8,
        ((s.grown fresh (s.need last size)).setSize
          (if last ≠ 0 ∧ (s.grown fresh (s.need last size)).usedOf last = 0 then last else s.brk) size).setUsed
          (if last ≠ 0 ∧ (s.grown fresh (s.need last size)).usedOf last = 0 then last else s.brk) 1) := by
  have whole : (if s.first = 0 then ({ s.grown fresh (s.need last size) with first := s.brk } : Program)
      else { s.grown fresh (s.need last size) with first := s.first }) = s.grown fresh (s.need last size) := by
    unfold grown
    split_ifs <;> rfl
  conv_rhs => rw [← whole]
  unfold need at answer ⊢
  unfold extend memGrow
  dsimp only
  rw [answer]
  dsimp only
  rw [if_neg (by rw [low]; exact Bool.false_ne_true)]
  unfold grown
  split_ifs <;> rfl

theorem grown_memory {fresh : Memory} {delta : Word} {x : Word} (below : x.toNat < s.brk.toNat) :
    (s.grown fresh delta).mem x = s.mem x := by
  refine if_neg ?_
  rintro ⟨above, _⟩
  have least : s.brk.toNat ≤ x.toNat := above
  omega

/-- A free last block is too small, and becomes the new one. -/
theorem extend_tail (tiled : s.Tiled (before ++ [b])) (kind : Kind kernel s)
    (here : last.toNat = s.first.toNat + span 8 before) (lacks : b.size < size.toNat)
    (most : size.toNat ≤ 0x7FFFFFF0) (unit : 8 ∣ size.toNat) (tail : last ≠ 0 ∧ s.usedOf last = 0) :
    s.extend kernel last size = (0, s) ∨
      ∃ w t next, s.extend kernel last size = (w + 8, t) ∧ Given s t (before ++ [b]) next (w + 8) size := by
  have eight : (8 : Word).toNat = 8 := rfl
  have stop := tiled.ends.2.1
  have fits := tiled.fits
  have sum : (size + 8).toNat = size.toNat + 8 := by
    rw [BitVec.toNat_add]
    omega
  rw [span_append, span_cons, span_nil] at fits
  obtain ⟨front, back⟩ := tiles_append.mp tiled.tiles
  rw [← here] at back
  have header := (tiles_cons.mp back).1
  have free : b.used = false := header.2.mp tail.2
  have number : (s.sizeOf last).toNat = b.size := header.1
  obtain ⟨start, aligned, whole⟩ : 0 < s.first.toNat ∧ 8 ∣ s.first.toNat ∧ s.heapEnd = s.brk := by
    refine tiled.begins.resolve_left fun none => ?_
    have positive := tiled.positive.resolve_right (by simp)
    rw [none.1] at positive
    exact absurd positive (Nat.lt_irrefl 0)
  have reaches := tiled.whole
  rw [whole] at reaches
  have lack : (s.need last size).toNat = size.toNat - b.size := by
    have other : (s.sizeOf last + 8).toNat = b.size + 8 := by
      rw [BitVec.toNat_add, number]
      omega
    unfold need
    rw [if_pos tail, BitVec.toNat_sub_of_le (by rw [BitVec.le_def, sum, other]; omega), sum, other]
    omega
  cases answer : kernel (s.need last size) with
  | refused error => exact .inl (extend_refused answer)
  | granted fresh =>
    have room := kind _ fresh answer
    rw [lack] at room
    have low : s.brk.msb = false := by
      rw [BitVec.msb_eq_false_iff_two_mul_lt]
      omega
    have more : (s.brk + s.need last size).toNat = s.brk.toNat + (size.toNat - b.size) := by
      rw [BitVec.toNat_add, lack]
      omega
    have apart : ¬s.first = 0 := by
      intro zero
      rw [zero] at start
      exact absurd start (Nat.lt_irrefl 0)
    have first : (s.grown fresh (s.need last size)).first = s.first := if_neg apart
    have still : last ≠ 0 ∧ (s.grown fresh (s.need last size)).usedOf last = 0 := by
      refine ⟨tail.1, ?_⟩
      rw [span_append, span_cons, span_nil] at reaches
      have own : Header (s.grown fresh (s.need last size)).mem last b :=
        header.of_same (by omega) fun x _ most => grown_memory (by omega)
      exact own.2.mpr free
    right
    rw [extend_granted low answer, if_pos still]
    refine ⟨last, _, _, rfl, end_given tiled ?_ (by omega) unit ?_ ?_ ?_ ?_ (fun x below => grown_memory below) ?_ rfl ?_ ?_ ?_⟩
    · simpa using free
    · rw [first, here]
    · rw [first]
      exact tiled.tiles
    · rw [first]
      exact reaches
    · intro e
      rw [first]
    · change (s.brk + s.need last size).toNat = _
      rw [span_append, span_cons, span_nil] at reaches
      omega
    · change (s.brk + s.need last size).toNat ≤ _
      omega
    · rw [first]
      exact ⟨start, aligned⟩
    · change 8 ∣ (s.brk + s.need last size).toNat
      rw [more]
      exact Nat.dvd_add tiled.ends.2.2
        (Nat.dvd_sub unit (tiled.sizes b (List.mem_append_right _ List.mem_cons_self)))

/-- The new block lies where the heap ended. -/
theorem extend_behind (tiled : s.Tiled blocks) (kind : Kind kernel s)
    (ends : blocks = [] ∧ last = 0 ∨ ∃ before b, blocks = before ++ [b] ∧ last.toNat = s.first.toNat + span 8 before)
    (most : size.toNat ≤ 0x7FFFFFF0) (unit : 8 ∣ size.toNat) (tail : ¬(last ≠ 0 ∧ s.usedOf last = 0)) :
    s.extend kernel last size = (0, s) ∨
      ∃ w t next, s.extend kernel last size = (w + 8, t) ∧ Given s t blocks next (w + 8) size := by
  have eight : (8 : Word).toNat = 8 := rfl
  have stop := tiled.ends.2.1
  have fits := tiled.fits
  have sum : (size + 8).toNat = size.toNat + 8 := by
    rw [BitVec.toNat_add]
    omega
  have lack : s.need last size = size + 8 := if_neg tail
  cases answer : kernel (s.need last size) with
  | refused error => exact .inl (extend_refused answer)
  | granted fresh =>
    have room := kind _ fresh answer
    rw [lack, sum] at room
    have low : s.brk.msb = false := by
      rw [BitVec.msb_eq_false_iff_two_mul_lt]
      omega
    have more : (s.brk + s.need last size).toNat = s.brk.toNat + (size.toNat + 8) := by
      rw [BitVec.toNat_add, lack, sum]
      omega
    have still : ¬(last ≠ 0 ∧ (s.grown fresh (s.need last size)).usedOf last = 0) := by
      rintro ⟨present, none⟩
      obtain ⟨before, b, rfl, here⟩ := ends.resolve_left fun empty => present empty.2
      obtain ⟨front, back⟩ := tiles_append.mp tiled.tiles
      rw [← here] at back
      have header := (tiles_cons.mp back).1
      rw [span_append, span_cons, span_nil] at fits
      have reaches := tiled.whole
      rw [span_append, span_cons, span_nil] at reaches
      have whole : s.heapEnd = s.brk := by
        refine (tiled.begins.resolve_left fun none => ?_).2.2
        rw [none.2] at reaches
        have zero : (0 : Word).toNat = 0 := rfl
        omega
      rw [whole] at reaches
      have own : Header (s.grown fresh (s.need last size)).mem last b :=
        header.of_same (by omega) fun x _ most => grown_memory (by omega)
      exact tail ⟨present, header.2.mpr (own.2.mp none)⟩
    right
    rw [extend_granted low answer, if_neg still]
    by_cases fresh_ : s.first = 0
    · have empty : blocks = [] := by
        refine tiled.positive.resolve_left fun positive => ?_
        rw [fresh_] at positive
        exact absurd positive (Nat.lt_irrefl 0)
      subst empty
      have first : (s.grown fresh (s.need last size)).first = s.brk := if_pos fresh_
      have given : Given s (((s.grown fresh (s.need last size)).setSize s.brk size).setUsed s.brk 1) ([] ++ [])
          ([] ++ [⟨size.toNat, true⟩]) (s.brk + 8) size := by
        refine end_given tiled nofun (by omega) unit ?_ ?_ ?_ ?_ (fun x below => grown_memory below) ?_ rfl ?_ ?_ ?_
        · rw [first]
          rfl
        · exact tiles_nil
        · rw [first]
          rfl
        · exact fun e => Iff.rfl
        · change (s.brk + s.need last size).toNat = _
          omega
        · change (s.brk + s.need last size).toNat ≤ _
          omega
        · rw [first]
          exact ⟨tiled.ends.1, tiled.ends.2.2⟩
        · change 8 ∣ (s.brk + s.need last size).toNat
          rw [more]
          exact Nat.dvd_add tiled.ends.2.2 (Nat.dvd_add unit (Nat.dvd_refl 8))
      exact ⟨s.brk, _, _, rfl, given⟩
    · obtain ⟨start, aligned, whole⟩ := tiled.begins.resolve_left fun none => fresh_ none.1
      have reaches := tiled.whole
      rw [whole] at reaches
      have first : (s.grown fresh (s.need last size)).first = s.first := if_neg fresh_
      have given : Given s (((s.grown fresh (s.need last size)).setSize s.brk size).setUsed s.brk 1) (blocks ++ [])
          (blocks ++ [⟨size.toNat, true⟩]) (s.brk + 8) size := by
        refine end_given (by rwa [List.append_nil]) nofun (by omega) unit ?_ ?_ ?_ ?_
          (fun x below => grown_memory below) ?_ rfl ?_ ?_ ?_
        · rw [first]
          exact reaches
        · rw [first, List.append_nil]
          exact tiled.tiles
        · rw [first, List.append_nil]
          exact reaches
        · intro e
          rw [first]
        · change (s.brk + s.need last size).toNat = _
          omega
        · change (s.brk + s.need last size).toNat ≤ _
          omega
        · rw [first]
          exact ⟨start, aligned⟩
        · change 8 ∣ (s.brk + s.need last size).toNat
          rw [more]
          exact Nat.dvd_add tiled.ends.2.2 (Nat.dvd_add unit (Nat.dvd_refl 8))
      rw [List.append_nil] at given
      exact ⟨s.brk, _, _, rfl, given⟩

/-- A search that has passed all blocks leaves the last one for the growth when it is
free. -/
theorem extend_given (tiled : s.Tiled blocks) (kind : Kind kernel s)
    (finds : Finds s.first 0 size blocks (.passed last)) (most : size.toNat ≤ 0x7FFFFFF0) (unit : 8 ∣ size.toNat) :
    s.extend kernel last size = (0, s) ∨
      ∃ w t next, s.extend kernel last size = (w + 8, t) ∧ Given s t blocks next (w + 8) size := by
  obtain ⟨small, ends⟩ := finds
  by_cases tail : last ≠ 0 ∧ s.usedOf last = 0
  · obtain ⟨before, b, rfl, here⟩ := ends.resolve_left fun none => tail.1 none.2
    have back := (tiles_append.mp tiled.tiles).2
    rw [← here] at back
    have free : b.used = false := (tiles_cons.mp back).1.2.mp tail.2
    exact extend_tail tiled kind here (small b (List.mem_append_right _ List.mem_cons_self) free) most unit tail
  · exact extend_behind tiled kind ends most unit tail

/-! ## Calls -/

theorem rounded_toNat {asked : Word} (most : asked.toNat ≤ 0x7FFFFFF0) :
    ((asked + 7) &&& ~~~7).toNat = (asked.toNat + 7) / 8 * 8 := by
  have whole := Word.and_not_add_and (asked + 7) 7
  have low : ((asked + 7) &&& 7).toNat = (asked + 7).toNat % 2 ^ 3 := Word.and_low (asked + 7) 3
  have sum : (asked + 7).toNat = asked.toNat + 7 := by
    rw [BitVec.toNat_add]
    have step : (7 : Word).toNat = 7 := rfl
    omega
  omega

/-- An allocation gives a block or changes nothing. -/
theorem memAlloc_given (tiled : s.Tiled blocks) (kind : Kind kernel s) (asked : Word) :
    s.memAlloc kernel asked = some (0, s) ∨
      ∃ p t next, s.memAlloc kernel asked = some (p, t) ∧ Given s t blocks next p asked := by
  unfold memAlloc
  by_cases refused : asked = 0 ∨ asked > 0x7FFFFFF0
  · rw [if_pos refused]
    exact .inl rfl
  · rw [if_neg refused]
    have some_ : 0 < asked.toNat := Nat.pos_of_ne_zero fun zero => refused (.inl (BitVec.eq_of_toNat_eq zero))
    have most : asked.toNat ≤ 0x7FFFFFF0 := Nat.not_lt.mp fun above => refused (.inr above)
    have rounded := rounded_toNat most
    generalize (asked + 7) &&& ~~~7 = size at rounded
    have unit : 8 ∣ size.toNat := ⟨_, rounded.trans (Nat.mul_comm _ _)⟩
    have enlarge : ∀ {t : Program} {next : List Tile} {p : Word}, Given s t blocks next p size ->
        Given s t blocks next p asked := by
      rintro t next p ⟨tiles, ⟨x, b, place, used, large, rest⟩, kept⟩
      exact ⟨tiles, ⟨x, b, place, used, by omega, rest⟩, kept⟩
    obtain ⟨result, found, finds⟩ := search_finds s.first 0 tiled.tiles tiled.whole tiled.positive tiled.enough
    dsimp only
    rw [found]
    cases result with
    | fits w =>
      obtain ⟨before, b, behind, rfl, free, room, here⟩ := finds
      obtain ⟨next, given⟩ := take_given tiled here free room unit
      exact .inr ⟨w + 8, _, next, rfl, enlarge given⟩
    | passed last =>
      rcases extend_given tiled kind finds (by omega) unit with refused | ⟨w, t, next, same, given⟩
      · exact .inl (congrArg some refused)
      · exact .inr ⟨w + 8, t, next, congrArg some same, enlarge given⟩

end Program

end Src32.Libfnd
