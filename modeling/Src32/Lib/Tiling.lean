import Mathlib.Algebra.Order.Ring.Nat
import Mathlib.Data.List.Chain

namespace Src32.Tiling

/-!
# Blocks end to end

A heap is a list of blocks, each with a header in front and used or free.  Free
neighbours merge.
-/

structure Tile where
  size : Nat
  used : Bool
  deriving DecidableEq

/-- The length of blocks and their headers. -/
def span (header : Nat) (blocks : List Tile) : Nat := (blocks.map fun b => header + b.size).sum

/-- The blocks with the places of their headers. -/
def placed (header : Nat) : Nat -> List Tile -> List (Nat × Tile)
  | _, [] => []
  | place, b :: rest => (place, b) :: placed header (place + header + b.size) rest

/-- No two neighbours are free. -/
def Apart (blocks : List Tile) : Prop := blocks.IsChain fun b c => b.used = true ∨ c.used = true

/-- Free neighbours become one block. -/
def merge (header : Nat) : List Tile -> List Tile
  | [] => []
  | [b] => [b]
  | b :: c :: rest =>
    if b.used = false ∧ c.used = false then merge header (⟨b.size + (c.size + header), false⟩ :: rest)
    else b :: merge header (c :: rest)
termination_by blocks => blocks.length

variable {header place : Nat} {blocks : List Tile}

@[simp] theorem span_nil : span header [] = 0 := rfl

@[simp] theorem span_cons (b : Tile) : span header (b :: blocks) = header + b.size + span header blocks := rfl

@[simp] theorem span_append (first second : List Tile) :
    span header (first ++ second) = span header first + span header second := by
  unfold span
  rw [List.map_append, List.sum_append]

theorem length_le_span (positive : 0 < header) : blocks.length ≤ span header blocks := by
  induction blocks with
  | nil => exact Nat.zero_le _
  | cons b rest ih =>
    rw [span_cons, List.length_cons]
    omega

theorem placed_append (first second : List Tile) :
    placed header place (first ++ second) = placed header place first ++ placed header (place + span header first) second := by
  induction first generalizing place with
  | nil => rfl
  | cons b rest ih =>
    rw [List.cons_append, placed, placed, ih, span_cons, List.cons_append]
    congr 3
    omega

variable {b : Tile} {x : Nat}

/-- A block lies inside. -/
theorem placed_inside (member : (x, b) ∈ placed header place blocks) :
    place ≤ x ∧ x + header + b.size ≤ place + span header blocks := by
  induction blocks generalizing place with
  | nil => cases member
  | cons c rest ih =>
    rw [placed, List.mem_cons] at member
    rw [span_cons]
    rcases member with same | later
    · cases same
      omega
    · have inside := ih later
      omega

/-- Where a block lies: the list is cut there. -/
theorem placed_iff : (x, b) ∈ placed header place blocks ↔
    ∃ before behind, blocks = before ++ b :: behind ∧ x = place + span header before := by
  constructor
  · intro member
    induction blocks generalizing place with
    | nil => cases member
    | cons c rest ih =>
      rw [placed, List.mem_cons] at member
      rcases member with same | later
      · cases same
        exact ⟨[], rest, rfl, rfl⟩
      · obtain ⟨before, behind, whole, here⟩ := ih later
        refine ⟨c :: before, behind, by rw [whole, List.cons_append], ?_⟩
        rw [here, span_cons]
        omega
  · rintro ⟨before, behind, rfl, rfl⟩
    rw [placed_append, placed]
    exact List.mem_append_right _ List.mem_cons_self

theorem mem_of_placed (member : (x, b) ∈ placed header place blocks) : b ∈ blocks := by
  obtain ⟨before, behind, rfl, _⟩ := placed_iff.mp member
  exact List.mem_append_right _ List.mem_cons_self

/-- Two blocks at different places do not meet. -/
theorem placed_disjoint {y : Nat} {c : Tile} (first : (x, b) ∈ placed header place blocks)
    (second : (y, c) ∈ placed header place blocks) (less : x < y) : x + header + b.size ≤ y := by
  induction blocks generalizing place with
  | nil => cases first
  | cons d rest ih =>
    rw [placed, List.mem_cons] at first second
    rcases first with same | later
    · cases same
      rcases second with same | later
      · cases same
        omega
      · exact (placed_inside later).1
    · rcases second with same | laterToo
      · cases same
        have inside := (placed_inside later).1
        omega
      · exact ih later laterToo

/-- One block at a place. -/
theorem placed_unique (positive : 0 < header) {c : Tile} (first : (x, b) ∈ placed header place blocks)
    (second : (x, c) ∈ placed header place blocks) : b = c := by
  induction blocks generalizing place with
  | nil => cases first
  | cons d rest ih =>
    rw [placed, List.mem_cons] at first second
    rcases first with same | later
    · cases same
      rcases second with same | later
      · cases same
        rfl
      · have inside := (placed_inside later).1
        omega
    · rcases second with same | laterToo
      · cases same
        have inside := (placed_inside later).1
        omega
      · exact ih later laterToo

/-! ## Merging -/

theorem span_merge : span header (merge header blocks) = span header blocks := by
  fun_induction merge header blocks with
  | case1 => rfl
  | case2 => rfl
  | case3 b c rest free ih =>
    rw [ih, span_cons, span_cons, span_cons]
    dsimp only
    omega
  | case4 b c rest _ ih =>
    rw [span_cons, ih]
    rfl

/-- The first block keeps its mark. -/
theorem merge_head {rest : List Tile} :
    ∃ c others, merge header (b :: rest) = c :: others ∧ c.used = b.used := by
  generalize whole : b :: rest = blocks
  fun_induction merge header blocks generalizing b rest with
  | case1 => cases whole
  | case2 c =>
    cases whole
    exact ⟨c, [], rfl, rfl⟩
  | case3 c d others free ih =>
    cases whole
    obtain ⟨first, left, same, mark⟩ := ih rfl
    exact ⟨first, left, same, mark.trans free.1.symm⟩
  | case4 c d others _ _ =>
    cases whole
    exact ⟨c, _, rfl, rfl⟩

theorem merge_apart : Apart (merge header blocks) := by
  fun_induction merge header blocks with
  | case1 => exact List.isChain_nil
  | case2 b => exact List.isChain_singleton b
  | case3 b c rest free ih => exact ih
  | case4 b c rest marked ih =>
    obtain ⟨d, others, same, mark⟩ := @merge_head header c rest
    rw [same] at ih ⊢
    refine List.isChain_cons_cons.mpr ⟨?_, ih⟩
    rw [mark]
    cases first : b.used with
    | true => exact .inl rfl
    | false =>
      cases second : c.used with
      | true => exact .inr rfl
      | false => exact absurd ⟨first, second⟩ marked

/-- The used blocks stay where they are. -/
theorem placed_merge (used : b.used = true) :
    (x, b) ∈ placed header place (merge header blocks) ↔ (x, b) ∈ placed header place blocks := by
  fun_induction merge header blocks generalizing place with
  | case1 => exact Iff.rfl
  | case2 => exact Iff.rfl
  | case3 c d rest free ih =>
    rw [ih, placed, placed, placed, List.mem_cons, List.mem_cons, List.mem_cons]
    dsimp only
    have first : (x, b) ≠ (place, (⟨c.size + (d.size + header), false⟩ : Tile)) := by
      intro same
      cases same
      cases used
    have second : (x, b) ≠ (place, c) := by
      intro same
      cases same
      rw [free.1] at used
      cases used
    have third : (x, b) ≠ (place + header + c.size, d) := by
      intro same
      cases same
      rw [free.2] at used
      cases used
    rw [or_iff_right first, or_iff_right second, or_iff_right third]
    rw [show place + header + (c.size + (d.size + header)) = place + header + c.size + header + d.size by omega]
  | case4 c d rest _ ih => rw [placed, placed, List.mem_cons, List.mem_cons, ih]

/-- Merging keeps multiples of a unit that divides the header. -/
theorem merge_dvd {unit : Nat} (whole : unit ∣ header) (sizes : ∀ b ∈ blocks, unit ∣ b.size) :
    ∀ b ∈ merge header blocks, unit ∣ b.size := by
  fun_induction merge header blocks with
  | case1 => exact sizes
  | case2 => exact sizes
  | case3 b c rest _ ih =>
    apply ih
    intro d member
    rcases List.mem_cons.mp member with rfl | later
    · exact Nat.dvd_add (sizes b List.mem_cons_self)
        (Nat.dvd_add (sizes c (List.mem_cons_of_mem _ List.mem_cons_self)) whole)
    · exact sizes d (List.mem_cons_of_mem _ (List.mem_cons_of_mem _ later))
  | case4 b c rest _ ih =>
    intro d member
    rcases List.mem_cons.mp member with rfl | later
    · exact sizes d List.mem_cons_self
    · exact ih (fun e inside => sizes e (List.mem_cons_of_mem _ inside)) d later

end Src32.Tiling
