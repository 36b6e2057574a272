import Src32.Lib.Halves
import Src32.Services.Screen

namespace Src32.Services.Screen

/-!
# Cells of the screen

Where a cell is written only the three planes of the text rows change, and the halves of
a row stay paired.
-/

/-! ## Addresses -/

/-- The bytes of the text rows in the three planes. -/
def InText (columns address : Nat) : Prop :=
  ∃ i < rows * columns, address = textStart + i ∨ address = textStart + i + pcgFg ∨ address = textStart + i + pcgBg

/-- The kind of a cell in a ring row. -/
def kindOf (columns : Nat) (vram : Nat -> Nat) (r x : Nat) : Nat :=
  vram (textStart + (r * columns + x) + pcgFg) >>> wideKindShift

/-- Halves are paired in all rows. -/
def PairedRows (columns : Nat) (vram : Nat -> Nat) : Prop := ∀ r < rows, Halves.Paired columns (kindOf columns vram r)

theorem index_lt {columns r x : Nat} (row : r < rows) (inside : x < columns) : r * columns + x < rows * columns := by
  have below : (r + 1) * columns ≤ rows * columns := Nat.mul_le_mul_right _ row
  rw [Nat.add_mul, Nat.one_mul] at below
  omega

theorem index_small {columns i : Nat} (narrow : columns ≤ 80) (inside : i < rows * columns) : i < 4096 := by
  have most : rows * columns ≤ rows * 80 := Nat.mul_le_mul_left _ narrow
  exact Nat.lt_of_lt_of_le inside (Nat.le_trans most (by decide))

theorem index_inj {columns r x r' x' : Nat} (inside : x < columns) (inside' : x' < columns) :
    r * columns + x = r' * columns + x' ↔ r = r' ∧ x = x' := by
  constructor
  · intro same
    have some_ : 0 < columns := Nat.lt_of_le_of_lt (Nat.zero_le x) inside
    have row : (r * columns + x) / columns = (r' * columns + x') / columns := congrArg (· / columns) same
    rw [Nat.add_comm, Nat.add_mul_div_right _ _ some_, Nat.div_eq_of_lt inside, Nat.add_comm _ x',
      Nat.add_mul_div_right _ _ some_, Nat.div_eq_of_lt inside', Nat.zero_add, Nat.zero_add] at row
    subst row
    exact ⟨rfl, Nat.add_left_cancel same⟩
  · rintro ⟨rfl, rfl⟩
    rfl

namespace State

variable {s : State} {vram : Nat -> Nat}

theorem ringRow_lt (s : State) (y : Nat) : s.ringRow y < rows := Nat.mod_lt _ (by decide)

theorem cellAddress_eq (s : State) (x y : Nat) : s.cellAddress x y = textStart + (s.ringRow y * s.columns + x) := by
  unfold cellAddress
  rw [Nat.add_assoc]

theorem color_lt (index : Nat) : color index < 64 := by
  unfold color
  rw [List.getD_eq_getElem?_getD]
  cases found : colors[index]? with
  | none => decide
  | some value =>
    have all : ∀ c ∈ colors, c < 64 := by decide
    exact all value (List.mem_of_getElem? found)

variable {x y kind r x' i : Nat}

/-- The attribute of a cell holds its kind. -/
theorem attribute_kind {color : Nat} (small : color < 64) (two : kind < 4) :
    ((color ||| kind <<< wideKindShift) % 256) >>> wideKindShift = kind := by
  have all : ∀ color < 64, ∀ kind < 4, ((color ||| kind <<< wideKindShift) % 256) >>> wideKindShift = kind := by decide
  exact all color small kind two

theorem blank_kind (value : Nat) : ((value &&& 0x3F) % 256) >>> wideKindShift = 0 := by
  have low : value &&& 0x3F ≤ 0x3F := Nat.and_le_right
  rw [Nat.mod_eq_of_lt (by omega), Nat.shiftRight_eq_div_pow]
  exact Nat.div_eq_of_lt (Nat.lt_of_le_of_lt low (by decide))

/-! ## Writes -/

theorem poke_of_ne {address value other : Nat} (differs : other ≠ address) : poke vram address value other = vram other :=
  Function.update_of_ne differs _ _

theorem poke_self (address value : Nat) : poke vram address value address = value % 256 := Function.update_self ..

/-- The kinds after a cell is filled. -/
theorem fill_kind (s : State) (ch : Nat) {j : Nat} (small : i < 4096) (other : j < 4096) (two : kind < 4) :
    s.fill vram (textStart + i) ch kind (textStart + j + pcgFg) >>> wideKindShift =
      if j = i then kind else vram (textStart + j + pcgFg) >>> wideKindShift := by
  unfold fill
  rw [poke_of_ne (show textStart + j + pcgFg ≠ textStart + i + pcgBg by unfold pcgFg pcgBg; omega)]
  by_cases same : j = i
  · rw [if_pos same, same, poke_self]
    refine attribute_kind ?_ two
    split
    · exact color_lt _
    · exact color_lt _
  · rw [if_neg same, poke_of_ne (by omega), poke_of_ne (show textStart + j + pcgFg ≠ textStart + i by unfold pcgFg; omega)]

theorem blankHalf_kind {j : Nat} (small : i < 4096) (other : j < 4096) :
    blankHalf vram (textStart + i) (textStart + j + pcgFg) >>> wideKindShift =
      if j = i then 0 else vram (textStart + j + pcgFg) >>> wideKindShift := by
  unfold blankHalf
  by_cases same : j = i
  · rw [if_pos same, same, poke_self]
    exact blank_kind _
  · rw [if_neg same, poke_of_ne (by omega), poke_of_ne (show textStart + j + pcgFg ≠ textStart + i by unfold pcgFg; omega)]

/-- A write that stays in the planes of one cell. -/
def CellOnly (i : Nat) (vram after : Nat -> Nat) : Prop :=
  ∀ address, address ≠ textStart + i -> address ≠ textStart + i + pcgFg -> address ≠ textStart + i + pcgBg ->
    after address = vram address

theorem fill_only (s : State) (ch kind i : Nat) : CellOnly i vram (s.fill vram (textStart + i) ch kind) := by
  intro address first second third
  unfold fill
  rw [poke_of_ne third, poke_of_ne second, poke_of_ne first]

theorem blankHalf_only (i : Nat) : CellOnly i vram (blankHalf vram (textStart + i)) := by
  intro address first second _
  unfold blankHalf
  rw [poke_of_ne second, poke_of_ne first]

/-- Nothing outside the text rows changes. -/
def TextOnly (columns : Nat) (vram after : Nat -> Nat) : Prop :=
  ∀ address, ¬ InText columns address -> after address = vram address

theorem CellOnly.textOnly {columns : Nat} {after : Nat -> Nat} (only : CellOnly i vram after)
    (inside : i < rows * columns) :
    TextOnly columns vram after := by
  intro address outside
  exact only address (fun same => outside ⟨i, inside, .inl same⟩) (fun same => outside ⟨i, inside, .inr (.inl same)⟩)
    fun same => outside ⟨i, inside, .inr (.inr same)⟩

theorem TextOnly.trans {columns : Nat} {middle after : Nat -> Nat} (first : TextOnly columns vram middle)
    (second : TextOnly columns middle after) : TextOnly columns vram after :=
  fun address outside => (second address outside).trans (first address outside)

/-! ## One cell -/

theorem cellKind_eq (wide : s.display = display8x16) (x y : Nat) :
    s.cellKind x y = kindOf s.columns s.vram (s.ringRow y) x := by
  unfold cellKind kindOf
  rw [if_pos wide, cellAddress_eq]

theorem breakPair_textOnly (inside : x < s.columns) : TextOnly s.columns s.vram (s.breakPair x y).vram := by
  unfold breakPair
  dsimp only
  split
  · next halves =>
      rw [cellAddress_eq]
      exact (blankHalf_only _).textOnly (index_lt (s.ringRow_lt y) halves.2.1)
  · split
    · rw [cellAddress_eq]
      exact (blankHalf_only _).textOnly (index_lt (s.ringRow_lt y) (by omega))
    · exact fun _ _ => rfl

theorem putCellKind_textOnly (inside : x < s.columns) (ch kind : Nat) :
    TextOnly s.columns s.vram (s.putCellKind x y ch kind).vram := by
  unfold putCellKind
  dsimp only
  rw [cellAddress_eq]
  have last : ∀ vram, TextOnly s.columns vram (s.fill vram (textStart + (s.ringRow y * s.columns + x)) ch kind) :=
    fun vram => (s.fill_only ch kind _).textOnly (index_lt (s.ringRow_lt y) inside)
  split
  · exact (breakPair_textOnly inside).trans (last _)
  · exact last _

/-- The kinds after the other half is broken off. -/
theorem breakPair_kind (wide : s.display = display8x16) (narrow : s.columns ≤ 80) (inside : x < s.columns)
    (row : r < rows) (inside' : x' < s.columns) : kindOf s.columns (s.breakPair x y).vram r x' =
      if r = s.ringRow y then Halves.breakAt s.columns (kindOf s.columns s.vram r) x x' else kindOf s.columns s.vram r x' := by
  have blank : ∀ other < s.columns, kindOf s.columns (blankHalf s.vram (s.cellAddress other y)) r x' =
      if r = s.ringRow y ∧ x' = other then 0 else kindOf s.columns s.vram r x' := by
    intro other within
    rw [cellAddress_eq]
    unfold kindOf
    rw [blankHalf_kind (index_small narrow (index_lt (s.ringRow_lt y) within)) (index_small narrow (index_lt row inside'))]
    exact if_congr (index_inj inside' within) rfl rfl
  unfold breakPair Halves.breakAt
  dsimp only
  rw [cellKind_eq wide, cellKind_eq wide, cellKind_eq wide]
  by_cases here : r = s.ringRow y
  · rw [if_pos here, ← here]
    by_cases first : kindOf s.columns s.vram r x = kindMsb ∧ x + 1 < s.columns ∧ kindOf s.columns s.vram r (x + 1) = kindLsb
    · rw [if_pos first, if_pos (show _ = 1 ∧ _ ∧ _ = 2 from first), blank _ first.2.1]
      by_cases same : x' = x + 1
      · rw [if_pos ⟨here, same⟩, same, Function.update_self]
      · rw [if_neg fun both => same both.2, Function.update_of_ne same]
    · rw [if_neg first, if_neg (show ¬ (_ = 1 ∧ _ ∧ _ = 2) from first)]
      by_cases second : kindOf s.columns s.vram r x = kindLsb ∧ x ≠ 0 ∧ kindOf s.columns s.vram r (x - 1) = kindMsb
      · rw [if_pos second, if_pos (show _ = 2 ∧ _ ∧ _ = 1 from second), blank _ (by omega)]
        by_cases same : x' = x - 1
        · rw [if_pos ⟨here, same⟩, same, Function.update_self]
        · rw [if_neg fun both => same both.2, Function.update_of_ne same]
      · rw [if_neg second, if_neg (show ¬ (_ = 2 ∧ _ ∧ _ = 1) from second)]
  · rw [if_neg here]
    split
    · next halves => rw [blank _ halves.2.1, if_neg fun both => here both.1]
    · split
      · rw [blank _ (by omega), if_neg fun both => here both.1]
      · rfl

/-- The kinds after a cell is written. -/
theorem putCellKind_kind (wide : s.display = display8x16) (narrow : s.columns ≤ 80) (ch : Nat)
    (inside : x < s.columns) (row : r < rows) (inside' : x' < s.columns) (two : kind < 4) :
    kindOf s.columns (s.putCellKind x y ch kind).vram r x' =
      if r = s.ringRow y then Halves.overwrite s.columns (kindOf s.columns s.vram r) x kind x'
      else kindOf s.columns s.vram r x' := by
  have filled : kindOf s.columns (s.putCellKind x y ch kind).vram r x' =
      if r = s.ringRow y ∧ x' = x then kind else kindOf s.columns (s.breakPair x y).vram r x' := by
    unfold putCellKind kindOf
    dsimp only
    rw [if_pos wide, cellAddress_eq, fill_kind s ch (index_small narrow (index_lt (s.ringRow_lt y) inside))
      (index_small narrow (index_lt row inside')) two]
    exact if_congr (index_inj inside' inside) rfl rfl
  rw [filled, breakPair_kind wide narrow inside row inside']
  unfold Halves.overwrite
  by_cases here : r = s.ringRow y
  · rw [if_pos here, if_pos here]
    by_cases same : x' = x
    · rw [if_pos ⟨here, same⟩, same, Function.update_self]
    · rw [if_neg fun both => same both.2, Function.update_of_ne same]
  · rw [if_neg here, if_neg here, if_neg fun both => here both.1]

/-!
## Drawing on the screen

Rows and areas are drawn cell by cell.  Drawing changes the text planes only and keeps
the halves paired; a cleared screen has no halves.
-/

variable {t : State}

/-- A change of the text rows that keeps the halves paired. -/
structure Drawn (s t : State) : Prop where
  same : t = { s with vram := t.vram }
  text : TextOnly s.columns s.vram t.vram
  paired : s.display = display8x16 -> PairedRows s.columns s.vram -> PairedRows s.columns t.vram

theorem Drawn.refl (s : State) : Drawn s s := ⟨rfl, fun _ _ => rfl, fun _ paired => paired⟩

theorem Drawn.columns (drawn : Drawn s t) : t.columns = s.columns := by
  rw [drawn.same]

theorem Drawn.display (drawn : Drawn s t) : t.display = s.display := by
  rw [drawn.same]

theorem Drawn.trans {u : State} (first : Drawn s t) (second : Drawn t u) : Drawn s u := by
  refine ⟨?_, ?_, fun wide paired => ?_⟩
  · rw [second.same, first.same]
  · have text := second.text
    rw [first.columns] at text
    exact first.text.trans text
  · have kept := second.paired (first.display.trans wide)
    rw [first.columns] at kept
    exact kept (first.paired wide paired)

/-- Cells are drawn one after another. -/
theorem Drawn.foldl {f : State -> Nat -> State} (list : List Nat) (s : State)
    (step : ∀ t : State, t.columns = s.columns -> ∀ i ∈ list, Drawn t (f t i)) : Drawn s (list.foldl f s) := by
  induction list generalizing s with
  | nil => exact Drawn.refl s
  | cons i list ih =>
    have first : Drawn s (f s i) := step s rfl i List.mem_cons_self
    refine first.trans (ih (f s i) fun t columns j member => ?_)
    exact step t (columns.trans first.columns) j (List.mem_cons_of_mem i member)

/-! ## Cells and rows -/

theorem putCell_drawn (narrow : s.columns ≤ 80) (inside : x < s.columns) (y ch : Nat) : Drawn s (s.putCell x y ch) := by
  refine ⟨rfl, putCellKind_textOnly inside ch 0, fun wide paired r row => ?_⟩
  have kinds := fun x' (inside' : x' < s.columns) => putCellKind_kind wide narrow (y := y) ch inside row inside' (show 0 < 4 by decide)
  by_cases here : r = s.ringRow y
  · refine ((paired r row).overwrite_single inside).congr fun x' inside' => ?_
    exact (kinds x' inside').trans (if_pos here)
  · refine (paired r row).congr fun x' inside' => ?_
    exact (kinds x' inside').trans (if_neg here)

theorem clearRow_drawn (narrow : s.columns ≤ 80) (y : Nat) : Drawn s (s.clearRow y) := by
  unfold clearRow
  refine Drawn.foldl _ s fun t columns x member => ?_
  exact putCell_drawn (columns ▸ narrow) (columns ▸ List.mem_range.mp member) y 0x20

theorem eraseCells_drawn (narrow : s.columns ≤ 80) (some_ : 0 < s.columns) (first stop : Nat) : Drawn s (s.eraseCells first stop) := by
  unfold eraseCells
  refine Drawn.foldl _ s fun t columns i _ => ?_
  exact putCell_drawn (columns ▸ narrow) (Nat.mod_lt i (columns ▸ some_)) _ 0x20

/-- The two halves of a character in neighbouring cells. -/
theorem halves_drawn (wide : s.display = display8x16) (narrow : s.columns ≤ 80) (inside : x + 1 < s.columns)
    (y first second : Nat) :
    Drawn s ((s.putCellKind x y first kindMsb).putCellKind (x + 1) y second kindLsb) := by
  refine ⟨rfl, ?_, fun _ paired r row => ?_⟩
  · have start : TextOnly s.columns s.vram (s.putCellKind x y first kindMsb).vram :=
      putCellKind_textOnly (Nat.lt_of_succ_lt inside) first kindMsb
    refine start.trans ?_
    exact putCellKind_textOnly (s := s.putCellKind x y first kindMsb) inside second kindLsb
  have left := fun x' (inside' : x' < s.columns) =>
    putCellKind_kind wide narrow (y := y) first (Nat.lt_of_succ_lt inside) row inside' (show kindMsb < 4 by decide)
  have right := fun x' (inside' : x' < s.columns) =>
    putCellKind_kind (s := s.putCellKind x y first kindMsb) wide narrow (y := y) second inside row inside' (show kindLsb < 4 by decide)
  by_cases here : r = s.ringRow y
  · refine ((paired r row).overwrite_pair inside).congr fun x' inside' => ?_
    refine ((right x' inside').trans (if_pos here)).trans ?_
    exact Halves.overwrite_congr (fun z within => (left z within).trans (if_pos here)) inside inside' kindLsb
  · refine (paired r row).congr fun x' inside' => ?_
    exact ((right x' inside').trans (if_neg here)).trans ((left x' inside').trans (if_neg here))

/-! ## Cleared cells -/

/-- A cell that is no half stays none while cells are cleared. -/
theorem putCell_zero (wide : s.display = display8x16) (narrow : s.columns ≤ 80) (ch : Nat) (inside : x < s.columns)
    (row : r < rows) (inside' : x' < s.columns) (zero : kindOf s.columns s.vram r x' = 0 ∨ r = s.ringRow y ∧ x' = x) :
    kindOf s.columns (s.putCell x y ch).vram r x' = 0 := by
  refine (putCellKind_kind wide narrow ch inside row inside' (show 0 < 4 by decide)).trans ?_
  rcases zero with zero | ⟨here, same⟩
  · split
    · exact Halves.overwrite_zero x zero
    · exact zero
  · rw [if_pos here, same]
    exact Halves.overwrite_self x 0

theorem clearRow_zero (wide : s.display = display8x16) (narrow : s.columns ≤ 80) (row : r < rows)
    (inside : x < s.columns) (zero : kindOf s.columns s.vram r x = 0 ∨ r = s.ringRow y) :
    kindOf s.columns (s.clearRow y).vram r x = 0 := by
  have fold : ∀ (list : List Nat) (t : State), t.display = display8x16 -> t.columns = s.columns -> t.ringRow y = s.ringRow y ->
      (∀ i ∈ list, i < s.columns) -> kindOf s.columns t.vram r x = 0 ∨ r = s.ringRow y ∧ x ∈ list ->
      kindOf s.columns (list.foldl (fun s x => s.putCell x y 0x20) t).vram r x = 0 := by
    intro list
    induction list with
    | nil =>
      intro t _ _ _ _ zero
      rcases zero with zero | ⟨_, member⟩
      · exact zero
      · exact absurd member List.not_mem_nil
    | cons i list ih =>
      intro t wide columns ring within zero
      refine ih (t.putCell i y 0x20) wide columns ring (fun j member => within j (List.mem_cons_of_mem i member)) ?_
      have narrow : t.columns ≤ 80 := columns ▸ narrow
      have here : i < t.columns := columns ▸ within i List.mem_cons_self
      have there : x < t.columns := columns ▸ inside
      have step := putCell_zero (y := y) (r := r) wide narrow 0x20 here row there
      rw [columns, ring] at step
      rcases zero with zero | ⟨same, member⟩
      · exact .inl (step (.inl zero))
      · rcases List.mem_cons.mp member with rfl | member
        · exact .inl (step (.inr ⟨same, rfl⟩))
        · exact .inr ⟨same, member⟩
  unfold clearRow
  refine fold _ s wide rfl rfl (fun i member => List.mem_range.mp member) ?_
  rcases zero with zero | same
  · exact .inl zero
  · exact .inr ⟨same, List.mem_range.mpr inside⟩

/-- All rows cleared. -/
def clearRows (s : State) : State := (List.range rows).foldl (fun s y => s.clearRow y) s

theorem clearRows_drawn (narrow : s.columns ≤ 80) : Drawn s s.clearRows :=
  Drawn.foldl _ s fun _ columns y _ => clearRow_drawn (columns ▸ narrow) y

theorem clearRows_paired (wide : s.display = display8x16) (narrow : s.columns ≤ 80) (top : s.top = 0) :
    PairedRows s.columns s.clearRows.vram := by
  intro r row
  refine Halves.Paired.of_zero fun x inside => ?_
  have fold : ∀ (list : List Nat) (t : State), t.display = display8x16 -> t.columns = s.columns -> t.top = 0 ->
      kindOf s.columns t.vram r x = 0 ∨ r ∈ list -> kindOf s.columns (list.foldl (fun s y => s.clearRow y) t).vram r x = 0 := by
    intro list
    induction list with
    | nil =>
      intro t _ _ _ zero
      rcases zero with zero | member
      · exact zero
      · exact absurd member List.not_mem_nil
    | cons y list ih =>
      intro t wide columns top zero
      have narrow : t.columns ≤ 80 := columns ▸ narrow
      have drawn := clearRow_drawn narrow y
      refine ih (t.clearRow y) (drawn.display.trans wide) (drawn.columns.trans columns) ?_ ?_
      · rw [drawn.same]
        exact top
      have step := clearRow_zero (y := y) wide narrow row (columns ▸ inside)
      rw [columns] at step
      rcases zero with zero | member
      · exact .inl (step (.inl zero))
      · rcases List.mem_cons.mp member with rfl | member
        · refine .inl (step (.inr ?_))
          unfold ringRow
          rw [top, Nat.zero_add, Nat.mod_eq_of_lt row]
        · exact .inr member
  exact fold _ s wide rfl top (.inr (List.mem_range.mpr row))

end State

end Src32.Services.Screen
