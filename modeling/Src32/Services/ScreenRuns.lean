import Src32.Services.ScreenCells

namespace Src32.Services.Screen

/-!
# Runs of the screen

What holds between calls: the cursors are inside, the scroll registers show the ring from
its first row, and halves are paired in the mode that has them.
-/

/-- A position inside the screen. -/
def Inside (columns col row : Nat) : Prop := col < columns ∧ row < rows

/-- The geometry of a display mode, its registers and its cells. -/
structure Frame (display columns cellHeight top : Nat) (registers : Registers) (vram : Nat -> Nat) : Prop where
  mode : display = display40 ∧ columns = 40 ∧ cellHeight = 8 ∨ display = display80 ∧ columns = 80 ∧ cellHeight = 8 ∨
    display = display8x16 ∧ columns = 80 ∧ cellHeight = 16
  ring : top < rows
  scroll : registers.scrollYLo + 256 * registers.scrollYHi = top * cellHeight
  across : registers.scrollXLo = 0 ∧ registers.scrollXHi = 0
  shown : registers.screenMode = display
  paired : display = display8x16 -> PairedRows columns vram

theorem Frame.narrow {display columns cellHeight top : Nat} {registers : Registers} {vram : Nat -> Nat}
    (frame : Frame display columns cellHeight top registers vram) : columns ≤ 80 := by
  rcases frame.mode with ⟨_, columns, _⟩ | ⟨_, columns, _⟩ | ⟨_, columns, _⟩
  · omega
  · omega
  · omega

theorem Frame.low {display columns cellHeight top : Nat} {registers : Registers} {vram : Nat -> Nat}
    (frame : Frame display columns cellHeight top registers vram) : 0 < cellHeight ∧ cellHeight ≤ 16 := by
  rcases frame.mode with ⟨_, _, height⟩ | ⟨_, _, height⟩ | ⟨_, _, height⟩
  · omega
  · omega
  · omega

namespace State

variable {s t u : State}

/-- The state between calls and between the bytes of a text. -/
structure Fine (s : State) : Prop where
  frame : Frame s.display s.columns s.cellHeight s.top s.registers s.vram
  cursor : Inside s.columns s.col s.row
  saved : Inside s.columns s.savedCol s.savedRow
  colors : s.fg < 16 ∧ s.bg < 16
  sequence : s.parser = .csi -> 1 ≤ s.paramCount ∧ s.paramCount ≤ ansiParams ∧ ∀ i, s.params i ≤ ansiMax

/-- A step inside one display mode. -/
structure Kept (s t : State) : Prop where
  fine : Fine t
  columns : t.columns = s.columns
  display : t.display = s.display
  text : TextOnly s.columns s.vram t.vram

theorem Fine.kept (fine : Fine s) : Kept s s := ⟨fine, rfl, rfl, fun _ _ => rfl⟩

theorem Kept.trans (first : Kept s t) (second : Kept t u) : Kept s u := by
  have text := second.text
  rw [first.columns] at text
  exact ⟨second.fine, second.columns.trans first.columns, second.display.trans first.display, first.text.trans text⟩

/-- Both ways of a test. -/
theorem Kept.ite {c : Prop} [Decidable c] (yes : c -> Kept s t) (no : ¬ c -> Kept s u) : Kept s (if c then t else u) := by
  split
  · next holds => exact yes holds
  · next fails => exact no fails

theorem Drawn.kept (drawn : Drawn s t) (fine : Fine s) : Kept s t := by
  have painted : Fine { s with vram := t.vram } :=
    ⟨{ fine.frame with paired := fun wide => drawn.paired wide (fine.frame.paired wide) },
      fine.cursor, fine.saved, fine.colors, fine.sequence⟩
  exact ⟨drawn.same ▸ painted, drawn.columns, drawn.display, drawn.text⟩

theorem Fine.some_columns (fine : Fine s) : 0 < s.columns := Nat.lt_of_le_of_lt (Nat.zero_le s.col) fine.cursor.1

/-! ## Small steps -/

theorem Fine.moved (fine : Fine s) {x y : Nat} (inside : Inside s.columns x y) : Kept s { s with col := x, row := y } :=
  ⟨⟨fine.frame, inside, fine.saved, fine.colors, fine.sequence⟩, rfl, rfl, fun _ _ => rfl⟩

theorem Fine.remembered (fine : Fine s) {x y : Nat} (inside : Inside s.columns x y) :
    Kept s { s with savedCol := x, savedRow := y } :=
  ⟨⟨fine.frame, fine.cursor, inside, fine.colors, fine.sequence⟩, rfl, rfl, fun _ _ => rfl⟩

theorem Fine.recolored (fine : Fine s) {front back : Nat} (colors : front < 16 ∧ back < 16) (bold inverse : Bool) :
    Kept s { s with fg := front, bg := back, bold := bold, inverse := inverse } :=
  ⟨⟨fine.frame, fine.cursor, fine.saved, colors, fine.sequence⟩, rfl, rfl, fun _ _ => rfl⟩

theorem Fine.parsed (fine : Fine s) {parser : Parser} (other : parser ≠ .csi) : Kept s { s with parser := parser } :=
  ⟨⟨fine.frame, fine.cursor, fine.saved, fine.colors, fun same => absurd same other⟩, rfl, rfl, fun _ _ => rfl⟩

theorem Fine.cursorShown (fine : Fine s) : Kept s s.showCursor :=
  ⟨⟨{ fine.frame with }, fine.cursor, fine.saved, fine.colors, fine.sequence⟩, rfl, rfl, fun _ _ => rfl⟩

theorem clamp_lt {size : Nat} (some_ : 0 < size) (value : Nat) : clamp value size < size := by
  unfold clamp
  split
  · assumption
  · exact Nat.sub_lt some_ Nat.one_pos

/-! ## Lines -/

/-- The scroll offset fits its two registers. -/
theorem scroll_bytes {top height : Nat} (ring : top < rows) (low : height ≤ 16) :
    top * height % 256 + 256 * (top * height / 256 % 256) = top * height := by
  have most : top * height ≤ rows * 16 := Nat.mul_le_mul (Nat.le_of_lt ring) low
  have small : rows * 16 = 480 := rfl
  omega

theorem Fine.scrolled (fine : Fine s) {top : Nat} (ring : top < rows) : Kept s (setScroll { s with top := top, col := 0 }) :=
  ⟨⟨{ fine.frame with ring := ring, scroll := scroll_bytes ring fine.frame.low.2 },
    ⟨fine.some_columns, fine.cursor.2⟩, fine.saved, fine.colors, fine.sequence⟩, rfl, rfl, fun _ _ => rfl⟩

theorem Fine.newline (fine : Fine s) : Kept s s.newline := by
  unfold State.newline
  by_cases room : s.row + 1 < rows
  · rw [if_pos room]
    exact fine.moved ⟨fine.some_columns, room⟩
  · rw [if_neg room]
    have scrolled : Kept s (setScroll { s with top := (s.top + 1) % rows, col := 0 }) := fine.scrolled (Nat.mod_lt _ (by decide))
    exact scrolled.trans ((clearRow_drawn scrolled.fine.frame.narrow _).kept scrolled.fine)

theorem Fine.newline_col (fine : Fine s) : s.newline.col = 0 := by
  unfold State.newline
  by_cases room : s.row + 1 < rows
  · rw [if_pos room]
  · rw [if_neg room]
    have drawn := clearRow_drawn (s := setScroll { s with col := 0, top := (s.top + 1) % rows }) fine.frame.narrow (rows - 1)
    rw [drawn.same]
    rfl

theorem Fine.advance (fine : Fine s) : Kept s s.advance := by
  unfold State.advance
  by_cases last : s.col + 1 = s.columns
  · rw [if_pos last]
    exact fine.newline
  · rw [if_neg last]
    exact fine.moved ⟨Nat.lt_of_le_of_ne fine.cursor.1 last, fine.cursor.2⟩

theorem Fine.put (fine : Fine s) (ch : Nat) : Kept s (s.putCell s.col s.row ch) :=
  (putCell_drawn fine.frame.narrow fine.cursor.1 s.row ch).kept fine

/-! ## Characters -/

theorem Fine.wideRoom (fine : Fine s) (wide : s.display = display8x16) :
    Kept s s.wideRoom ∧ s.wideRoom.col + 1 < s.wideRoom.columns := by
  have full : s.columns = 80 := by
    rcases fine.frame.mode with ⟨other, _⟩ | ⟨other, _⟩ | ⟨_, full, _⟩
    · rw [other] at wide
      exact absurd wide (by decide)
    · rw [other] at wide
      exact absurd wide (by decide)
    · exact full
  unfold State.wideRoom
  by_cases last : s.col + 1 = s.columns
  · rw [if_pos last]
    have put := fine.put 0x20
    have next := put.fine.newline
    refine ⟨put.trans next, ?_⟩
    rw [put.fine.newline_col, next.columns, put.columns, full]
    decide
  · rw [if_neg last]
    have inside := fine.cursor.1
    exact ⟨fine.kept, Nat.lt_of_le_of_ne inside last⟩

theorem Fine.putWide (fine : Fine s) (wide : s.display = display8x16) (unit : Nat) : Kept s (s.putWide unit) := by
  obtain ⟨first, room⟩ := fine.wideRoom wide
  have drawn := halves_drawn (first.display.trans wide) first.fine.frame.narrow room s.wideRoom.row (unit >>> 8) (unit &&& 0xFF)
  have halves := first.trans (drawn.kept first.fine)
  have once := halves.trans halves.fine.advance
  exact once.trans once.fine.advance

theorem Fine.tab (fine : Fine s) (n : Nat) : Kept s (State.tab n s) := by
  induction n generalizing s with
  | zero => exact fine.kept
  | succ n ih =>
    have put := fine.put 0x20
    have step := put.trans put.fine.advance
    unfold State.tab
    dsimp only
    by_cases more : (s.putCell s.col s.row 0x20).advance.col % 8 ≠ 0
    · rw [if_pos more]
      exact step.trans (ih step.fine)
    · rw [if_neg more]
      exact step

theorem Fine.backspace (fine : Fine s) : Kept s s.backspace := by
  have tail : ∀ {t : State}, Fine t -> Kept t (if t.isPairTail t.col t.row then { t with col := t.col - 1 } else t) := by
    intro t fine
    split
    · exact fine.moved ⟨Nat.lt_of_le_of_lt (Nat.sub_le _ 1) fine.cursor.1, fine.cursor.2⟩
    · exact fine.kept
  unfold State.backspace
  by_cases some_ : s.col ≠ 0
  · rw [if_pos some_]
    have left := fine.moved (x := s.col - 1) ⟨Nat.lt_of_le_of_lt (Nat.sub_le _ 1) fine.cursor.1, fine.cursor.2⟩
    exact left.trans (tail left.fine)
  rw [if_neg some_]
  by_cases below : s.row ≠ 0
  · rw [if_pos below]
    have up := fine.moved (x := s.columns - 1) ⟨Nat.sub_lt fine.some_columns Nat.one_pos, Nat.lt_of_le_of_lt (Nat.sub_le s.row 1) fine.cursor.2⟩
    exact up.trans (tail up.fine)
  · rw [if_neg below]
    exact fine.kept

theorem Fine.putScalar (fine : Fine s) (wideHas : Nat -> Bool) (cp : Nat) : Kept s (s.putScalar wideHas cp) := by
  unfold State.putScalar
  by_cases line : cp = 0x0A
  · rw [if_pos line]
    exact fine.newline
  rw [if_neg line]
  by_cases start : cp = 0x0D
  · rw [if_pos start]
    exact fine.moved ⟨fine.some_columns, fine.cursor.2⟩
  rw [if_neg start]
  by_cases back : cp = 0x08
  · rw [if_pos back]
    exact fine.backspace
  rw [if_neg back]
  by_cases tab : cp = 0x09
  · rw [if_pos tab]
    exact fine.tab 8
  rw [if_neg tab]
  by_cases control : cp < 0x20 ∨ cp = 0x7F ∨ 0x80 ≤ cp ∧ cp < 0xA0
  · rw [if_pos control]
    exact fine.kept
  rw [if_neg control]
  by_cases wide : s.display = display8x16 ∧ cp < 0x10000 ∧ wideHas cp
  · rw [if_pos wide]
    exact fine.putWide wide.1 cp
  · rw [if_neg wide]
    have put := fine.put (if 0xE000 ≤ cp ∧ cp ≤ 0xE0FF then cp - 0xE000 else if cp < 0x7F then cp else substitute)
    exact put.trans put.fine.advance

/-!
## Calls of the screen

Every byte of a text and every call keeps the state fine, and the initialisation makes
any state fine.
-/

variable {wideHas : Nat -> Bool}

/-! ## Escape sequences -/

theorem Fine.sgrParam (fine : Fine s) (p : Nat) : Kept s (s.sgrParam p) := by
  have fg : ∀ {front : Nat}, front < 16 -> Kept s { s with fg := front } :=
    fun front => fine.recolored ⟨front, fine.colors.2⟩ s.bold s.inverse
  have bg : ∀ {back : Nat}, back < 16 -> Kept s { s with bg := back } :=
    fun back => fine.recolored ⟨fine.colors.1, back⟩ s.bold s.inverse
  have flags := fine.recolored fine.colors
  unfold State.sgrParam
  refine Kept.ite (fun _ => fine.recolored (by decide) false false) fun _ => ?_
  refine Kept.ite (fun _ => flags true s.inverse) fun _ => ?_
  refine Kept.ite (fun _ => flags false s.inverse) fun _ => ?_
  refine Kept.ite (fun _ => flags s.bold true) fun _ => ?_
  refine Kept.ite (fun _ => flags s.bold false) fun _ => ?_
  refine Kept.ite (fun _ => fg (by omega)) fun _ => ?_
  refine Kept.ite (fun _ => bg (by omega)) fun _ => ?_
  refine Kept.ite (fun _ => fg (by omega)) fun _ => ?_
  refine Kept.ite (fun _ => bg (by omega)) fun _ => ?_
  refine Kept.ite (fun _ => fg (by decide)) fun _ => ?_
  exact Kept.ite (fun _ => bg (by decide)) fun _ => fine.kept

theorem Fine.sgrLoop (fine : Fine s) (n : Nat) (list : List Nat) : Kept s (State.sgrLoop n list s) := by
  induction n generalizing s list with
  | zero => exact fine.kept
  | succ n ih =>
    cases list with
    | nil => exact fine.kept
    | cons p rest =>
      unfold State.sgrLoop
      by_cases extended : p = 38 ∨ p = 48
      · rw [if_pos extended]
        cases rest with
        | nil => exact fine.kept
        | cons kind operands =>
          dsimp only
          split
          · exact fine.kept
          · exact ih fine _
      · rw [if_neg extended]
        have step := fine.sgrParam p
        exact step.trans (ih step.fine rest)

/-- The final bytes move the cursor, erase cells or use the saved cursor. -/
theorem Fine.csiSingle (fine : Fine s) (ch : Nat) : Kept s (s.csiSingle ch) := by
  have goto : ∀ {x y : Nat}, x < s.columns -> y < rows -> Kept s { s with col := x, row := y } :=
    fun x y => fine.moved ⟨x, y⟩
  have erase := fun first stop => (eraseCells_drawn fine.frame.narrow fine.some_columns first stop).kept fine
  have left : ∀ {v : Nat}, (if v > s.col then 0 else s.col - v) < s.columns := by
    intro v
    split
    · exact fine.some_columns
    · exact Nat.lt_of_le_of_lt (Nat.sub_le _ v) fine.cursor.1
  have up : ∀ {v : Nat}, (if v > s.row then 0 else s.row - v) < rows := by
    intro v
    split
    · decide
    · exact Nat.lt_of_le_of_lt (Nat.sub_le _ v) fine.cursor.2
  have clampRow : ∀ v, clamp v rows < rows := clamp_lt (by decide)
  have clampCol := clamp_lt fine.some_columns
  unfold State.csiSingle
  refine Kept.ite (fun _ => goto fine.cursor.1 up) fun _ => ?_
  refine Kept.ite (fun _ => goto fine.cursor.1 (clampRow _)) fun _ => ?_
  refine Kept.ite (fun _ => goto (clampCol _) fine.cursor.2) fun _ => ?_
  refine Kept.ite (fun _ => goto left fine.cursor.2) fun _ => ?_
  refine Kept.ite (fun _ => goto fine.some_columns (clampRow _)) fun _ => ?_
  refine Kept.ite (fun _ => goto fine.some_columns up) fun _ => ?_
  refine Kept.ite (fun _ => goto (clampCol _) fine.cursor.2) fun _ => ?_
  refine Kept.ite (fun _ => goto fine.cursor.1 (clampRow _)) fun _ => ?_
  refine Kept.ite (fun _ => ?_) fun _ => ?_
  · refine Kept.ite (fun _ => erase _ _) fun _ => ?_
    refine Kept.ite (fun _ => erase _ _) fun _ => ?_
    exact Kept.ite (fun _ => erase _ _) fun _ => fine.kept
  refine Kept.ite (fun _ => ?_) fun _ => ?_
  · refine Kept.ite (fun _ => erase _ _) fun _ => ?_
    refine Kept.ite (fun _ => erase _ _) fun _ => ?_
    exact Kept.ite (fun _ => erase _ _) fun _ => fine.kept
  refine Kept.ite (fun _ => Kept.ite (fun _ => fine.remembered fine.cursor) fun _ => fine.kept) fun _ => ?_
  exact Kept.ite (fun _ => Kept.ite (fun _ => fine.moved fine.saved) fun _ => fine.kept) fun _ => fine.kept

theorem Fine.csiFinal (fine : Fine s) (ch : Nat) : Kept s (s.csiFinal ch) := by
  unfold State.csiFinal
  by_cases invalid : s.invalid
  · rw [if_pos invalid]
    exact fine.kept
  rw [if_neg invalid]
  by_cases hidden : s.privateMode
  · rw [if_pos hidden]
    split
    · exact ⟨⟨{ fine.frame with }, fine.cursor, fine.saved, fine.colors, fine.sequence⟩, rfl, rfl, fun _ _ => rfl⟩
    · exact fine.kept
  rw [if_neg hidden]
  by_cases colors : ch = 0x6D
  · rw [if_pos colors]
    exact fine.sgrLoop _ _
  rw [if_neg colors]
  by_cases position : ch = 0x48 ∨ ch = 0x66
  · rw [if_pos position]
    split
    · exact fine.kept
    · exact fine.moved ⟨clamp_lt fine.some_columns _, clamp_lt (by decide) _⟩
  rw [if_neg position]
  split
  · exact fine.kept
  · exact fine.csiSingle ch

theorem Fine.escapeByte (fine : Fine s) (b : Nat) : Kept s (s.escapeByte b) := by
  unfold State.escapeByte
  split
  · exact ⟨⟨fine.frame, fine.cursor, fine.saved, fine.colors, fun _ => ⟨Nat.le_refl 1, show 1 ≤ ansiParams by decide, fun _ => Nat.zero_le _⟩⟩, rfl, rfl, fun _ _ => rfl⟩
  split
  · exact ⟨⟨fine.frame, fine.cursor, fine.saved, fine.colors, fun same => Parser.noConfusion same⟩, rfl, rfl, fun _ _ => rfl⟩
  have ground : Kept s { s with parser := .ground } := fine.parsed (by decide)
  split
  · exact ground.trans (ground.fine.remembered fine.cursor)
  split
  · exact ground.trans (ground.fine.moved fine.saved)
  split
  · exact fine.parsed (by decide)
  · exact ground

theorem Fine.digitByte (fine : Fine s) (b : Nat) : Kept s (s.digitByte b) := by
  have started : Kept s { s with paramStarted := true } :=
    ⟨⟨fine.frame, fine.cursor, fine.saved, fine.colors, fine.sequence⟩, rfl, rfl, fun _ _ => rfl⟩
  unfold State.digitByte
  dsimp only
  split
  · exact ⟨⟨fine.frame, fine.cursor, fine.saved, fine.colors, fine.sequence⟩, rfl, rfl, fun _ _ => rfl⟩
  · next small =>
      refine ⟨⟨fine.frame, fine.cursor, fine.saved, fine.colors, fun same => ?_⟩, rfl, rfl, fun _ _ => rfl⟩
      obtain ⟨low, high, params⟩ := fine.sequence same
      refine ⟨low, high, fun i => ?_⟩
      dsimp only
      by_cases here : i = s.paramCount - 1
      · rw [here, Function.update_self]
        exact Nat.le_of_not_lt small
      · rw [Function.update_of_ne here]
        exact params i

theorem Fine.csiByte (fine : Fine s) (within : s.parser = .csi) (b : Nat) : Kept s (s.csiByte b) := by
  have flagged : ∀ (hidden bad started : Bool), Kept s { s with privateMode := hidden, invalid := bad, paramStarted := started } :=
    fun _ _ _ => ⟨⟨fine.frame, fine.cursor, fine.saved, fine.colors, fine.sequence⟩, rfl, rfl, fun _ _ => rfl⟩
  obtain ⟨low, high, params⟩ := fine.sequence within
  unfold State.csiByte
  split
  · have final := fine.csiFinal b
    exact final.trans (final.fine.parsed (by decide))
  split
  · exact flagged true s.invalid s.paramStarted
  split
  · exact fine.digitByte b
  split
  · dsimp only
    split
    · exact flagged s.privateMode true true
    · next more =>
        refine ⟨⟨fine.frame, fine.cursor, fine.saved, fine.colors, fun _ => ⟨Nat.succ_pos _, ?_, params⟩⟩, rfl, rfl, fun _ _ => rfl⟩
        exact Nat.lt_of_le_of_ne high more
  split
  · have bad := flagged s.privateMode true s.paramStarted
    exact bad.trans (bad.fine.parsed (by decide))
  · exact flagged s.privateMode true s.paramStarted

theorem Fine.ansiByte (fine : Fine s) {b : Nat} (taken : s.ansiByte b = some t) : Kept s t := by
  have parsed := fun (parser : Parser) (other : parser ≠ .csi) => fine.parsed other
  unfold State.ansiByte at taken
  by_cases cancel : b = 0x18 ∨ b = 0x1A
  · rw [if_pos cancel] at taken
    exact Option.some.inj taken ▸ parsed _ (by decide)
  rw [if_neg cancel] at taken
  by_cases text : s.parser = .string ∨ s.parser = .stringEsc
  · rw [if_pos text] at taken
    by_cases closed : s.stringOsc ∧ b = 7 ∨ s.parser = .stringEsc ∧ b = 0x5C
    · rw [if_pos closed] at taken
      exact Option.some.inj taken ▸ parsed _ (by decide)
    · rw [if_neg closed] at taken
      refine Option.some.inj taken ▸ parsed _ ?_
      split
      · decide
      · decide
  rw [if_neg text] at taken
  by_cases escape : b = 0x1B
  · rw [if_pos escape] at taken
    exact Option.some.inj taken ▸ parsed _ (by decide)
  rw [if_neg escape] at taken
  by_cases ground : s.parser = .ground
  · rw [if_pos ground] at taken
    cases taken
  rw [if_neg ground] at taken
  by_cases control : b < 0x20 ∨ b = 0x7F
  · rw [if_pos control] at taken
    exact Option.some.inj taken ▸ fine.kept
  rw [if_neg control] at taken
  by_cases first : s.parser = .escape
  · rw [if_pos first] at taken
    exact Option.some.inj taken ▸ fine.escapeByte b
  rw [if_neg first] at taken
  by_cases intermediate : s.parser = .escIntermediate
  · rw [if_pos intermediate] at taken
    rw [← Option.some.inj taken]
    split
    · exact parsed _ (by decide)
    · exact fine.kept
  rw [if_neg intermediate] at taken
  have csi : s.parser = .csi := by
    cases parser : s.parser with
    | csi => rfl
    | ground => exact absurd parser ground
    | escape => exact absurd parser first
    | escIntermediate => exact absurd parser intermediate
    | string => exact absurd (.inl parser) text
    | stringEsc => exact absurd (.inr parser) text
  exact Option.some.inj taken ▸ fine.csiByte csi b

/-! ## Texts -/

theorem Fine.writeLoop (fine : Fine s) (text : List Nat) : Kept s (Screen.writeLoop wideHas s text) := by
  induction length : text.length using Nat.strongRecOn generalizing s text with
  | ind n ih =>
    cases text with
    | nil =>
      unfold Screen.writeLoop
      exact fine.kept
    | cons b rest =>
      rw [Screen.writeLoop.eq_def]
      dsimp only
      cases taken : s.ansiByte b with
      | some t =>
        have step := fine.ansiByte taken
        exact step.trans (ih rest.length (length ▸ Nat.lt_succ_self _) step.fine rest rfl)
      | none =>
        have step := fine.putScalar wideHas (decode (need b) (lead b) rest).1
        exact step.trans (ih _ (length ▸ decode_shorter b rest) step.fine _ rfl)

theorem Fine.write (fine : Fine s) (text : List Nat) : Kept s (Screen.write wideHas s text) := by
  have loop : Kept s (Screen.writeLoop wideHas s text) := fine.writeLoop text
  exact loop.trans loop.fine.cursorShown

/-! ## Clearing -/

/-- What a clear needs: the geometry of a mode, a saved cursor inside and colors. -/
structure Clearable (s : State) : Prop where
  mode : s.display = display40 ∧ s.columns = 40 ∧ s.cellHeight = 8 ∨ s.display = display80 ∧ s.columns = 80 ∧ s.cellHeight = 8 ∨
    s.display = display8x16 ∧ s.columns = 80 ∧ s.cellHeight = 16
  across : s.registers.scrollXLo = 0 ∧ s.registers.scrollXHi = 0
  shown : s.registers.screenMode = s.display
  saved : Inside s.columns s.savedCol s.savedRow
  colors : s.fg < 16 ∧ s.bg < 16

theorem Clearable.clear (ready : Clearable s) : Kept s s.clear := by
  have narrow : s.columns ≤ 80 := by
    rcases ready.mode with ⟨_, columns, _⟩ | ⟨_, columns, _⟩ | ⟨_, columns, _⟩
    · omega
    · omega
    · omega
  have some_ : 0 < s.columns := Nat.lt_of_le_of_lt (Nat.zero_le _) ready.saved.1
  let home := setScroll { s with parser := .ground, top := 0, col := 0, row := 0 }
  have landed : ∀ t : State, Drawn home t -> (s.display = display8x16 -> PairedRows s.columns t.vram) -> Kept s t := by
    intro t drawn paired
    have frame : Frame s.display s.columns s.cellHeight 0 home.registers t.vram := by
      refine ⟨ready.mode, by decide, ?_, ready.across, ready.shown, paired⟩
      show 0 * s.cellHeight % 256 + 256 * (0 * s.cellHeight / 256 % 256) = 0 * s.cellHeight
      rw [Nat.zero_mul]
    have fine : Fine { home with vram := t.vram } :=
      ⟨frame, ⟨some_, show 0 < rows by decide⟩, ready.saved, ready.colors, fun same => Parser.noConfusion same⟩
    exact ⟨drawn.same ▸ fine, drawn.columns, drawn.display, drawn.text⟩
  have cleared := landed home.clearRows (clearRows_drawn narrow) fun wide => clearRows_paired (s := home) wide narrow rfl
  exact cleared.trans cleared.fine.cursorShown

theorem Fine.clearable (fine : Fine s) : Clearable s :=
  ⟨fine.frame.mode, fine.frame.across, fine.frame.shown, fine.saved, fine.colors⟩

/-- A change of the mode needs nothing of the cells. -/
theorem setDisplay_fine (colors : s.fg < 16 ∧ s.bg < 16) {mode : Nat} (done : s.setDisplay mode = some t) :
    Fine t ∧ TextOnly t.columns s.vram t.vram := by
  unfold setDisplay at done
  by_cases bad : mode ≠ display40 ∧ mode ≠ display80 ∧ mode ≠ display8x16
  · rw [if_pos bad] at done
    cases done
  rw [if_neg bad] at done
  rw [← Option.some.inj done]
  have geometry : mode = display40 ∧ (if mode = display40 then 40 else 80) = 40 ∧ (if mode = display8x16 then 16 else 8) = 8 ∨
      mode = display80 ∧ (if mode = display40 then 40 else 80) = 80 ∧ (if mode = display8x16 then 16 else 8) = 8 ∨
      mode = display8x16 ∧ (if mode = display40 then 40 else 80) = 80 ∧ (if mode = display8x16 then 16 else 8) = 16 := by
    by_cases first : mode = display40
    · rw [first]
      exact .inl (by decide)
    by_cases second : mode = display80
    · rw [second]
      exact .inr (.inl (by decide))
    · have third : mode = display8x16 := not_not.mp fun other => bad ⟨first, second, other⟩
      rw [third]
      exact .inr (.inr (by decide))
  have wide : 0 < if mode = display40 then 40 else 80 := by
    split
    · decide
    · decide
  have kept := Clearable.clear (s := { s with
    display := mode
    columns := if mode = display40 then 40 else 80
    cellHeight := if mode = display8x16 then 16 else 8
    savedCol := 0
    savedRow := 0
    registers := { s.registers with screenMode := mode, scrollXLo := 0, scrollXHi := 0 } })
    ⟨geometry, ⟨rfl, rfl⟩, rfl, ⟨wide, show 0 < rows by decide⟩, colors⟩
  refine ⟨kept.fine, ?_⟩
  rw [kept.columns]
  exact kept.text

theorem init_fine (s : State) : Fine s.init := by
  let colored := s.setColor 15 0
  let ready : State := { colored with registers := { colored.registers with
    displayMode := 1
    disable := 0
    scrollXLo := 0
    scrollXHi := 0
    cursorEnable := 1
    cursorBlink := 10 } }
  have unfolded : s.init = (ready.setDisplay display80).getD ready := rfl
  rw [unfolded]
  cases done : ready.setDisplay display80 with
  | none => exact absurd done (Option.some_ne_none _)
  | some t => exact (setDisplay_fine (s := ready) (show 15 < 16 ∧ 0 < 16 by decide) done).1

/-! ## Calls -/

/-- A call keeps the state fine and writes no cell outside the text rows. -/
theorem Fine.call (fine : Fine s) (c : Call) :
    Fine (Screen.call wideHas s c) ∧ TextOnly (Screen.call wideHas s c).columns s.vram (Screen.call wideHas s c).vram := by
  have close : ∀ {t : State}, Kept s t -> Fine t ∧ TextOnly t.columns s.vram t.vram := by
    intro t kept
    refine ⟨kept.fine, ?_⟩
    rw [kept.columns]
    exact kept.text
  cases c with
  | write text => exact close (fine.write text)
  | clear => exact close fine.clearable.clear
  | setCursor x y =>
    unfold Screen.call
    dsimp only
    by_cases outside : x ≥ s.columns ∨ y ≥ rows
    · rw [if_pos outside]
      exact close fine.kept
    · rw [if_neg outside]
      obtain ⟨left, right⟩ := not_or.mp outside
      have moved := fine.moved (x := x) (y := y) ⟨Nat.lt_of_not_le left, Nat.lt_of_not_le right⟩
      exact close (moved.trans moved.fine.cursorShown)
  | setColor front back =>
    unfold Screen.call
    dsimp only
    by_cases outside : front > 15 ∨ back > 15
    · rw [if_pos outside]
      exact close fine.kept
    · rw [if_neg outside]
      exact close (fine.recolored (by omega) false false)
  | setDisplay mode =>
    unfold Screen.call
    dsimp only
    cases done : s.setDisplay mode with
    | none => exact close fine.kept
    | some t => exact setDisplay_fine fine.colors done

theorem Fine.calls (fine : Fine s) (list : List Call) : Fine (Screen.calls wideHas s list) := by
  unfold Screen.calls
  induction list generalizing s with
  | nil => exact fine
  | cons c list ih => exact ih (fine.call c).1

end State

end Src32.Services.Screen
