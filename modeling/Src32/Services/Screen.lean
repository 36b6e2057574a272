import Mathlib.Logic.Function.Basic

namespace Src32.Services.Screen

/-!
# The screen of the console service

`con_pcg.c` with the guards of `main.c` around its calls.  The text planes in the VRAM
are bytes at their addresses; the wide font, which is generated, is given by the test
for its characters and is written outside the text planes.  No sum of the code reaches
`2 ^ 32`, so the numbers are plain ones.
-/

/-- `CON_PCG_ROWS`. -/
def rows : Nat := 30

/-- `CON_PCG_TEXT_START`. -/
def textStart : Nat := 0x10000000

/-- `PCG_FG` and `PCG_BG`: the attribute planes behind the characters. -/
def pcgFg : Nat := 0x1000
def pcgBg : Nat := 0x2000

/-- `FND_CON_DISPLAY_40`, `FND_CON_DISPLAY_80` and `FND_CON_DISPLAY_8X16`. -/
def display40 : Nat := 0
def display80 : Nat := 1
def display8x16 : Nat := 3

def substitute : Nat := 0x3F

/-- `ANSI_PARAMS` and `ANSI_MAX`. -/
def ansiParams : Nat := 16
def ansiMax : Nat := 9999

def kindMsb : Nat := 1
def kindLsb : Nat := 2
def wideKindShift : Nat := 6

def colors : List Nat := [0, 32, 8, 40, 2, 34, 10, 42, 21, 53, 29, 61, 23, 55, 31, 63]

/-- `colors[index]`. -/
def color (index : Nat) : Nat := colors.getD index 0

inductive Parser where
  | ground | escape | escIntermediate | csi | string | stringEsc
  deriving DecidableEq

/-- The registers of VDP and PCG that the console writes. -/
structure Registers where
  displayMode : Nat
  disable : Nat
  screenMode : Nat
  cursorX : Nat
  cursorY : Nat
  cursorEnable : Nat
  cursorBlink : Nat
  scrollXLo : Nat
  scrollXHi : Nat
  scrollYLo : Nat
  scrollYHi : Nat

/-- The static variables of `con_pcg.c` and the memory it writes. -/
structure State where
  col : Nat
  row : Nat
  /-- The ring row shown at screen row 0. -/
  top : Nat
  columns : Nat
  cellHeight : Nat
  display : Nat
  fg : Nat
  bg : Nat
  bold : Bool
  inverse : Bool
  savedCol : Nat
  savedRow : Nat
  parser : Parser
  stringOsc : Bool
  params : Nat -> Nat
  paramCount : Nat
  privateMode : Bool
  invalid : Bool
  paramStarted : Bool
  registers : Registers
  vram : Nat -> Nat

namespace State

/-! ## Cells -/

/-- `ring_row`. -/
def ringRow (s : State) (screenRow : Nat) : Nat := (s.top + screenRow) % rows

/-- `cell_address`. -/
def cellAddress (s : State) (x y : Nat) : Nat := textStart + s.ringRow y * s.columns + x

/-- `MMIO8(address) = value` in the VRAM. -/
def poke (vram : Nat -> Nat) (address value : Nat) : Nat -> Nat := Function.update vram address (value % 256)

/-- `cell_kind`. -/
def cellKind (s : State) (x y : Nat) : Nat :=
  if s.display = display8x16 then s.vram (s.cellAddress x y + pcgFg) >>> wideKindShift else 0

/-- `is_pair_tail`. -/
def isPairTail (s : State) (x y : Nat) : Bool :=
  x ≠ 0 ∧ s.cellKind x y = kindLsb ∧ s.cellKind (x - 1) y = kindMsb

/-- The other half becomes a blank cell with its colors. -/
def blankHalf (vram : Nat -> Nat) (cell : Nat) : Nat -> Nat :=
  poke (poke vram cell 0x20) (cell + pcgFg) (poke vram cell 0x20 (cell + pcgFg) &&& 0x3F)

/-- `break_pair`. -/
def breakPair (s : State) (x y : Nat) : State :=
  { s with vram :=
      if s.cellKind x y = kindMsb ∧ x + 1 < s.columns ∧ s.cellKind (x + 1) y = kindLsb then
        blankHalf s.vram (s.cellAddress (x + 1) y)
      else if s.cellKind x y = kindLsb ∧ x ≠ 0 ∧ s.cellKind (x - 1) y = kindMsb then
        blankHalf s.vram (s.cellAddress (x - 1) y)
      else s.vram }

/-- The colors of the next character. -/
def front (s : State) : Nat := color (if s.fg < 8 ∧ s.bold then s.fg + 8 else s.fg)

def back (s : State) : Nat := color s.bg

/-- The three planes of a cell. -/
def fill (s : State) (vram : Nat -> Nat) (cell ch kind : Nat) : Nat -> Nat :=
  poke (poke (poke vram cell ch) (cell + pcgFg) ((if s.inverse then s.back else s.front) ||| kind <<< wideKindShift))
    (cell + pcgBg) (if s.inverse then s.front else s.back)

/-- `put_cell_kind`. -/
def putCellKind (s : State) (x y ch kind : Nat) : State :=
  { s with vram := s.fill (if s.display = display8x16 then (s.breakPair x y).vram else s.vram) (s.cellAddress x y) ch kind }

/-- `put_cell`. -/
def putCell (s : State) (x y ch : Nat) : State := s.putCellKind x y ch 0

/-- `clear_row`. -/
def clearRow (s : State) (y : Nat) : State := (List.range s.columns).foldl (fun s x => s.putCell x y 0x20) s

/-- `set_scroll`: a 16-bit pixel offset. -/
def setScroll (s : State) : State :=
  { s with registers := { s.registers with
      scrollYLo := s.top * s.cellHeight % 256
      scrollYHi := s.top * s.cellHeight / 256 % 256 } }

/-- `show_cursor`. -/
def showCursor (s : State) : State :=
  { s with registers := { s.registers with cursorX := s.col % 256, cursorY := s.ringRow s.row % 256 } }

/-- `newline`. -/
def newline (s : State) : State :=
  if s.row + 1 < rows then { s with col := 0, row := s.row + 1 }
  else (setScroll { s with col := 0, top := (s.top + 1) % rows }).clearRow (rows - 1)

/-- `advance`. -/
def advance (s : State) : State :=
  if s.col + 1 = s.columns then newline { s with col := s.col + 1 } else { s with col := s.col + 1 }

/-- A last column is left blank by `put_wide`. -/
def wideRoom (s : State) : State :=
  if s.col + 1 = s.columns then (s.putCell s.col s.row 0x20).newline else s

/-- `put_wide`. -/
def putWide (s : State) (unit : Nat) : State :=
  let s := s.wideRoom
  let s := s.putCellKind s.col s.row (unit >>> 8) kindMsb
  let s := s.putCellKind (s.col + 1) s.row (unit &&& 0xFF) kindLsb
  s.advance.advance

/-- `clamp`. -/
def clamp (value size : Nat) : Nat := if value < size then value else size - 1

/-- `erase_cells`. -/
def eraseCells (s : State) (first stop : Nat) : State :=
  (List.range' first (stop - first)).foldl (fun s i => s.putCell (i % s.columns) (i / s.columns) 0x20) s

/-! ## Escape sequences -/

/-- `con_pcg_set_color`. -/
def setColor (s : State) (front back : Nat) : State :=
  { s with fg := front, bg := back, bold := false, inverse := false }

/-- A parameter of `sgr` other than 38 and 48. -/
def sgrParam (s : State) (p : Nat) : State :=
  if p = 0 then s.setColor 15 0
  else if p = 1 then { s with bold := true }
  else if p = 22 then { s with bold := false }
  else if p = 7 then { s with inverse := true }
  else if p = 27 then { s with inverse := false }
  else if 30 ≤ p ∧ p ≤ 37 then { s with fg := p - 30 }
  else if 40 ≤ p ∧ p ≤ 47 then { s with bg := p - 40 }
  else if 90 ≤ p ∧ p ≤ 97 then { s with fg := p - 90 + 8 }
  else if 100 ≤ p ∧ p ≤ 107 then { s with bg := p - 100 + 8 }
  else if p = 39 then { s with fg := 15 }
  else if p = 49 then { s with bg := 0 }
  else s

/-- The operands behind the kind of an extended color. -/
def extendedCount (kind : Nat) : Nat := if kind = 2 then 3 else if kind = 5 then 1 else ansiParams

/-- The loop of `sgr` over the parameters that are left. -/
def sgrLoop : Nat -> List Nat -> State -> State
  | 0, _, s => s
  | _ + 1, [], s => s
  | n + 1, p :: rest, s =>
    if p = 38 ∨ p = 48 then
      match rest with
      | [] => s
      | kind :: operands =>
        if extendedCount kind ≥ operands.length + 1 then s else sgrLoop n (operands.drop (extendedCount kind)) s
    else sgrLoop n rest (s.sgrParam p)

/-- `sgr`; there are no more rounds than parameters. -/
def sgr (s : State) : State := sgrLoop s.paramCount ((List.range s.paramCount).map s.params) s

/-- `n`: the first parameter, at least 1. -/
def firstParam (s : State) : Nat := if s.params 0 ≠ 0 then s.params 0 else 1

/-- The final bytes of `csi_final` with one parameter. -/
def csiSingle (s : State) (ch : Nat) : State :=
  let p := s.params 0
  let n := s.firstParam
  let pos := s.row * s.columns + s.col
  let start := s.row * s.columns
  if ch = 0x41 then { s with row := if n > s.row then 0 else s.row - n }
  else if ch = 0x42 then { s with row := clamp (s.row + n) rows }
  else if ch = 0x43 then { s with col := clamp (s.col + n) s.columns }
  else if ch = 0x44 then { s with col := if n > s.col then 0 else s.col - n }
  else if ch = 0x45 then { s with row := clamp (s.row + n) rows, col := 0 }
  else if ch = 0x46 then { s with row := if n > s.row then 0 else s.row - n, col := 0 }
  else if ch = 0x47 then { s with col := clamp (n - 1) s.columns }
  else if ch = 0x64 then { s with row := clamp (n - 1) rows }
  else if ch = 0x4A then
    if p = 0 then s.eraseCells pos (rows * s.columns)
    else if p = 1 then s.eraseCells 0 (pos + 1)
    else if p = 2 then s.eraseCells 0 (rows * s.columns)
    else s
  else if ch = 0x4B then
    if p = 0 then s.eraseCells pos (start + s.columns)
    else if p = 1 then s.eraseCells start (pos + 1)
    else if p = 2 then s.eraseCells start (start + s.columns)
    else s
  else if ch = 0x73 then if p = 0 then { s with savedCol := s.col, savedRow := s.row } else s
  else if ch = 0x75 then if p = 0 then { s with col := s.savedCol, row := s.savedRow } else s
  else s

/-- `csi_final`. -/
def csiFinal (s : State) (ch : Nat) : State :=
  if s.invalid then s
  else if s.privateMode then
    if s.paramCount = 1 ∧ s.params 0 = 25 ∧ (ch = 0x68 ∨ ch = 0x6C) then
      { s with registers := { s.registers with cursorEnable := if ch = 0x68 then 1 else 0 } }
    else s
  else if ch = 0x6D then s.sgr
  else if ch = 0x48 ∨ ch = 0x66 then
    if s.paramCount > 2 then s
    else
      { s with
        row := clamp (s.firstParam - 1) rows
        col := clamp (if s.params 1 ≠ 0 then s.params 1 - 1 else 0) s.columns }
  else if s.paramCount ≠ 1 then s
  else s.csiSingle ch

/-- The byte behind an escape. -/
def escapeByte (s : State) (b : Nat) : State :=
  if b = 0x5B then
    { s with
      parser := .csi
      paramCount := 1
      privateMode := false
      invalid := false
      paramStarted := false
      params := fun _ => 0 }
  else if b = 0x5D ∨ b = 0x50 ∨ b = 0x58 ∨ b = 0x5E ∨ b = 0x5F then
    { s with parser := .string, stringOsc := decide (b = 0x5D) }
  else if b = 0x37 then { s with parser := .ground, savedCol := s.col, savedRow := s.row }
  else if b = 0x38 then { s with parser := .ground, col := s.savedCol, row := s.savedRow }
  else if 0x20 ≤ b ∧ b ≤ 0x2F then { s with parser := .escIntermediate }
  else { s with parser := .ground }

/-- A digit of a parameter. -/
def digitByte (s : State) (b : Nat) : State :=
  let s := { s with paramStarted := true }
  let value := s.params (s.paramCount - 1) * 10 + b - 0x30
  if value > ansiMax then { s with invalid := true }
  else { s with params := Function.update s.params (s.paramCount - 1) value }

/-- A byte of a control sequence. -/
def csiByte (s : State) (b : Nat) : State :=
  if 0x40 ≤ b ∧ b ≤ 0x7E then { s.csiFinal b with parser := .ground }
  else if b = 0x3F ∧ s.paramStarted = false ∧ s.privateMode = false ∧ s.invalid = false then { s with privateMode := true }
  else if 0x30 ≤ b ∧ b ≤ 0x39 then s.digitByte b
  else if b = 0x3B then
    let s := { s with paramStarted := true }
    if s.paramCount = ansiParams then { s with invalid := true } else { s with paramCount := s.paramCount + 1 }
  else if b > 0x7F then { s with invalid := true, parser := .ground }
  else { s with invalid := true }

/-- `ansi_byte`; nothing if the byte is not part of an escape sequence. -/
def ansiByte (s : State) (b : Nat) : Option State :=
  if b = 0x18 ∨ b = 0x1A then some { s with parser := .ground }
  else if s.parser = .string ∨ s.parser = .stringEsc then
    if s.stringOsc ∧ b = 7 ∨ s.parser = .stringEsc ∧ b = 0x5C then some { s with parser := .ground }
    else some { s with parser := if b = 0x1B then .stringEsc else .string }
  else if b = 0x1B then some { s with parser := .escape }
  else if s.parser = .ground then none
  else if b < 0x20 ∨ b = 0x7F then some s
  else if s.parser = .escape then some (s.escapeByte b)
  else if s.parser = .escIntermediate then some (if b ≥ 0x30 then { s with parser := .ground } else s)
  else some (s.csiByte b)

/-! ## Characters -/

/-- The loop of a tab, which ends in column 0 modulo 8; 8 rounds are enough. -/
def tab : Nat -> State -> State
  | 0, s => s
  | n + 1, s =>
    let s := (s.putCell s.col s.row 0x20).advance
    if s.col % 8 ≠ 0 then tab n s else s

/-- A backspace, to the first cell of a character. -/
def backspace (s : State) : State :=
  if s.col ≠ 0 then
    let s := { s with col := s.col - 1 }
    if s.isPairTail s.col s.row then { s with col := s.col - 1 } else s
  else if s.row ≠ 0 then
    let s := { s with row := s.row - 1, col := s.columns - 1 }
    if s.isPairTail s.col s.row then { s with col := s.col - 1 } else s
  else s

/-- `put_scalar`, with `con_wide_has`. -/
def putScalar (wideHas : Nat -> Bool) (s : State) (cp : Nat) : State :=
  if cp = 0x0A then s.newline
  else if cp = 0x0D then { s with col := 0 }
  else if cp = 0x08 then s.backspace
  else if cp = 0x09 then s.tab 8
  else if cp < 0x20 ∨ cp = 0x7F ∨ 0x80 ≤ cp ∧ cp < 0xA0 then s
  else if s.display = display8x16 ∧ cp < 0x10000 ∧ wideHas cp then s.putWide cp
  else
    (s.putCell s.col s.row
      (if 0xE000 ≤ cp ∧ cp ≤ 0xE0FF then cp - 0xE000 else if cp < 0x7F then cp else substitute)).advance

/-! ## Calls -/

/-- `con_pcg_clear`. -/
def clear (s : State) : State :=
  ((List.range rows).foldl (fun s y => s.clearRow y)
    (setScroll { s with parser := .ground, top := 0, col := 0, row := 0 })).showCursor

/-- `con_pcg_set_display`; nothing for `FND_E_BAD_ARG`. -/
def setDisplay (s : State) (mode : Nat) : Option State :=
  if mode ≠ display40 ∧ mode ≠ display80 ∧ mode ≠ display8x16 then none
  else
    some (clear { s with
      display := mode
      columns := if mode = display40 then 40 else 80
      cellHeight := if mode = display8x16 then 16 else 8
      savedCol := 0
      savedRow := 0
      registers := { s.registers with screenMode := mode, scrollXLo := 0, scrollXHi := 0 } })

/-- `con_pcg_set_cursor`. -/
def setCursor (s : State) (x y : Nat) : State := showCursor { s with col := x, row := y }

/-- `con_pcg_init`. -/
def init (s : State) : State :=
  let s := s.setColor 15 0
  let s := { s with registers := { s.registers with
    displayMode := 1
    disable := 0
    scrollXLo := 0
    scrollXHi := 0
    cursorEnable := 1
    cursorBlink := 10 } }
  (s.setDisplay display80).getD s

end State

/-! ## UTF-8 -/

/-- `(b & 0xC0) == 0x80`. -/
def continuation (b : Nat) : Bool := b &&& 0xC0 = 0x80

/-- The bytes that a lead byte asks for. -/
def need (b : Nat) : Nat :=
  if b < 0x80 then 0
  else if b &&& 0xE0 = 0xC0 then 1
  else if b &&& 0xF0 = 0xE0 then 2
  else if b &&& 0xF8 = 0xF0 then 3
  else 0

/-- What a lead byte begins with. -/
def lead (b : Nat) : Nat :=
  if b < 0x80 then b
  else if b &&& 0xE0 = 0xC0 then b &&& 0x1F
  else if b &&& 0xF0 = 0xE0 then b &&& 0x0F
  else if b &&& 0xF8 = 0xF0 then b &&& 0x07
  else substitute

/-- The continuation bytes; a malformed sequence is one substitute. -/
def decode : Nat -> Nat -> List Nat -> Nat × List Nat
  | 0, cp, text => (cp, text)
  | _ + 1, _, [] => (substitute, [])
  | n + 1, cp, b :: rest => if continuation b then decode n (cp <<< 6 ||| b &&& 0x3F) rest else (substitute, b :: rest)

theorem length_decode (n cp : Nat) (text : List Nat) : (decode n cp text).2.length ≤ text.length := by
  induction n generalizing cp text with
  | zero => exact Nat.le_refl _
  | succ n ih =>
    cases text with
    | nil => exact Nat.le_refl _
    | cons b rest =>
      unfold decode
      split
      · exact Nat.le_succ_of_le (ih _ rest)
      · exact Nat.le_refl _

theorem decode_shorter (b : Nat) (rest : List Nat) : (decode (need b) (lead b) rest).2.length < (b :: rest).length :=
  Nat.lt_succ_of_le (length_decode _ _ _)

/-- The loop of `con_pcg_write`. -/
def writeLoop (wideHas : Nat -> Bool) (s : State) (text : List Nat) : State :=
  match text with
  | [] => s
  | b :: rest =>
    match s.ansiByte b with
    | some s => writeLoop wideHas s rest
    | none => writeLoop wideHas (s.putScalar wideHas (decode (need b) (lead b) rest).1) (decode (need b) (lead b) rest).2
  termination_by text.length
  decreasing_by
    · exact Nat.lt_succ_self _
    · exact decode_shorter b rest

/-- `con_pcg_write`. -/
def write (wideHas : Nat -> Bool) (s : State) (text : List Nat) : State := (writeLoop wideHas s text).showCursor

/-! ## The service -/

/-- The calls that change the screen. -/
inductive Call where
  | write (text : List Nat)
  | clear
  | setCursor (x y : Nat)
  | setColor (front back : Nat)
  | setDisplay (mode : Nat)

/-- A call of the service, which refuses cursors and colors out of range. -/
def call (wideHas : Nat -> Bool) (s : State) : Call -> State
  | .write text => write wideHas s text
  | .clear => s.clear
  | .setCursor x y => if x ≥ s.columns ∨ y ≥ rows then s else s.setCursor x y
  | .setColor front back => if front > 15 ∨ back > 15 then s else s.setColor front back
  | .setDisplay mode => (s.setDisplay mode).getD s

/-- A sequence of calls. -/
def calls (wideHas : Nat -> Bool) (s : State) (list : List Call) : State := list.foldl (call wideHas) s

/-! ## The display -/

/-- `PcgScreenMode`. -/
inductive ScreenMode where
  | columns40 | columns80 | unifont16x16 | font8x16

namespace ScreenMode

/-- `PcgScreenMode::from_u8`. -/
def fromU8 : Nat -> Option ScreenMode
  | 0 => some columns40
  | 1 => some columns80
  | 2 => some unifont16x16
  | 3 => some font8x16
  | _ => none

/-- `PcgScreenMode::columns`. -/
def columns : ScreenMode -> Nat
  | columns40 => 40
  | columns80 => 80
  | unifont16x16 => 20
  | font8x16 => 80

/-- `PcgScreenMode::rows`. -/
def rows : ScreenMode -> Nat
  | unifont16x16 => 15
  | columns40 | columns80 | font8x16 => 30

/-- `PcgScreenMode::cell_height`. -/
def cellHeight : ScreenMode -> Nat
  | unifont16x16 | font8x16 => 16
  | columns40 | columns80 => 8

/-- `PcgScreenMode::height`. -/
def height (mode : ScreenMode) : Nat := mode.rows * mode.cellHeight

end ScreenMode

/-- `VdpFramebuffer::scroll_coordinate`. -/
def scrollCoordinate (coordinate offset extent : Nat) : Nat := (coordinate + offset) % extent

/-- `char_row`: the text row that the display reads for a line of pixels. -/
def charRow (mode : ScreenMode) (registers : Registers) (y : Nat) : Nat :=
  scrollCoordinate y (registers.scrollYLo + 256 * registers.scrollYHi) mode.height / mode.cellHeight

end Src32.Services.Screen
