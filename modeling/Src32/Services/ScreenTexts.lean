import Src32.Services.ScreenRuns

namespace Src32.Services.Screen

/-!
# Texts in pieces

The cursor registers are written at the end of a call and read by nothing, so a text may
be written in pieces, unless a seam parts the bytes of one character.
-/

namespace State

variable {s t : State} {wideHas : Nat -> Bool} {x y : Nat}

/-- The state with other cursor registers. -/
def withCursor (s : State) (x y : Nat) : State := { s with registers := { s.registers with cursorX := x, cursorY := y } }

@[simp] theorem withCursor_col (s : State) (x y : Nat) : (s.withCursor x y).col = s.col := rfl

@[simp] theorem withCursor_row (s : State) (x y : Nat) : (s.withCursor x y).row = s.row := rfl

theorem showCursor_eq (s : State) : s.showCursor = s.withCursor (s.col % 256) (s.ringRow s.row % 256) := rfl

theorem showCursor_withCursor (s : State) (x y : Nat) : (s.withCursor x y).showCursor = s.showCursor := rfl

/-- Both ways of a test. -/
theorem ite_withCursor {c : Prop} [Decidable c] {a b a' b' : State} (yes : a' = a.withCursor x y) (no : b' = b.withCursor x y) :
    (if c then a' else b') = (if c then a else b).withCursor x y := by
  split
  · exact yes
  · exact no

theorem foldl_withCursor {f : State -> Nat -> State} (list : List Nat) (s : State)
    (step : ∀ s i, f (s.withCursor x y) i = (f s i).withCursor x y) :
    list.foldl f (s.withCursor x y) = (list.foldl f s).withCursor x y := by
  induction list generalizing s with
  | nil => rfl
  | cons i list ih =>
    rw [List.foldl_cons, List.foldl_cons, step]
    exact ih (f s i)

/-! ## Drawing -/

theorem putCellKind_withCursor (s : State) (i j ch kind : Nat) :
    (s.withCursor x y).putCellKind i j ch kind = (s.putCellKind i j ch kind).withCursor x y := rfl

theorem clearRow_withCursor (s : State) (j : Nat) : (s.withCursor x y).clearRow j = (s.clearRow j).withCursor x y :=
  foldl_withCursor _ s fun _ _ => rfl

theorem eraseCells_withCursor (s : State) (first stop : Nat) :
    (s.withCursor x y).eraseCells first stop = (s.eraseCells first stop).withCursor x y :=
  foldl_withCursor _ s fun _ _ => rfl

theorem newline_withCursor (s : State) : (s.withCursor x y).newline = s.newline.withCursor x y := by
  unfold newline
  exact ite_withCursor rfl (clearRow_withCursor (setScroll { s with col := 0, top := (s.top + 1) % rows }) (rows - 1))

theorem advance_withCursor (s : State) : (s.withCursor x y).advance = s.advance.withCursor x y := by
  unfold advance
  exact ite_withCursor (newline_withCursor { s with col := s.col + 1 }) rfl

theorem wideRoom_withCursor (s : State) : (s.withCursor x y).wideRoom = s.wideRoom.withCursor x y := by
  unfold wideRoom
  exact ite_withCursor (newline_withCursor (s.putCell s.col s.row 0x20)) rfl

theorem putWide_withCursor (s : State) (unit : Nat) : (s.withCursor x y).putWide unit = (s.putWide unit).withCursor x y := by
  unfold putWide
  rw [wideRoom_withCursor]
  simp only [withCursor_col, withCursor_row, putCellKind_withCursor, advance_withCursor]

theorem tab_withCursor (n : Nat) (s : State) : tab n (s.withCursor x y) = (tab n s).withCursor x y := by
  induction n generalizing s with
  | zero => rfl
  | succ n ih =>
    have step : ((s.withCursor x y).putCell (s.withCursor x y).col (s.withCursor x y).row 0x20).advance =
        (s.putCell s.col s.row 0x20).advance.withCursor x y := advance_withCursor (s.putCell s.col s.row 0x20)
    unfold tab
    dsimp only
    rw [step]
    exact ite_withCursor (ih _) rfl

theorem backspace_withCursor (s : State) : (s.withCursor x y).backspace = s.backspace.withCursor x y := by
  unfold backspace
  refine ite_withCursor (ite_withCursor rfl rfl) ?_
  exact ite_withCursor (ite_withCursor rfl rfl) rfl

theorem putScalar_withCursor (s : State) (cp : Nat) :
    (s.withCursor x y).putScalar wideHas cp = (s.putScalar wideHas cp).withCursor x y := by
  unfold putScalar
  refine ite_withCursor (newline_withCursor s) ?_
  refine ite_withCursor rfl ?_
  refine ite_withCursor (backspace_withCursor s) ?_
  refine ite_withCursor (tab_withCursor 8 s) ?_
  refine ite_withCursor rfl ?_
  refine ite_withCursor (putWide_withCursor s cp) ?_
  exact advance_withCursor (s.putCell s.col s.row
    (if 0xE000 ≤ cp ∧ cp ≤ 0xE0FF then cp - 0xE000 else if cp < 0x7F then cp else substitute))

/-! ## Escape sequences -/

theorem sgrParam_withCursor (s : State) (p : Nat) : (s.withCursor x y).sgrParam p = (s.sgrParam p).withCursor x y := by
  unfold sgrParam
  refine ite_withCursor rfl (ite_withCursor rfl (ite_withCursor rfl (ite_withCursor rfl (ite_withCursor rfl ?_))))
  refine ite_withCursor rfl (ite_withCursor rfl (ite_withCursor rfl (ite_withCursor rfl ?_)))
  exact ite_withCursor rfl (ite_withCursor rfl rfl)

theorem sgrLoop_withCursor (n : Nat) (list : List Nat) (s : State) :
    sgrLoop n list (s.withCursor x y) = (sgrLoop n list s).withCursor x y := by
  induction n generalizing s list with
  | zero => rfl
  | succ n ih =>
    cases list with
    | nil => rfl
    | cons p rest =>
      unfold sgrLoop
      refine ite_withCursor ?_ ?_
      · cases rest with
        | nil => rfl
        | cons kind operands => exact ite_withCursor rfl (ih _ s)
      · rw [sgrParam_withCursor]
        exact ih rest _

theorem csiSingle_withCursor (s : State) (ch : Nat) : (s.withCursor x y).csiSingle ch = (s.csiSingle ch).withCursor x y := by
  unfold csiSingle
  refine ite_withCursor rfl (ite_withCursor rfl (ite_withCursor rfl (ite_withCursor rfl ?_)))
  refine ite_withCursor rfl (ite_withCursor rfl (ite_withCursor rfl (ite_withCursor rfl ?_)))
  refine ite_withCursor ?_ (ite_withCursor ?_ ?_)
  · refine ite_withCursor (eraseCells_withCursor s _ _) (ite_withCursor (eraseCells_withCursor s _ _) ?_)
    exact ite_withCursor (eraseCells_withCursor s _ _) rfl
  · refine ite_withCursor (eraseCells_withCursor s _ _) (ite_withCursor (eraseCells_withCursor s _ _) ?_)
    exact ite_withCursor (eraseCells_withCursor s _ _) rfl
  · exact ite_withCursor (ite_withCursor rfl rfl) (ite_withCursor (ite_withCursor rfl rfl) rfl)

theorem csiFinal_withCursor (s : State) (ch : Nat) : (s.withCursor x y).csiFinal ch = (s.csiFinal ch).withCursor x y := by
  unfold csiFinal
  refine ite_withCursor rfl (ite_withCursor (ite_withCursor rfl rfl) (ite_withCursor (sgrLoop_withCursor _ _ s) ?_))
  refine ite_withCursor (ite_withCursor rfl rfl) (ite_withCursor rfl ?_)
  exact csiSingle_withCursor s ch

theorem escapeByte_withCursor (s : State) (b : Nat) : (s.withCursor x y).escapeByte b = (s.escapeByte b).withCursor x y := by
  unfold escapeByte
  refine ite_withCursor rfl (ite_withCursor rfl (ite_withCursor rfl (ite_withCursor rfl ?_)))
  exact ite_withCursor rfl rfl

theorem csiByte_withCursor (s : State) (b : Nat) : (s.withCursor x y).csiByte b = (s.csiByte b).withCursor x y := by
  unfold csiByte
  refine ite_withCursor ?_ (ite_withCursor rfl (ite_withCursor ?_ (ite_withCursor ?_ (ite_withCursor rfl rfl))))
  · rw [csiFinal_withCursor]
    rfl
  · unfold digitByte
    exact ite_withCursor rfl rfl
  · exact ite_withCursor rfl rfl

/-- Both ways of a test of a byte. -/
theorem ite_some_withCursor {c : Prop} [Decidable c] {a b a' b' : Option State} (yes : a' = a.map (·.withCursor x y))
    (no : b' = b.map (·.withCursor x y)) : (if c then a' else b') = (if c then a else b).map (·.withCursor x y) := by
  split
  · exact yes
  · exact no

theorem ansiByte_withCursor (s : State) (b : Nat) :
    (s.withCursor x y).ansiByte b = (s.ansiByte b).map (·.withCursor x y) := by
  unfold ansiByte
  refine ite_some_withCursor rfl (ite_some_withCursor (ite_some_withCursor rfl rfl) ?_)
  refine ite_some_withCursor rfl (ite_some_withCursor rfl (ite_some_withCursor rfl ?_))
  refine ite_some_withCursor (congrArg some (escapeByte_withCursor s b)) (ite_some_withCursor ?_ ?_)
  · exact congrArg some (ite_withCursor rfl rfl)
  · exact congrArg some (csiByte_withCursor s b)

theorem writeLoop_withCursor (s : State) (text : List Nat) :
    writeLoop wideHas (s.withCursor x y) text = (writeLoop wideHas s text).withCursor x y := by
  induction length : text.length using Nat.strongRecOn generalizing s text with
  | ind n ih =>
    cases text with
    | nil =>
      unfold writeLoop
      rfl
    | cons b rest =>
      rw [writeLoop.eq_def, writeLoop.eq_def wideHas s]
      dsimp only
      rw [ansiByte_withCursor]
      cases taken : s.ansiByte b with
      | some t => exact ih rest.length (length ▸ Nat.lt_succ_self _) t rest rfl
      | none =>
        dsimp only [Option.map_none]
        rw [putScalar_withCursor]
        exact ih _ (length ▸ decode_shorter b rest) _ _ rfl

end State

/-! ## Seams -/

variable {wideHas : Nat -> Bool} {s : State} {a b : List Nat}

/-- A seam that parts the bytes of a character: a lead byte before it lacks some of its
continuation bytes and one follows. -/
def Parts (a b : List Nat) : Prop :=
  ∃ front first run next back, a = front ++ first :: run ∧ b = next :: back ∧ (∀ c ∈ run, continuation c) ∧
    run.length < need first ∧ continuation next

theorem Parts.longer (front : List Nat) (parts : Parts a b) : Parts (front ++ a) b := by
  obtain ⟨before, first, run, next, back, left, right, rest⟩ := parts
  refine ⟨front ++ before, first, run, next, back, ?_, right, rest⟩
  rw [left, List.append_assoc]

/-- The bytes of a character do not cross a whole seam. -/
theorem decode_append (n cp : Nat) (a b : List Nat)
    (whole : ¬ ((∀ c ∈ a, continuation c) ∧ a.length < n ∧ ∃ next back, b = next :: back ∧ continuation next)) :
    decode n cp (a ++ b) = ((decode n cp a).1, (decode n cp a).2 ++ b) := by
  induction n generalizing cp a with
  | zero => rfl
  | succ n ih =>
    cases a with
    | nil =>
      cases b with
      | nil => rfl
      | cons next back =>
        have other : ¬ continuation next := fun more =>
          whole ⟨fun c member => absurd member List.not_mem_nil, Nat.succ_pos n, next, back, rfl, more⟩
        rw [List.nil_append]
        unfold decode
        rw [if_neg other, List.nil_append]
    | cons c rest =>
      rw [List.cons_append]
      unfold decode
      by_cases more : continuation c
      · rw [if_pos more, if_pos more]
        refine ih _ rest ?_
        rintro ⟨all, short, seam⟩
        refine whole ⟨fun d member => ?_, Nat.succ_lt_succ short, seam⟩
        rcases List.mem_cons.mp member with rfl | member
        · exact more
        · exact all d member
      · rw [if_neg more, if_neg more, List.cons_append]

/-- What a character leaves is the end of what it was given. -/
theorem decode_suffix (n cp : Nat) (text : List Nat) : ∃ front, text = front ++ (decode n cp text).2 := by
  induction n generalizing cp text with
  | zero => exact ⟨[], rfl⟩
  | succ n ih =>
    cases text with
    | nil => exact ⟨[], rfl⟩
    | cons c rest =>
      unfold decode
      split
      · next more =>
          obtain ⟨front, same⟩ := ih (cp <<< 6 ||| c &&& 0x3F) rest
          exact ⟨c :: front, congrArg (c :: ·) same⟩
      · exact ⟨[], rfl⟩

theorem writeLoop_append (s : State) (a b : List Nat) (whole : ¬ Parts a b) :
    writeLoop wideHas s (a ++ b) = writeLoop wideHas (writeLoop wideHas s a) b := by
  induction length : a.length using Nat.strongRecOn generalizing s a with
  | ind n ih =>
    cases a with
    | nil =>
      rw [List.nil_append, writeLoop.eq_def wideHas s []]
    | cons c rest =>
      rw [List.cons_append, writeLoop.eq_def, writeLoop.eq_def wideHas s (c :: rest)]
      dsimp only
      cases taken : s.ansiByte c with
      | some t =>
        refine ih rest.length (length ▸ Nat.lt_succ_self _) t rest (fun parts => ?_) rfl
        exact whole (parts.longer [c])
      | none =>
        dsimp only
        rw [decode_append (need c) (lead c) rest b]
        · refine ih _ (length ▸ decode_shorter c rest) _ _ (fun parts => ?_) rfl
          obtain ⟨front, same⟩ := decode_suffix (need c) (lead c) rest
          have longer := parts.longer (c :: front)
          rw [List.cons_append, ← same] at longer
          exact whole longer
        · rintro ⟨all, short, next, back, seam, more⟩
          exact whole ⟨[], c, rest, next, back, rfl, seam, all, short, more⟩

theorem write_append (s : State) (a b : List Nat) (whole : ¬ Parts a b) :
    write wideHas (write wideHas s a) b = write wideHas s (a ++ b) := by
  unfold write
  rw [State.showCursor_eq (writeLoop wideHas s a), State.writeLoop_withCursor, State.showCursor_withCursor, writeLoop_append s a b whole]

/-- Texts without a seam inside a character. -/
def Seamless (pieces : List (List Nat)) : Prop :=
  ∀ before after, pieces = before ++ after -> ¬ Parts before.flatten after.flatten

theorem write_pieces (s : State) (piece : List Nat) (pieces : List (List Nat)) (seamless : Seamless (piece :: pieces)) :
    (piece :: pieces).foldl (write wideHas) s = write wideHas s (piece :: pieces).flatten := by
  induction pieces generalizing s piece with
  | nil =>
    rw [List.flatten_cons, List.flatten_nil, List.append_nil]
    rfl
  | cons second pieces ih =>
    have tail : Seamless (second :: pieces) := by
      intro before after same parts
      exact seamless (piece :: before) after (congrArg (piece :: ·) same) (parts.longer piece)
    have first : ¬ Parts piece (second :: pieces).flatten := by
      have seam := seamless [piece] (second :: pieces) rfl
      rw [List.flatten_cons, List.flatten_nil, List.append_nil] at seam
      exact seam
    rw [List.flatten_cons, ← write_append s piece _ first]
    exact ih (write wideHas s piece) second tail

/-! ## The screen after any calls -/

/-- The display shows the rows of the ring from the first one on. -/
def ShowsRing (s : State) (mode : ScreenMode) : Prop :=
  mode.columns = s.columns ∧ mode.rows = rows ∧ ∀ y, charRow mode s.registers y = s.ringRow (y / mode.cellHeight)

theorem charRow_ring {mode : ScreenMode} (high : mode.rows = rows) (low : mode.cellHeight = s.cellHeight) (some_ : 0 < s.cellHeight)
    (scroll : s.registers.scrollYLo + 256 * s.registers.scrollYHi = s.top * s.cellHeight) (y : Nat) :
    charRow mode s.registers y = s.ringRow (y / mode.cellHeight) := by
  unfold charRow scrollCoordinate ScreenMode.height State.ringRow
  rw [scroll, high, low, Nat.mod_mul_left_div_self, Nat.add_mul_div_right _ _ some_, Nat.add_comm]

theorem State.Fine.showsRing (fine : s.Fine) : ∃ mode, ScreenMode.fromU8 s.registers.screenMode = some mode ∧ ShowsRing s mode := by
  have scroll := fine.frame.scroll
  have some_ := fine.frame.low.1
  rw [fine.frame.shown]
  rcases fine.frame.mode with ⟨display, columns, height⟩ | ⟨display, columns, height⟩ | ⟨display, columns, height⟩
  · rw [display]
    exact ⟨.columns40, rfl, columns.symm, rfl, charRow_ring rfl height.symm some_ scroll⟩
  · rw [display]
    exact ⟨.columns80, rfl, columns.symm, rfl, charRow_ring rfl height.symm some_ scroll⟩
  · rw [display]
    exact ⟨.font8x16, rfl, columns.symm, rfl, charRow_ring rfl height.symm some_ scroll⟩

/-- After any calls the cursors are inside, the display shows the ring from its first row,
and in mode 3 halves are paired; the next call writes no cell outside the text rows, and a
text may be written in pieces. -/
theorem console_screen (wideHas : Nat -> Bool) (start : State) (list : List Call) :
    Inside (calls wideHas start.init list).columns (calls wideHas start.init list).col (calls wideHas start.init list).row ∧
      Inside (calls wideHas start.init list).columns (calls wideHas start.init list).savedCol
        (calls wideHas start.init list).savedRow ∧
      (∃ mode, ScreenMode.fromU8 (calls wideHas start.init list).registers.screenMode = some mode ∧
        ShowsRing (calls wideHas start.init list) mode) ∧
      ((calls wideHas start.init list).display = display8x16 ->
        PairedRows (calls wideHas start.init list).columns (calls wideHas start.init list).vram) ∧
      (∀ next : Call, State.TextOnly (call wideHas (calls wideHas start.init list) next).columns
        (calls wideHas start.init list).vram (call wideHas (calls wideHas start.init list) next).vram) ∧
      ∀ piece pieces, Seamless (piece :: pieces) ->
        (piece :: pieces).foldl (write wideHas) (calls wideHas start.init list) =
          write wideHas (calls wideHas start.init list) (piece :: pieces).flatten := by
  have fine : State.Fine (calls wideHas start.init list) := start.init_fine.calls list
  refine ⟨fine.cursor, fine.saved, fine.showsRing, fine.frame.paired, fun next => (fine.call next).2, ?_⟩
  exact fun piece pieces seamless => write_pieces _ piece pieces seamless

end Src32.Services.Screen
