import Src32.Sol.Structure

namespace Src32.Sol

/-!
# Where the code of a program lies

`At` says that the code of a body lies between two places: every jump of a
construct goes to the place its reading says, right behind the branch it
skips or back to the start of its loop.  The pass lays the main program and
every function so, whatever it emits behind them.
-/

variable {ω : Type}

/-! ## The last instruction -/

namespace Block

/-- The last instruction of the code is one of these; `prev` says it of the
instruction before the code. -/
def ends (which : Exit -> Bool) : Block ω -> Bool -> Bool
  | done, prev => prev
  | word ws rest, prev => rest.ends which (prev && ws.isEmpty)
  | call _ rest, _ => rest.ends which false
  | exit e rest, _ => rest.ends which (which e)
  | cond then_ rest, _ => rest.ends which (then_.ends which false)
  | either then_ else_ rest, _ => rest.ends which (else_.ends which (then_.ends which false))
  | loop _ rest, _ => rest.ends which false

/-- The body emits no instruction. -/
def silent : Block ω -> Bool
  | done => true
  | word ws rest => ws.isEmpty && rest.silent
  | _ => false

end Block

/-- The instruction before the code matters only if the body emits nothing. -/
theorem ends_loud {which : Exit -> Bool} {b : Block ω} (loud : b.silent = false) (prev prev' : Bool) :
    b.ends which prev = b.ends which prev' := by
  induction b generalizing prev prev' with
  | done => cases loud
  | word ws rest ih =>
    change rest.ends which (prev && ws.isEmpty) = rest.ends which (prev' && ws.isEmpty)
    cases empty : ws.isEmpty with
    | true =>
      refine ih ?_ _ _
      change (ws.isEmpty && rest.silent) = false at loud
      rw [empty, Bool.true_and] at loud
      exact loud
    | false => rw [Bool.and_false, Bool.and_false]
  | call _ _ _ => rfl
  | exit _ _ _ => rfl
  | cond _ _ _ _ => rfl
  | either _ _ _ _ _ _ => rfl
  | loop _ _ _ _ => rfl

theorem emit_silent {b : Block ω} (silent : b.silent = true) (c : Code ω) :
    (b.emit c).instructions = c.instructions := by
  induction b generalizing c with
  | done => rfl
  | word ws rest ih =>
    change (ws.isEmpty && rest.silent) = true at silent
    rw [Bool.and_eq_true, List.isEmpty_iff] at silent
    obtain ⟨rfl, later⟩ := silent
    exact (ih later _).trans (List.append_nil _)
  | call _ _ _ | exit _ _ _ | cond _ _ _ _ | either _ _ _ _ _ _ | loop _ _ _ _ => cases silent

/-- The instruction is one of these exits. -/
def Instr.exits (which : Exit -> Bool) : Instr ω -> Bool
  | .exit e => which e
  | _ => false

section
variable (which : Exit -> Bool) (c : Code ω)

theorem endsIn_emit_nil : (c.emit []).endsIn which = c.endsIn which := by
  unfold Code.emit
  rw [List.append_nil]

theorem endsIn_emit_last (is : List (Instr ω)) (i : Instr ω) : (c.emit (is ++ [i])).endsIn which = i.exits which := by
  unfold Code.emit Code.endsIn
  dsimp only
  rw [← List.append_assoc, List.getLast?_concat]
  cases i <;> rfl

theorem endsIn_one (i : Instr ω) : (c.emit [i]).endsIn which = i.exits which := endsIn_emit_last which c [] i

theorem endsIn_words (ws : List ω) : (c.emit (ws.map .word)).endsIn which = (c.endsIn which && ws.isEmpty) := by
  rcases List.eq_nil_or_concat' ws with rfl | ⟨front, w, rfl⟩
  · rw [List.map_nil, endsIn_emit_nil, List.isEmpty_nil, Bool.and_true]
  · have some_ : (front ++ [w]).isEmpty = false := by
      cases front <;> rfl
    rw [List.map_append, List.map_singleton, endsIn_emit_last, some_, Bool.and_false]
    rfl

/-- What the last instruction of a body's code is. -/
theorem emit_endsIn (b : Block ω) : (b.emit c).endsIn which = b.ends which (c.endsIn which) := by
  induction b generalizing c with
  | done => rfl
  | word ws rest ih =>
    change (rest.emit (c.emit (ws.map .word))).endsIn which = _
    rw [ih, endsIn_words]
    rfl
  | call name rest ih =>
    change (rest.emit (c.emit [.call name])).endsIn which = _
    rw [ih, endsIn_one]
    rfl
  | exit e rest ih =>
    change (rest.emit (c.emit [.exit e])).endsIn which = _
    rw [ih, endsIn_one]
    rfl
  | cond then_ rest ihThen ihRest =>
    have opened : c.openIf.endsIn which = false := endsIn_one which c.bump _
    have branch : ((then_.emit c.openIf).place (c.hidden .ifFalse)).endsIn which = then_.ends which false := by
      change (then_.emit c.openIf).endsIn which = _
      rw [ihThen, opened]
    change (rest.emit ((then_.emit c.openIf).place (c.hidden .ifFalse))).endsIn which = _
    rw [ihRest, branch]
    rfl
  | either then_ else_ rest ihThen ihElse ihRest =>
    have opened : c.openIf.endsIn which = false := endsIn_one which c.bump _
    have branch : (then_.emit c.openIf).endsIn which = then_.ends which false := by rw [ihThen, opened]
    -- behind a jump to the end the last instruction is that jump, and was no exit before
    have left : ((then_.emit c.openIf).leaveThen.place (c.hidden .ifFalse)).endsIn which = then_.ends which false := by
      change (then_.emit c.openIf).leaveThen.endsIn which = _
      unfold Code.leaveThen
      cases label : (then_.emit c.openIf).endLabel with
      | none => exact branch
      | some l =>
        have notLast : (then_.emit c.openIf).endsIn Exit.terminal ≠ true := by
          intro last
          unfold Code.endLabel at label
          rw [if_pos last] at label
          cases label
        have none_ : (then_.emit c.openIf).endsIn which ≠ true := by
          intro last
          refine notLast ?_
          unfold Code.endsIn at last ⊢
          split
          · rfl
          · next other =>
              split at last
              · next e found => exact absurd found (other e)
              · exact last
        rw [← branch, Bool.eq_false_iff.mpr none_]
        exact endsIn_one which _ _
    have closed : ∀ (d : Code ω) (l : Option Label), (d.placeEnd l).endsIn which = d.endsIn which := fun d l => by
      cases l <;> rfl
    change (rest.emit ((else_.emit ((then_.emit c.openIf).leaveThen.place (c.hidden .ifFalse))).placeEnd
      (then_.emit c.openIf).endLabel)).endsIn which = _
    rw [ihRest, closed, ihElse, left]
    rfl
  | loop body rest ihBody ihRest =>
    change (rest.emit ((body.emit c.openWhile).emit [.jz (c.hidden .whileStart)])).endsIn which = _
    rw [ihRest, endsIn_one]
    rfl

end

/-! ## Code that only grows -/

/-- The code has grown: what was there is where it was, and so are its labels. -/
structure Grown (c d : Code ω) : Prop where
  instructions : c.instructions <+: d.instructions
  counter : c.counter ≤ d.counter
  hidden : ∀ kind n, n < c.counter -> d.labels (.hidden kind n) = c.labels (.hidden kind n)
  functions : ∀ name place, c.labels (.function name) = some place -> d.labels (.function name) = some place

theorem Grown.refl (c : Code ω) : Grown c c := ⟨List.prefix_refl _, Nat.le_refl _, fun _ _ _ => rfl, fun _ _ => id⟩

variable {c d p : Code ω} {lo n : Nat}

theorem Grown.trans {e : Code ω} (first : Grown c d) (second : Grown d e) : Grown c e where
  instructions := first.instructions.trans second.instructions
  counter := Nat.le_trans first.counter second.counter
  hidden := fun kind n below =>
    (second.hidden kind n (Nat.lt_of_lt_of_le below first.counter)).trans (first.hidden kind n below)
  functions := fun name place known => second.functions name place (first.functions name place known)

theorem grown_emit (c : Code ω) (is : List (Instr ω)) : Grown c (c.emit is) :=
  ⟨List.prefix_append _ _, Nat.le_refl _, fun _ _ _ => rfl, fun _ _ => id⟩

theorem grown_bump (c : Code ω) : Grown c c.bump :=
  ⟨List.prefix_refl _, Nat.le_succ _, fun _ _ _ => rfl, fun _ _ => id⟩

theorem place_self (c : Code ω) (l : Label) : (c.place l).labels l = some c.instructions.length :=
  Function.update_self ..

theorem place_other (c : Code ω) {l l' : Label} (other : l ≠ l') : (c.place l').labels l = c.labels l :=
  Function.update_of_ne other ..

theorem place_hidden (c : Code ω) {kind kind' : LabelKind} {m : Nat} (differ : n ≠ m) :
    (c.place (.hidden kind' m)).labels (.hidden kind n) = c.labels (.hidden kind n) :=
  place_other c fun same => differ (Label.hidden.inj same).2

theorem place_function (c : Code ω) (name : String) (kind : LabelKind) (n : Nat) :
    (c.place (.hidden kind n)).labels (.function name) = c.labels (.function name) := by
  refine place_other c fun same => ?_
  cases same

/-- A label whose number is new is placed. -/
theorem grown_place {b : Code ω} (grown : Grown b c) (kind : LabelKind) (new : b.counter ≤ n) :
    Grown b (c.place (.hidden kind n)) where
  instructions := grown.instructions
  counter := grown.counter
  hidden := fun kind' m below =>
    (place_hidden c (Nat.ne_of_lt (Nat.lt_of_lt_of_le below new))).trans (grown.hidden kind' m below)
  functions := fun name place known => (place_function c name kind n).trans (grown.functions name place known)

theorem grown_openIf (c : Code ω) : Grown c c.openIf := (grown_bump c).trans (grown_emit c.bump _)

theorem grown_openWhile (c : Code ω) : Grown c c.openWhile := grown_place (grown_bump c) _ (Nat.le_refl _)

theorem grown_leaveThen (c : Code ω) : Grown c c.leaveThen := by
  unfold Code.leaveThen
  cases c.endLabel with
  | none => exact Grown.refl c
  | some l => exact (grown_bump c).trans (grown_emit c.bump _)

theorem endLabel_cases (c : Code ω) : c.endLabel = none ∧ c.endsIn Exit.terminal = true ∨
    c.endLabel = some (c.hidden .ifEnd) ∧ c.endsIn Exit.terminal = false := by
  unfold Code.endLabel
  cases c.endsIn Exit.terminal with
  | true => exact Or.inl ⟨rfl, rfl⟩
  | false => exact Or.inr ⟨rfl, rfl⟩

theorem grown_placeEnd {b : Code ω} (grown : Grown b d) (new : b.counter ≤ c.counter) :
    Grown b (d.placeEnd c.endLabel) := by
  rcases endLabel_cases c with ⟨label, _⟩ | ⟨label, _⟩
  · rw [label]
    exact grown
  · rw [label]
    exact grown_place grown _ new

/-- Emitting a body only adds to the code. -/
theorem grown_body (b : Block ω) (c : Code ω) : Grown c (b.emit c) := by
  induction b generalizing c with
  | done => exact Grown.refl c
  | word ws rest ih | call name rest ih | exit e rest ih => exact (grown_emit c _).trans (ih _)
  | cond then_ rest ihThen ihRest =>
    have branch := grown_place ((grown_openIf c).trans (ihThen c.openIf)) .ifFalse (Nat.le_refl c.counter)
    exact branch.trans (ihRest _)
  | either then_ else_ rest ihThen ihElse ihRest =>
    have opened := (grown_openIf c).trans (ihThen c.openIf)
    have left := grown_place (opened.trans (grown_leaveThen _)) .ifFalse (Nat.le_refl c.counter)
    exact (grown_placeEnd (left.trans (ihElse _)) opened.counter).trans (ihRest _)
  | loop body rest ihBody ihRest =>
    exact (((grown_openWhile c).trans (ihBody _)).trans (grown_emit _ _)).trans (ihRest _)

/-- A body places no function. -/
theorem emit_functions (b : Block ω) (c : Code ω) (name : String) :
    (b.emit c).labels (.function name) = c.labels (.function name) := by
  induction b generalizing c with
  | done => rfl
  | word ws rest ih => exact ih _
  | call _ rest ih => exact ih _
  | exit e rest ih => exact ih _
  | cond then_ rest ihThen ihRest => exact (ihRest _).trans ((place_function _ name _ _).trans (ihThen c.openIf))
  | either then_ else_ rest ihThen ihElse ihRest =>
    have left : (then_.emit c.openIf).leaveThen.labels = (then_.emit c.openIf).labels := by
      unfold Code.leaveThen
      cases (then_.emit c.openIf).endLabel <;> rfl
    have closed : ∀ d : Code ω,
        (d.placeEnd (then_.emit c.openIf).endLabel).labels (.function name) = d.labels (.function name) := by
      intro d
      rcases endLabel_cases (then_.emit c.openIf) with ⟨label, _⟩ | ⟨label, _⟩
      · rw [label]
        rfl
      · rw [label]
        exact place_function d name _ _
    refine (ihRest _).trans ((closed _).trans ((ihElse _).trans ((place_function _ name _ _).trans ?_)))
    rw [left]
    exact ihThen c.openIf
  | loop body rest ihBody ihRest =>
    exact (ihRest _).trans ((ihBody c.openWhile).trans (place_function c.bump name _ _))

/-! ## The layout -/

/-- These words stand at a place. -/
def WordsAt (p : Code ω) : List ω -> Nat -> Prop
  | [], _ => True
  | w :: ws, s => p.instructions[s]? = some (.word w) ∧ WordsAt p ws (s + 1)

/-- The code of a body lies from `s` to before `q`, and its jumps go where the
constructs say. -/
def At (p : Code ω) : Block ω -> Nat -> Nat -> Prop
  | .done, s, q => q = s
  | .word ws rest, s, q => WordsAt p ws s ∧ At p rest (s + ws.length) q
  | .call name rest, s, q => p.instructions[s]? = some (.call name) ∧ At p rest (s + 1) q
  | .exit e rest, s, q => p.instructions[s]? = some (.exit e) ∧ At p rest (s + 1) q
  | .cond then_ rest, s, q =>
    ∃ l m, p.instructions[s]? = some (.jnz l) ∧ p.labels l = some m ∧ At p then_ (s + 1) m ∧ At p rest m q
  | .either then_ else_ rest, s, q =>
    ∃ l a m, p.instructions[s]? = some (.jnz l) ∧ At p then_ (s + 1) a ∧ At p rest m q ∧
      if then_.ends Exit.terminal false = true then p.labels l = some a ∧ At p else_ a m
      else p.labels l = some (a + 1) ∧ At p else_ (a + 1) m ∧
        ∃ l', p.instructions[a]? = some (.jmp l') ∧ p.labels l' = some m
  | .loop body rest, s, q =>
    ∃ l a, At p body s a ∧ p.instructions[a]? = some (.jz l) ∧ p.labels l = some s ∧ At p rest (a + 1) q

/-- The labels with the numbers from `lo` on that `c` has are as they were. -/
structure Keeps (lo : Nat) (c d : Code ω) : Prop where
  counter : c.counter ≤ d.counter
  labels : ∀ kind n, lo ≤ n -> n < c.counter -> d.labels (.hidden kind n) = c.labels (.hidden kind n)

theorem Grown.keeps (grown : Grown c d) (lo : Nat) : Keeps lo c d :=
  ⟨grown.counter, fun kind n _ below => grown.hidden kind n below⟩

theorem Keeps.trans {e : Code ω} (first : Keeps lo c d) (second : Keeps lo d e) : Keeps lo c e :=
  ⟨Nat.le_trans first.counter second.counter, fun kind n above below =>
    (second.labels kind n above (Nat.lt_of_lt_of_le below first.counter)).trans (first.labels kind n above below)⟩

/-- A label of an open construct, or a new one, is placed. -/
theorem Keeps.place (keeps : Keeps lo c d) (kind : LabelKind) (other : n < lo ∨ c.counter ≤ n) :
    Keeps lo c (d.place (.hidden kind n)) where
  counter := keeps.counter
  labels := fun kind' m above below => by
    have differ : m ≠ n := by omega
    exact (place_hidden d differ).trans (keeps.labels kind' m above below)

/-- The labels with the numbers from `lo` on are final. -/
def Settled (p c : Code ω) (lo : Nat) : Prop :=
  ∀ kind n, lo ≤ n -> n < c.counter -> p.labels (.hidden kind n) = c.labels (.hidden kind n)

theorem Settled.earlier {lo' : Nat} (settled : Settled p d lo) (above : lo ≤ lo') (keeps : Keeps lo' c d) :
    Settled p c lo' := fun kind n from_ below =>
  (settled kind n (Nat.le_trans above from_) (Nat.lt_of_lt_of_le below keeps.counter)).trans
    (keeps.labels kind n from_ below)

/-- The place behind the code. -/
def Code.here (c : Code ω) : Nat := c.instructions.length

theorem instruction_at {i : Instr ω} (kept : (c.emit [i]).instructions <+: p.instructions) :
    p.instructions[c.here]? = some i := by
  obtain ⟨rest, same⟩ := kept
  rw [← same]
  unfold Code.emit Code.here
  dsimp only
  rw [List.append_assoc, List.getElem?_append_right (Nat.le_refl _), Nat.sub_self]
  rfl

theorem here_emit (c : Code ω) (is : List (Instr ω)) : (c.emit is).here = c.here + is.length := List.length_append

theorem words_at (ws : List ω) (c : Code ω) (kept : (c.emit (ws.map .word)).instructions <+: p.instructions) :
    WordsAt p ws c.here := by
  induction ws generalizing c with
  | nil => trivial
  | cons w ws ih =>
    have split_ : c.emit ((w :: ws).map .word) = (c.emit [.word w]).emit (ws.map .word) := by
      unfold Code.emit
      dsimp only
      rw [List.append_assoc]
      rfl
    rw [split_] at kept
    refine ⟨instruction_at ((grown_emit (c.emit [.word w]) _).instructions.trans kept), ?_⟩
    have later := ih (c.emit [.word w]) kept
    rw [here_emit] at later
    exact later

/-- What is to be shown of a body. -/
def LaidOut (p : Code ω) (b : Block ω) : Prop :=
  ∀ c : Code ω, (b.emit c).instructions <+: p.instructions -> Settled p (b.emit c) c.counter ->
    At p b c.here (b.emit c).here

/-- An `if` with an `else` whose then-branch ends in an exit: no jump stands in
front of the else-branch. -/
theorem either_without_jump {thenCode : Code ω} {else_ rest : Block ω} (elseLaid : LaidOut p else_)
    (restLaid : LaidOut p rest) (below : c.counter < thenCode.counter)
    (kept : (rest.emit (else_.emit (thenCode.place (c.hidden .ifFalse)))).instructions <+: p.instructions)
    (settled : Settled p (rest.emit (else_.emit (thenCode.place (c.hidden .ifFalse)))) c.counter) :
    thenCode.instructions <+: p.instructions ∧ Settled p thenCode (c.counter + 1) ∧
      p.labels (c.hidden .ifFalse) = some thenCode.here ∧
      At p else_ thenCode.here (else_.emit (thenCode.place (c.hidden .ifFalse))).here ∧
      At p rest (else_.emit (thenCode.place (c.hidden .ifFalse))).here
        (rest.emit (else_.emit (thenCode.place (c.hidden .ifFalse)))).here := by
  have elseGrown := grown_body else_ (thenCode.place (c.hidden .ifFalse))
  have restGrown := grown_body rest (else_.emit (thenCode.place (c.hidden .ifFalse)))
  have elseKept := restGrown.instructions.trans kept
  have grown := elseGrown.trans restGrown
  have placed : Keeps (c.counter + 1) thenCode (thenCode.place (c.hidden .ifFalse)) :=
    ((Grown.refl _).keeps _).place .ifFalse (Or.inl (Nat.lt_succ_self c.counter))
  refine ⟨elseGrown.instructions.trans elseKept, ?_, ?_, ?_, ?_⟩
  · exact settled.earlier (Nat.le_succ _) (placed.trans (grown.keeps _))
  · have final := settled.earlier (Nat.le_refl _) (grown.keeps c.counter)
    exact (final .ifFalse c.counter (Nat.le_refl _) below).trans (place_self ..)
  · exact elseLaid _ elseKept (settled.earlier (Nat.le_of_lt below) (restGrown.keeps _))
  · exact restLaid _ kept
      (settled.earlier (Nat.le_of_lt (Nat.lt_of_lt_of_le below elseGrown.counter)) ((Grown.refl _).keeps _))

/-- The code up to the `else` with the jump to the end. -/
def Code.jumpEnd (c : Code ω) : Code ω := c.bump.emit [.jmp (c.hidden .ifEnd)]

/-- Any other `if` with an `else`. -/
theorem either_with_jump {thenCode : Code ω} {else_ rest : Block ω} (elseLaid : LaidOut p else_)
    (restLaid : LaidOut p rest) (below : c.counter < thenCode.counter)
    (kept : (rest.emit ((else_.emit (thenCode.jumpEnd.place (c.hidden .ifFalse))).place
      (thenCode.hidden .ifEnd))).instructions <+: p.instructions)
    (settled : Settled p (rest.emit ((else_.emit (thenCode.jumpEnd.place (c.hidden .ifFalse))).place
      (thenCode.hidden .ifEnd))) c.counter) :
    thenCode.instructions <+: p.instructions ∧ Settled p thenCode (c.counter + 1) ∧
      p.labels (c.hidden .ifFalse) = some (thenCode.here + 1) ∧
      At p else_ (thenCode.here + 1) (else_.emit (thenCode.jumpEnd.place (c.hidden .ifFalse))).here ∧
      p.instructions[thenCode.here]? = some (.jmp (thenCode.hidden .ifEnd)) ∧
      p.labels (thenCode.hidden .ifEnd) =
        some (else_.emit (thenCode.jumpEnd.place (c.hidden .ifFalse))).here ∧
      At p rest (else_.emit (thenCode.jumpEnd.place (c.hidden .ifFalse))).here
        (rest.emit ((else_.emit (thenCode.jumpEnd.place (c.hidden .ifFalse))).place (thenCode.hidden .ifEnd))).here := by
  have jumpGrown : Grown thenCode thenCode.jumpEnd := (grown_bump _).trans (grown_emit _ _)
  have jumpHere : thenCode.jumpEnd.here = thenCode.here + 1 := here_emit thenCode.bump _
  have counter : thenCode.jumpEnd.counter = thenCode.counter + 1 := rfl
  have elseGrown := grown_body else_ (thenCode.jumpEnd.place (c.hidden .ifFalse))
  have elseCounter : thenCode.counter < (else_.emit (thenCode.jumpEnd.place (c.hidden .ifFalse))).counter :=
    elseGrown.counter
  generalize elseCode : else_.emit (thenCode.jumpEnd.place (c.hidden .ifFalse)) = code at *
  have restGrown := grown_body rest (code.place (thenCode.hidden .ifEnd))
  have elseKept : code.instructions <+: p.instructions := restGrown.instructions.trans kept
  have jumpKept : thenCode.jumpEnd.instructions <+: p.instructions := elseGrown.instructions.trans elseKept
  have final := settled.earlier (Nat.le_refl _) (restGrown.keeps c.counter)
  -- the labels of the then-branch, which the pass has left behind
  have left : Keeps (c.counter + 1) thenCode (code.place (thenCode.hidden .ifEnd)) := by
    have opened := (jumpGrown.keeps (c.counter + 1)).place .ifFalse (Or.inl (Nat.lt_succ_self c.counter))
    exact (opened.trans (elseGrown.keeps _)).place .ifEnd (Or.inr (Nat.le_refl _))
  have apart : c.counter ≠ thenCode.counter := Nat.ne_of_lt below
  refine ⟨jumpGrown.instructions.trans jumpKept, ?_, ?_, ?_, ?_, ?_, ?_⟩
  · exact final.earlier (Nat.le_succ _) left
  · have early := (final .ifFalse c.counter (Nat.le_refl _) (Nat.lt_trans below elseCounter)).trans (place_hidden _ apart)
    have opened := elseGrown.hidden .ifFalse c.counter (Nat.lt_succ_of_lt below)
    have placed : (thenCode.jumpEnd.place (c.hidden .ifFalse)).labels (c.hidden .ifFalse) =
      some thenCode.jumpEnd.here := place_self ..
    rw [jumpHere] at placed
    exact (early.trans opened).trans placed
  · have inner := elseLaid (thenCode.jumpEnd.place (c.hidden .ifFalse))
    have start : (thenCode.jumpEnd.place (c.hidden .ifFalse)).here = thenCode.here + 1 := jumpHere
    rw [elseCode, start] at inner
    refine inner elseKept ?_
    have open_ : Keeps (thenCode.counter + 1) code (code.place (thenCode.hidden .ifEnd)) :=
      ((Grown.refl _).keeps _).place .ifEnd (Or.inl (Nat.lt_succ_self _))
    exact final.earlier (Nat.le_succ_of_le (Nat.le_of_lt below)) open_
  · exact @instruction_at _ thenCode.bump _ _ jumpKept
  · exact (final .ifEnd thenCode.counter (Nat.le_of_lt below) elseCounter).trans (place_self ..)
  · exact restLaid _ kept (settled.earlier (Nat.le_of_lt (Nat.lt_trans below elseCounter)) ((Grown.refl _).keeps _))

/-- The code the pass emits for a body is laid out as the body says. -/
theorem emit_at (p : Code ω) (b : Block ω) : LaidOut p b := by
  unfold LaidOut
  induction b with
  | done =>
    intro c _ _
    rfl
  | word ws rest ih =>
    intro c kept settled
    have grown := grown_body rest (c.emit (ws.map .word))
    refine ⟨words_at ws c (grown.instructions.trans kept), ?_⟩
    have later := ih (c.emit (ws.map .word)) kept settled
    rw [here_emit, List.length_map] at later
    exact later
  | call name rest ih =>
    intro c kept settled
    have grown := grown_body rest (c.emit [.call name])
    refine ⟨instruction_at (grown.instructions.trans kept), ?_⟩
    have later := ih (c.emit [.call name]) kept settled
    rw [here_emit] at later
    exact later
  | exit e rest ih =>
    intro c kept settled
    have grown := grown_body rest (c.emit [.exit e])
    refine ⟨instruction_at (grown.instructions.trans kept), ?_⟩
    have later := ih (c.emit [.exit e]) kept settled
    rw [here_emit] at later
    exact later
  | cond then_ rest ihThen ihRest =>
    intro c kept settled
    have thenGrown := grown_body then_ c.openIf
    have restGrown := grown_body rest ((then_.emit c.openIf).place (c.hidden .ifFalse))
    have thenKept := restGrown.instructions.trans kept
    have below : c.counter < (then_.emit c.openIf).counter := Nat.lt_of_lt_of_le (Nat.lt_succ_self _) thenGrown.counter
    have placed : Keeps c.openIf.counter (then_.emit c.openIf) ((then_.emit c.openIf).place (c.hidden .ifFalse)) :=
      ((Grown.refl _).keeps _).place .ifFalse (Or.inl (Nat.lt_succ_self c.counter))
    refine ⟨c.hidden .ifFalse, (then_.emit c.openIf).here, ?_, ?_, ?_, ?_⟩
    · exact @instruction_at _ c.bump _ _ (thenGrown.instructions.trans thenKept)
    · have final := settled.earlier (Nat.le_refl _) (restGrown.keeps c.counter)
      exact (final .ifFalse c.counter (Nat.le_refl _) below).trans (place_self ..)
    · have inner := ihThen _ thenKept (settled.earlier (Nat.le_succ _) (placed.trans (restGrown.keeps _)))
      have start : c.openIf.here = c.here + 1 := here_emit c.bump _
      rw [start] at inner
      exact inner
    · exact ihRest _ kept (settled.earlier (Nat.le_of_lt below) ((Grown.refl _).keeps _))
  | either then_ else_ rest ihThen ihElse ihRest =>
    intro c kept settled
    have thenGrown := grown_body then_ c.openIf
    have below : c.counter < (then_.emit c.openIf).counter := Nat.lt_of_lt_of_le (Nat.lt_succ_self _) thenGrown.counter
    have opened : c.openIf.endsIn Exit.terminal = false := endsIn_one _ c.bump _
    have terminal := emit_endsIn Exit.terminal c.openIf then_
    have start : c.openIf.here = c.here + 1 := here_emit c.bump _
    have thenAt := ihThen c.openIf
    have jump : (then_.emit c.openIf).instructions <+: p.instructions ->
        p.instructions[c.here]? = some (.jnz (c.hidden .ifFalse)) := fun thenKept =>
      @instruction_at _ c.bump _ _ (thenGrown.instructions.trans thenKept)
    rw [opened] at terminal
    rw [start] at thenAt
    unfold Block.emit at kept settled ⊢
    generalize then_.emit c.openIf = thenCode at *
    unfold Code.leaveThen at kept settled ⊢
    rcases endLabel_cases thenCode with ⟨label, last⟩ | ⟨label, last⟩
    · rw [label] at kept settled ⊢
      obtain ⟨thenKept, thenSettled, falseLabel, elseAt, restAt⟩ :=
        either_without_jump ihElse ihRest below kept settled
      refine ⟨_, _, _, jump thenKept, thenAt thenKept thenSettled, restAt, ?_⟩
      rw [if_pos (terminal.symm.trans last)]
      exact ⟨falseLabel, elseAt⟩
    · rw [label] at kept settled ⊢
      obtain ⟨thenKept, thenSettled, falseLabel, elseAt, jumps, endLabel, restAt⟩ :=
        either_with_jump ihElse ihRest below kept settled
      refine ⟨_, _, _, jump thenKept, thenAt thenKept thenSettled, restAt, ?_⟩
      rw [if_neg]
      · exact ⟨falseLabel, elseAt, _, jumps, endLabel⟩
      · rw [← terminal, last]
        exact Bool.false_ne_true
  | loop body rest ihBody ihRest =>
    intro c kept settled
    have bodyGrown := grown_body body c.openWhile
    have restGrown := grown_body rest ((body.emit c.openWhile).emit [.jz (c.hidden .whileStart)])
    have jumpKept := restGrown.instructions.trans kept
    have grown := (grown_emit (body.emit c.openWhile) [.jz (c.hidden .whileStart)]).trans restGrown
    have below : c.counter < (body.emit c.openWhile).counter := Nat.lt_of_lt_of_le (Nat.lt_succ_self _) bodyGrown.counter
    refine ⟨c.hidden .whileStart, (body.emit c.openWhile).here, ?_, ?_, ?_, ?_⟩
    · exact ihBody _ ((grown_emit _ _).instructions.trans jumpKept)
        (settled.earlier (Nat.le_succ _) (grown.keeps _))
    · exact instruction_at jumpKept
    · have final := settled.earlier (Nat.le_refl _) (grown.keeps c.counter)
      have inside := bodyGrown.hidden .whileStart c.counter (Nat.lt_succ_self _)
      have placed : c.openWhile.labels (c.hidden .whileStart) = some c.here := place_self c.bump _
      exact ((final .whileStart c.counter (Nat.le_refl _) below).trans inside).trans placed
    · have later := ihRest _ kept (settled.earlier (Nat.le_of_lt below) ((Grown.refl _).keeps _))
      rw [here_emit] at later
      exact later

/-! ## Programs -/

/-- A function places its own name only. -/
theorem routine_functions (r : Routine ω) (c : Code ω) {name : String} (other : name ≠ r.name) :
    (r.emit c).labels (.function name) = c.labels (.function name) := by
  have differ : Label.function name ≠ .function r.name := fun same => other (Label.function.inj same)
  have body := (emit_functions r.block (c.place (.function r.name)) name).trans (place_other c differ)
  unfold Routine.emit Code.closeBody
  split
  · exact body
  · exact body

theorem mainCode_functions (script : Script ω) (name : String) : script.mainCode.labels (.function name) = none := by
  have nobody := emit_functions script.main Code.empty name
  unfold Script.mainCode
  split
  · exact nobody
  · exact nobody

end Src32.Sol
