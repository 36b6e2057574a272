import Src32.Lib.Fallible
import Src32.Sol.Compile

namespace Src32.Sol

/-!
# The nesting of a program

A body as its constructs nest, the words it is written with, and the code the
pass emits for it.  The pass accepts exactly the words of such bodies, so that
everything below is about every program it accepts.
-/

variable {ω : Type}

/-- The words of a body from one of them on.  A construct holds its branches. -/
inductive Block (ω : Type) where
  | done
  | word (ws : List ω) (rest : Block ω)
  | call (name : String) (rest : Block ω)
  | exit (e : Exit) (rest : Block ω)
  /-- `if then_ end` -/
  | cond (then_ rest : Block ω)
  /-- `if then_ else else_ end` -/
  | either (then_ else_ rest : Block ω)
  /-- `while body end` -/
  | loop (body rest : Block ω)

namespace Block

/-- How the body is written. -/
def tokens : Block ω -> List (Token ω)
  | done => []
  | word ws rest => .word ws :: rest.tokens
  | call name rest => .call name :: rest.tokens
  | exit e rest => .exit e :: rest.tokens
  | cond then_ rest => .if_ :: (then_.tokens ++ .end_ :: rest.tokens)
  | either then_ else_ rest => .if_ :: (then_.tokens ++ .else_ :: (else_.tokens ++ .end_ :: rest.tokens))
  | loop body rest => .while_ :: (body.tokens ++ .end_ :: rest.tokens)

/-- What the pass emits for the body. -/
def emit : Block ω -> Code ω -> Code ω
  | done, c => c
  | word ws rest, c => rest.emit (c.emit (ws.map .word))
  | call name rest, c => rest.emit (c.emit [.call name])
  | exit e rest, c => rest.emit (c.emit [.exit e])
  | cond then_ rest, c => rest.emit ((then_.emit c.openIf).place (c.hidden .ifFalse))
  | either then_ else_ rest, c =>
    rest.emit ((else_.emit ((then_.emit c.openIf).leaveThen.place (c.hidden .ifFalse))).placeEnd
      (then_.emit c.openIf).endLabel)
  | loop body rest, c => rest.emit ((body.emit c.openWhile).emit [.jz (c.hidden .whileStart)])

end Block

/-! ## The pass reads bodies -/

/-- The words behind a body: none, or a token that stops the pass. -/
def Stopped (stops : Token ω -> Bool) : List (Token ω) -> Prop
  | [] => True
  | tok :: _ => stops tok = true

/-- `else` and `end`. -/
def Token.closes : Token ω -> Bool
  | .else_ => true
  | .end_ => true
  | _ => false

/-- Only `else` and `end` stop the pass. -/
def StopsAtEnds (stops : Token ω -> Bool) : Prop := ∀ tok, stops tok = true -> tok.closes = true

theorem stopsNever_ends : StopsAtEnds (@stopsNever ω) := by
  intro tok stopped
  cases stopped

theorem stopsThen_ends : StopsAtEnds (@stopsThen ω) := by
  intro tok stopped
  exact stopped

theorem stopsEnd_ends : StopsAtEnds (@stopsEnd ω) := by
  intro tok stopped
  cases tok with
  | end_ => rfl
  | _ => cases stopped

theorem StopsAtEnds.passes {stops : Token ω -> Bool} (ends : StopsAtEnds stops) (tok : Token ω)
    (inner : tok.closes = false) : ¬ stops tok = true := by
  intro stopped
  rw [ends tok stopped] at inner
  cases inner

/-- The words of a body are read to their end. -/
theorem compileWordStream_tokens (b : Block ω) {fuel : Nat} {rest : List (Token ω)} {stops : Token ω -> Bool}
    (ends : StopsAtEnds stops) (enough : b.tokens.length < fuel) (behind : Stopped stops rest) (c : Code ω) :
    compileWordStream fuel (b.tokens ++ rest) stops c = .ok (rest, b.emit c) := by
  induction b generalizing fuel rest stops c with
  | done =>
    obtain ⟨n, rfl⟩ := Nat.exists_eq_succ_of_ne_zero (Nat.ne_of_gt enough)
    change compileWordStream (n + 1) rest stops c = _
    unfold compileWordStream
    cases rest with
    | nil => rfl
    | cons tok words =>
      dsimp only
      rw [if_pos (show stops tok = true from behind)]
      rfl
  | word _ next ih | call _ next ih | exit _ next ih =>
    obtain ⟨n, rfl⟩ := Nat.exists_eq_succ_of_ne_zero (Nat.ne_zero_of_lt enough)
    have room : next.tokens.length < n := Nat.lt_of_succ_lt_succ enough
    change compileWordStream (n + 1) (_ :: (next.tokens ++ rest)) stops c = _
    unfold compileWordStream
    dsimp only
    rw [if_neg (ends.passes _ rfl)]
    exact ih ends room behind _
  | cond then_ next ihThen ihNext =>
    obtain ⟨n, rfl⟩ := Nat.exists_eq_succ_of_ne_zero (Nat.ne_zero_of_lt enough)
    have length : (then_.tokens ++ .end_ :: next.tokens).length < n := Nat.lt_of_succ_lt_succ enough
    rw [List.length_append, List.length_cons] at length
    have words : (Block.cond then_ next).tokens ++ rest =
        .if_ :: (then_.tokens ++ (.end_ :: (next.tokens ++ rest))) := by
      change .if_ :: ((then_.tokens ++ .end_ :: next.tokens) ++ rest) = _
      rw [List.append_assoc, List.cons_append]
    have thenRead := @ihThen n (.end_ :: (next.tokens ++ rest)) _ stopsThen_ends (by omega) rfl c.openIf
    rw [words]
    unfold compileWordStream
    dsimp only
    rw [if_neg (ends.passes .if_ rfl), thenRead]
    exact ihNext ends (by omega) behind _
  | either then_ else_ next ihThen ihElse ihNext =>
    obtain ⟨n, rfl⟩ := Nat.exists_eq_succ_of_ne_zero (Nat.ne_zero_of_lt enough)
    have length : (then_.tokens ++ .else_ :: (else_.tokens ++ .end_ :: next.tokens)).length < n :=
      Nat.lt_of_succ_lt_succ enough
    rw [List.length_append, List.length_cons, List.length_append, List.length_cons] at length
    have words : (Block.either then_ else_ next).tokens ++ rest =
        .if_ :: (then_.tokens ++ (.else_ :: (else_.tokens ++ (.end_ :: (next.tokens ++ rest))))) := by
      change .if_ :: ((then_.tokens ++ .else_ :: (else_.tokens ++ .end_ :: next.tokens)) ++ rest) = _
      rw [List.append_assoc, List.cons_append, List.append_assoc, List.cons_append]
    have thenRead := @ihThen n (.else_ :: (else_.tokens ++ (.end_ :: (next.tokens ++ rest)))) _
      stopsThen_ends (by omega) rfl c.openIf
    have elseRead := @ihElse n (.end_ :: (next.tokens ++ rest)) _ stopsEnd_ends (by omega) rfl
      ((then_.emit c.openIf).leaveThen.place (c.hidden .ifFalse))
    rw [words]
    unfold compileWordStream
    dsimp only
    rw [if_neg (ends.passes .if_ rfl), thenRead]
    dsimp only
    rw [elseRead]
    exact ihNext ends (by omega) behind _
  | loop body next ihBody ihNext =>
    obtain ⟨n, rfl⟩ := Nat.exists_eq_succ_of_ne_zero (Nat.ne_zero_of_lt enough)
    have length : (body.tokens ++ .end_ :: next.tokens).length < n := Nat.lt_of_succ_lt_succ enough
    rw [List.length_append, List.length_cons] at length
    have words : (Block.loop body next).tokens ++ rest =
        .while_ :: (body.tokens ++ (.end_ :: (next.tokens ++ rest))) := by
      change .while_ :: ((body.tokens ++ .end_ :: next.tokens) ++ rest) = _
      rw [List.append_assoc, List.cons_append]
    have bodyRead := @ihBody n (.end_ :: (next.tokens ++ rest)) _ stopsEnd_ends (by omega) rfl
      c.openWhile
    rw [words]
    unfold compileWordStream
    dsimp only
    rw [if_neg (ends.passes .while_ rfl), bodyRead]
    exact ihNext ends (by omega) behind _

/-- The words the pass has read are those of a body. -/
theorem block_of_compileWordStream {fuel : Nat} {words rest : List (Token ω)} {stops : Token ω -> Bool} {c code : Code ω}
    (compiled : compileWordStream fuel words stops c = .ok (rest, code)) :
    ∃ b : Block ω, words = b.tokens ++ rest ∧ Stopped stops rest ∧ code = b.emit c := by
  induction fuel generalizing words rest stops c code with
  | zero => cases compiled
  | succ n ih =>
    unfold compileWordStream at compiled
    cases words with
    | nil =>
      cases compiled
      exact ⟨.done, rfl, trivial, rfl⟩
    | cons tok words =>
      dsimp only at compiled
      by_cases stopped : stops tok = true
      · rw [if_pos stopped] at compiled
        cases compiled
        exact ⟨.done, rfl, stopped, rfl⟩
      · rw [if_neg stopped] at compiled
        cases tok with
        | word ws =>
          obtain ⟨b, read, behind, emitted⟩ := ih compiled
          exact ⟨.word ws b, congrArg (Token.word ws :: ·) read, behind, emitted⟩
        | call name =>
          obtain ⟨b, read, behind, emitted⟩ := ih compiled
          exact ⟨.call name b, congrArg (Token.call name :: ·) read, behind, emitted⟩
        | exit e =>
          obtain ⟨b, read, behind, emitted⟩ := ih compiled
          exact ⟨.exit e b, congrArg (Token.exit e :: ·) read, behind, emitted⟩
        | if_ =>
          dsimp only at compiled
          cases thenRun : compileWordStream n words stopsThen c.openIf with
          | error error =>
            rw [thenRun] at compiled
            cases compiled
          | ok result =>
            obtain ⟨afterThen, thenCode⟩ := result
            rw [thenRun] at compiled
            obtain ⟨then_, read, behind, emitted⟩ := ih thenRun
            subst emitted
            cases afterThen with
            | nil => cases compiled
            | cons stop words' =>
              cases stop with
              | else_ =>
                dsimp only at compiled
                cases elseRun : compileWordStream n words' stopsEnd
                    ((then_.emit c.openIf).leaveThen.place (c.hidden .ifFalse)) with
                | error error =>
                  rw [elseRun] at compiled
                  cases compiled
                | ok result =>
                  obtain ⟨afterElse, elseCode⟩ := result
                  rw [elseRun] at compiled
                  obtain ⟨else_, readElse, behindElse, emittedElse⟩ := ih elseRun
                  subst emittedElse
                  cases afterElse with
                  | nil => cases compiled
                  | cons stop words'' =>
                    cases stop with
                    | end_ =>
                      obtain ⟨b, readRest, behindRest, emittedRest⟩ := ih compiled
                      refine ⟨.either then_ else_ b, ?_, behindRest, emittedRest⟩
                      rw [read, readElse, readRest]
                      change _ = .if_ :: ((then_.tokens ++ .else_ ::
                        (else_.tokens ++ .end_ :: b.tokens)) ++ rest)
                      rw [List.append_assoc, List.cons_append, List.append_assoc, List.cons_append]
                    | _ => cases behindElse
              | end_ =>
                obtain ⟨b, readRest, behindRest, emittedRest⟩ := ih compiled
                refine ⟨.cond then_ b, ?_, behindRest, emittedRest⟩
                rw [read, readRest]
                change _ = .if_ :: ((then_.tokens ++ .end_ :: b.tokens) ++ rest)
                rw [List.append_assoc, List.cons_append]
              | _ => cases behind
        | while_ =>
          dsimp only at compiled
          cases bodyRun : compileWordStream n words stopsEnd c.openWhile with
          | error error =>
            rw [bodyRun] at compiled
            cases compiled
          | ok result =>
            obtain ⟨afterBody, bodyCode⟩ := result
            rw [bodyRun] at compiled
            obtain ⟨body, read, behind, emitted⟩ := ih bodyRun
            subst emitted
            cases afterBody with
            | nil => cases compiled
            | cons stop words' =>
              cases stop with
              | end_ =>
                obtain ⟨b, readRest, behindRest, emittedRest⟩ := ih compiled
                refine ⟨.loop body b, ?_, behindRest, emittedRest⟩
                rw [read, readRest]
                change _ = .while_ :: ((body.tokens ++ .end_ :: b.tokens) ++ rest)
                rw [List.append_assoc, List.cons_append]
              | _ => cases behind
        | else_ => cases compiled
        | end_ => cases compiled

theorem compileAll_tokens (b : Block ω) (c : Code ω) : compileAll b.tokens c = .ok (b.emit c) := by
  have behind : Stopped (@stopsNever ω) [] := trivial
  have read := compileWordStream_tokens b stopsNever_ends (Nat.lt_succ_self b.tokens.length) behind c
  rw [List.append_nil] at read
  unfold compileAll
  rw [read]

theorem block_of_compileAll {words : List (Token ω)} {c code : Code ω} (compiled : compileAll words c = .ok code) :
    ∃ b : Block ω, words = b.tokens ∧ code = b.emit c := by
  unfold compileAll at compiled
  cases run : compileWordStream (words.length + 1) words stopsNever c with
  | error error =>
    rw [run] at compiled
    cases compiled
  | ok result =>
    obtain ⟨rest, last⟩ := result
    rw [run] at compiled
    cases compiled
    obtain ⟨b, read, behind, emitted⟩ := block_of_compileWordStream run
    cases rest with
    | nil =>
      rw [List.append_nil] at read
      exact ⟨b, read, emitted⟩
    | cons tok rest => cases behind

/-! ## Programs -/

/-- A function with the nesting of its body. -/
structure Routine (ω : Type) where
  name : String
  inits : List ω
  body : Block ω

/-- The words of the routine, with the values its locals start with. -/
def Routine.block (r : Routine ω) : Block ω := .word r.inits r.body

def Routine.function (r : Routine ω) : Function ω := ⟨r.name, r.inits, r.body.tokens⟩

/-- What the pass emits for the routine. -/
def Routine.emit (r : Routine ω) (c : Code ω) : Code ω :=
  (r.block.emit (c.place (.function r.name))).closeBody c.instructions.length

/-- A program with the nesting of its bodies. -/
structure Script (ω : Type) where
  main : Block ω
  functions : List (Routine ω)

def Script.source (script : Script ω) : Source ω := ⟨script.main.tokens, script.functions.map Routine.function⟩

/-- The code of the main program: with functions behind it, it halts. -/
def Script.mainCode (script : Script ω) : Code ω :=
  if script.functions = [] then script.main.emit Code.empty
  else (script.main.emit Code.empty).emit [.exit .halt]

theorem compileFunction_ok {r : Routine ω} {c next : Code ω} (compiled : compileFunction c r.function = .ok next) :
    c.labels (.function r.name) = none ∧ next = r.emit c := by
  unfold compileFunction at compiled
  by_cases conflict : (c.labels (.function r.function.name)).isSome = true
  · rw [if_pos conflict] at compiled
    cases compiled
  · rw [if_neg conflict] at compiled
    have read := compileAll_tokens r.body ((c.place (.function r.name)).emit (r.inits.map .word))
    have same : compileAll r.function.body ((c.place (.function r.function.name)).emit (r.function.inits.map .word)) =
        .ok (r.block.emit (c.place (.function r.name))) := read
    rw [same] at compiled
    cases compiled
    exact ⟨Option.not_isSome_iff_eq_none.mp conflict, rfl⟩

theorem routine_of_compileFunction {f : Function ω} {c next : Code ω} (compiled : compileFunction c f = .ok next) :
    ∃ r : Routine ω, f = r.function := by
  unfold compileFunction at compiled
  split at compiled
  · cases compiled
  · cases body : compileAll f.body ((c.place (.function f.name)).emit (f.inits.map .word)) with
    | error error =>
      rw [body] at compiled
      cases compiled
    | ok code =>
      obtain ⟨b, read, _⟩ := block_of_compileAll body
      refine ⟨⟨f.name, f.inits, b⟩, ?_⟩
      unfold Routine.function
      dsimp only
      rw [← read]

theorem routines_of_fold {functions : List (Function ω)} {c p : Code ω}
    (compiled : functions.foldlM compileFunction c = .ok p) :
    ∃ routines : List (Routine ω), functions = routines.map Routine.function := by
  induction functions generalizing c with
  | nil => exact ⟨[], rfl⟩
  | cons f rest ih =>
    rw [List.foldlM_cons] at compiled
    obtain ⟨next, first, later⟩ := Fallible.bind_ok compiled
    obtain ⟨r, same⟩ := routine_of_compileFunction first
    obtain ⟨routines, others⟩ := ih later
    refine ⟨r :: routines, ?_⟩
    rw [same, others]
    rfl

/-- The pass accepts the words of programs only. -/
theorem script_of_compileProgram {source : Source ω} {p : Code ω} (compiled : compileProgram source = .ok p) :
    ∃ script : Script ω, script.source = source := by
  unfold compileProgram at compiled
  cases mainRun : compileAll source.main Code.empty with
  | error error =>
    rw [mainRun] at compiled
    cases compiled
  | ok mainCode =>
    rw [mainRun] at compiled
    dsimp only at compiled
    obtain ⟨main, read, _⟩ := block_of_compileAll mainRun
    cases fold : source.functions.foldlM compileFunction
        (if source.functions = [] then mainCode else mainCode.emit [.exit .halt]) with
    | error error =>
      rw [fold] at compiled
      cases compiled
    | ok last =>
      obtain ⟨routines, functions⟩ := routines_of_fold fold
      refine ⟨⟨main, routines⟩, ?_⟩
      unfold Script.source
      dsimp only
      rw [← read, ← functions]

/-! ## Every program is accepted -/

section
variable {c : Code ω} {open_ : Label -> Prop}

end

end Src32.Sol
