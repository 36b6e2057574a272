import Src32.Lib.Intervals
import Src32.Wax.Parse

namespace Src32.Wax

open Interval

/-!
# What the parsers accept

The checks of the parsers that the later stages rely on, read back from a
successful parse, and the layout they add up to: the blocks of an accepted
image follow one another from its base to the end of its reservation, without
wrapping.  Version 3 has that layout always; version 2 has it when its blocks
start below the CPU-reserved area, which its check of a block's size takes for
granted.
-/

/-- An accepted version 2 image. -/
structure V2Accepted (im : Image) : Prop where
  version : im.version = 2
  kind : im.type = typeWax
  relocatable : im.relocatable = false
  depCount : im.depCount = 0
  importCount : im.importCount = 0
  blockCount : im.blockCount ≠ 0
  loop : ∃ tableEnd spans stop after, v2Blocks im.base im.size tableEnd true 0 spans im.blocks = some (stop, after) ∧
    im.span = stop - im.base
  stack : v2StackOk im = true

/-- An accepted version 3 image. -/
structure V3Accepted (im : Image) : Prop where
  version : im.version = 3
  header : v3HeaderOk im = true
  kind : v3KindOk im = true
  blockCount : im.blockCount ≠ 0
  loop : ∃ spans stop after, v3Blocks im.base im.size true 0 4 spans im.blocks = some (stop, im.align, after) ∧
    im.span = stop - im.base ∧ v3StackOk im stop = true
  deps : v3DepsOk im = true
  exports : v3ExportsOk im = true
  imports : v3ImportsOk im = true
  relocs : v3RelocsOk im = true

variable {final im : Image}

theorem v2Body_ok (accepted : v2Body im = .ok final) :
    ∃ spans stop after, v2Blocks im.base im.size (im.blockTable + im.blockCount * 16) true 0 spans im.blocks =
        some (stop, after) ∧
      final = { im with span := stop - im.base, align := 1 } ∧ v2StackOk final = true := by
  unfold v2Body at accepted
  cases debug : addSpan [] (im.word 36) (im.word 40) im.size with
  | none =>
    rw [debug] at accepted
    cases accepted
  | some spans =>
    rw [debug] at accepted
    dsimp only at accepted
    cases blocks : v2Blocks im.base im.size (im.blockTable + im.blockCount * 16) true 0 spans im.blocks with
    | none =>
      rw [blocks] at accepted
      cases accepted
    | some pair =>
      obtain ⟨stop, after⟩ := pair
      rw [blocks] at accepted
      dsimp only at accepted
      refine ⟨spans, stop, after, blocks, ?_⟩
      by_cases gaps : spansOk after im.data false = true
      · rw [gaps, Bool.not_true, if_neg Bool.false_ne_true] at accepted
        split_ifs at accepted with both
        cases accepted
        exact ⟨rfl, (Bool.and_eq_true_iff.mp both).1⟩
      · rw [Bool.not_eq_true] at gaps
        rw [gaps, Bool.not_false, if_pos rfl] at accepted
        cases accepted

theorem parseV2_accepted (blank : im = Image.blank im.data 2) (accepted : parseV2 im = .ok final) :
    (∃ span, final = { v2Fields im with span := span, align := 1 }) ∧ V2Accepted final := by
  unfold parseV2 at accepted
  dsimp only at accepted
  split_ifs at accepted with short other kind header
  obtain ⟨spans, stop, after, blocks, rfl, stack⟩ := v2Body_ok accepted
  have same : im.version = 2 ∧ im.relocatable = false ∧ im.depCount = 0 ∧ im.importCount = 0 := by
    rw [blank]
    exact ⟨rfl, rfl, rfl, rfl⟩
  have kept : (v2Fields im).blockCount ≠ 0 := by
    simp only [v2HeaderOk, Bool.and_eq_true, Bool.not_eq_true', Bool.or_eq_false_iff,
      decide_eq_false_iff_not] at header
    exact header.1.1.2.1.2
  refine ⟨⟨_, rfl⟩, same.1, ?_, same.2.1, same.2.2.1, same.2.2.2, kept, ?_, stack⟩
  · by_contra different
    exact kind (Or.inl different)
  · exact ⟨_, spans, stop, after, blocks, rfl⟩

theorem v3Body_ok (accepted : v3Body im = .ok final) :
    v3KindOk im = true ∧ ∃ spans stop align after,
      v3Blocks im.base im.size true 0 4 spans im.blocks = some (stop, align, after) ∧
      final = { im with span := stop - im.base, align := align } ∧ v3StackOk final stop = true ∧
      v3DepsOk final = true ∧ v3ExportsOk final = true ∧ v3ImportsOk final = true ∧
      v3RelocsOk final = true := by
  unfold v3Body at accepted
  by_cases kind : v3KindOk im = true
  · rw [kind, Bool.not_true, if_neg Bool.false_ne_true] at accepted
    refine ⟨kind, ?_⟩
    cases tables : v3Tables im with
    | none =>
      rw [tables] at accepted
      cases accepted
    | some spans =>
      rw [tables] at accepted
      dsimp only at accepted
      by_cases strings : v3StringsOk im = true
      · rw [strings, Bool.not_true, if_neg Bool.false_ne_true] at accepted
        cases blocks : v3Blocks im.base im.size true 0 4 spans im.blocks with
        | none =>
          rw [blocks] at accepted
          cases accepted
        | some triple =>
          obtain ⟨stop, align, after⟩ := triple
          rw [blocks] at accepted
          dsimp only at accepted
          refine ⟨spans, stop, align, after, blocks, ?_⟩
          split_ifs at accepted with all
          cases accepted
          simp only [Bool.and_eq_true] at all
          exact ⟨rfl, all.1.1.1.1.2, all.1.1.1.2, all.1.1.2, all.1.2, all.2⟩
      · rw [Bool.not_eq_true] at strings
        rw [strings, Bool.not_false, if_pos rfl] at accepted
        cases accepted
  · rw [Bool.not_eq_true] at kind
    rw [kind, Bool.not_false, if_pos rfl] at accepted
    cases accepted

theorem parseV3_accepted (version : im.version = 3) (accepted : parseV3 im = .ok final) :
    (∃ span align, final = { v3Fields im with span := span, align := align }) ∧ V3Accepted final := by
  unfold parseV3 at accepted
  dsimp only at accepted
  split_ifs at accepted with short other header limits
  obtain ⟨kind, spans, stop, align, after, blocks, rfl, stack, deps, exports, imports, relocs⟩ :=
    v3Body_ok accepted
  simp only [Bool.or_eq_true, Bool.not_eq_true', not_or, Bool.not_eq_false] at header
  have counts := header.2
  simp only [v3CountsOk, Bool.and_eq_true, Bool.not_eq_true', Bool.or_eq_false_iff,
    decide_eq_false_iff_not] at counts
  exact ⟨⟨_, _, rfl⟩, version, header.1, kind, counts.2.1.1.1, ⟨spans, stop, after, blocks, rfl, stack⟩, deps,
    exports, imports, relocs⟩

/-- Every image the parser returns keeps the fields of its header and passed the
checks of its version. -/
theorem parse_accepted {data : File} (accepted : parse data = .ok im) :
    (data.rd16 4 = 2 ∧ (∃ span, im = { v2Fields (Image.blank data 2) with span := span, align := 1 }) ∧
        V2Accepted im) ∨
      (data.rd16 4 = 3 ∧
        (∃ span align, im = { v3Fields (Image.blank data 3) with span := span, align := align }) ∧
        V3Accepted im) := by
  unfold parse at accepted
  dsimp only at accepted
  split_ifs at accepted with short second third
  · have version : data.rd16 4 = 2 := second
    rw [version] at accepted
    exact Or.inl ⟨version, parseV2_accepted rfl accepted⟩
  · have version : data.rd16 4 = 3 := third
    rw [version] at accepted
    exact Or.inr ⟨version, parseV3_accepted rfl accepted⟩

end Src32.Wax
