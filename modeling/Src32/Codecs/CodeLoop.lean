import Src32.Codecs.CodeUnits

namespace Src32.Codecs

open Unicode
open BitVec (ofNat)

/-!
# The loop of a conversion

Any bytes parse in one way; the loop writes one form for each part.
-/

/-! ## Parses -/

/-- What a result stands for. -/
def Read.item : Read -> Option Nat
  | .ok c => some c
  | _ => none

section Parses

variable {f : Form} {decode : List Byte -> Option (Read × Nat)} (decodes : Decodes f decode)

include decodes

variable {items : List (Option Nat)} {s : List Byte}

/-- The decoder finds the first part of a parse. -/
theorem Decodes.front (parses : f.Parses s items) (some_ : s ≠ []) :
    ∃ read k rest, decode s = some (read, k) ∧ 0 < k ∧ k ≤ s.length ∧ items = read.item :: rest ∧ f.Parses (s.drop k) rest ∧
      Takes f s read k := by
  obtain ⟨read, k, runs, positive, takes⟩ := decodes.takes s some_
  cases parses with
  | finished => exact absurd rfl some_
  | @scalar c more items scalar parses =>
    rw [decodes.form c more scalar] at runs
    cases runs
    refine ⟨.ok c, _, items, decodes.form c more scalar, positive, ?_, rfl, ?_, takes⟩
    · rw [List.length_append]
      exact Nat.le_add_right _ _
    · rwa [List.drop_left]
  | truncated _ bad cut =>
    cases read with
    | ok c => exact absurd takes.2.2 (bad c takes.1)
    | data => exact absurd cut takes.2.1
    | inputEof =>
      refine ⟨_, k, [], runs, positive, Nat.le_of_eq takes.1, rfl, ?_, takes⟩
      rw [takes.1, List.drop_length]
      exact .finished
  | @subpart part more items bad whole maximal parses =>
    cases read with
    | ok c => exact absurd takes.2.2 (bad c takes.1)
    | inputEof => exact absurd takes.2 whole
    | data =>
      have same : (part ++ more).take k = part := takes.1.unique f maximal
      have size : k = part.length := by
        rw [← congrArg List.length same, List.length_take]
        exact (Nat.min_eq_left takes.2.2).symm
      refine ⟨_, k, items, runs, positive, takes.2.2, rfl, ?_, takes⟩
      rw [size, List.drop_left]
      exact parses

/-- Any bytes parse. -/
theorem Decodes.parses (s : List Byte) : ∃ items, f.Parses s items := by
  induction length : s.length using Nat.strong_induction_on generalizing s with
  | h n ih =>
    by_cases empty : s = []
    · exact ⟨[], by rw [empty]; exact .finished⟩
    obtain ⟨read, k, runs, positive, takes⟩ := decodes.takes s empty
    have size := List.length_pos_of_ne_nil empty
    -- Where the decoder finds no form there is none.
    have bad : read.item = none -> f.IllFormed s := by
      rintro stray c scalar ⟨more, rfl⟩
      rw [decodes.form c more scalar] at runs
      cases runs
      cases stray
    obtain ⟨items, parses⟩ := ih _ (by rw [List.length_drop]; omega) (s.drop k) rfl
    cases read with
    | ok c =>
      obtain ⟨scalar, size, more, same⟩ := takes
      refine ⟨some c :: items, ?_⟩
      rw [← same] at parses ⊢
      rw [size, List.drop_left] at parses
      exact .scalar scalar parses
    | inputEof => exact ⟨[none], .truncated empty (bad rfl) takes.2⟩
    | data =>
      refine ⟨none :: items, ?_⟩
      have same := List.take_append_drop k s
      rw [← same]
      refine .subpart ?_ ?_ ?_ parses <;> rw [same]
      · exact bad rfl
      · exact takes.2.1
      · exact takes.1

/-- There is one parse. -/
theorem Decodes.unique {others : List (Option Nat)} (first : f.Parses s items) (second : f.Parses s others) :
    items = others := by
  induction length : s.length using Nat.strong_induction_on generalizing s items others with
  | h n ih =>
    by_cases empty : s = []
    · rw [first.of_nil empty, second.of_nil empty]
    obtain ⟨read, k, rest, runs, positive, _, same, parses, _⟩ := decodes.front first empty
    obtain ⟨read', k', rest', runs', _, _, same', parses', _⟩ := decodes.front second empty
    rw [runs] at runs'
    cases runs'
    have := List.length_pos_of_ne_nil empty
    rw [same, same', ih _ (by rw [List.length_drop]; omega) parses parses' rfl]

/-- What is well formed has no part in error. -/
theorem Decodes.wellFormed_iff (parses : f.Parses s items) :
    f.WellFormed s ↔ none ∉ items := by
  constructor
  · rintro ⟨cps, scalars, rfl⟩
    rw [decodes.unique parses (Form.parses_text scalars)]
    simp
  · exact parses.wellFormed

end Parses

/-- The form of an encoding. -/
def Encoding.form : Encoding -> Form
  | .utf8 | .utf8Bom => .utf8
  | .utf16le => .utf16 false
  | .utf16be => .utf16 true
  | .utf32le => .utf32 false
  | .utf32be => .utf32 true

theorem decodes_next (enc : Encoding) : Decodes enc.form (next enc) := by
  cases enc with
  | utf8 => exact decodes_utf8
  | utf8Bom => exact decodes_utf8
  | utf16le => exact decodes_utf16 false
  | utf16be => exact decodes_utf16 true
  | utf32le => exact decodes_utf32 false
  | utf32be => exact decodes_utf32 true

theorem plain_form (enc : Encoding) : (plain enc).form = enc.form := by
  cases enc <;> rfl

theorem decodes_plain (enc : Encoding) : Decodes enc.form (next (plain enc)) := by
  rw [← plain_form enc]
  exact decodes_next (plain enc)

/-! ## Writing -/

theorem or_bits {high n x : Nat} (small : x < 2 ^ n) : high <<< n ||| x = high <<< n + x :=
  (Nat.shiftLeft_add_eq_or_of_lt small high).symm

theorem trail_shift (c n : Nat) : (ofNat 8 (0x80 ||| c >>> n &&& 0x3F) : Byte) = trail (c / 2 ^ n) := by
  rw [show c >>> n &&& 0x3F = (c >>> n) % 2 ^ 6 from Nat.and_two_pow_sub_one_eq_mod _ 6, show (0x80 : Nat) = 2 <<< 6 from rfl,
    @or_bits 2 6 _ (Nat.mod_lt _ (by decide)), Nat.shiftRight_eq_div_pow]
  rfl

theorem put16_eq (u : Nat) (big : Bool) : put16 u big = unit16 big u := by
  unfold put16 unit16
  rw [Nat.shiftRight_eq_div_pow]

theorem put_utf8 (c : Nat) (limit : c ≤ 0x10FFFF) : putBytes .utf8 c = utf8 c := by
  unfold putBytes
  dsimp only
  rcases (by omega : c < 0x80 ∨ 0x80 ≤ c ∧ c < 0x800 ∨ 0x800 ≤ c ∧ c < 0x10000 ∨ 0x10000 ≤ c) with
    one | ⟨two, most⟩ | ⟨three, most⟩ | four
  · rw [if_pos one, if_pos rfl, utf8_one one]
  · have len : (if c < 0x80 then 1 else if c < 0x800 then 2 else if c < 0x10000 then 3 else 4) = 2 := by
      rw [if_neg (by omega), if_pos most]
    rw [len, if_neg (by decide), utf8_two two most]
    change [ofNat 8 (3 <<< 6 ||| c >>> 6), ofNat 8 (0x80 ||| c >>> 0 &&& 0x3F)] = _
    rw [trail_shift, Nat.shiftRight_eq_div_pow, or_bits (by omega), Nat.pow_zero, Nat.div_one]
    rfl
  · have len : (if c < 0x80 then 1 else if c < 0x800 then 2 else if c < 0x10000 then 3 else 4) = 3 := by
      rw [if_neg (by omega), if_neg (by omega), if_pos most]
    rw [len, if_neg (by decide), utf8_three three most]
    change [ofNat 8 (7 <<< 5 ||| c >>> 12), ofNat 8 (0x80 ||| c >>> 6 &&& 0x3F),
      ofNat 8 (0x80 ||| c >>> 0 &&& 0x3F)] = _
    rw [trail_shift, trail_shift, Nat.shiftRight_eq_div_pow, or_bits (by omega), Nat.pow_zero, Nat.div_one]
    rfl
  · have len : (if c < 0x80 then 1 else if c < 0x800 then 2 else if c < 0x10000 then 3 else 4) = 4 := by
      rw [if_neg (by omega), if_neg (by omega), if_neg (by omega)]
    rw [len, if_neg (by decide), utf8_four four]
    change [ofNat 8 (15 <<< 4 ||| c >>> 18), ofNat 8 (0x80 ||| c >>> 12 &&& 0x3F),
      ofNat 8 (0x80 ||| c >>> 6 &&& 0x3F), ofNat 8 (0x80 ||| c >>> 0 &&& 0x3F)] = _
    rw [trail_shift, trail_shift, trail_shift, Nat.shiftRight_eq_div_pow, or_bits (by omega), Nat.pow_zero, Nat.div_one]
    rfl

theorem pair_shift (c : Nat) (big : Bool) :
    put16 (0xD800 + (c - 0x10000) >>> 10) big ++ put16 (0xDC00 + ((c - 0x10000) &&& 0x3FF)) big =
      unit16 big (0xD800 + (c - 0x10000) / 1024) ++ unit16 big (0xDC00 + (c - 0x10000) % 1024) := by
  rw [put16_eq, put16_eq, Nat.shiftRight_eq_div_pow,
    show (c - 0x10000) &&& 0x3FF = (c - 0x10000) % 1024 from Nat.and_two_pow_sub_one_eq_mod _ 10]

/-- What is written is the form. -/
theorem putBytes_eq (enc : Encoding) {c : Nat} (scalar : IsScalar c) : putBytes enc c = enc.form.encode c := by
  cases enc with
  | utf8 | utf8Bom => exact put_utf8 c scalar.1
  | utf16le =>
    change (if c < 0x10000 then put16 c false else _) = utf16 false c
    unfold utf16
    rw [put16_eq]
    exact if_congr Iff.rfl rfl (pair_shift c false)
  | utf16be =>
    change (if c < 0x10000 then put16 c true else _) = utf16 true c
    unfold utf16
    rw [put16_eq]
    exact if_congr Iff.rfl rfl (pair_shift c true)
  | utf32le =>
    change [ofNat 8 (c >>> 0), ofNat 8 (c >>> 8), ofNat 8 (c >>> 16), ofNat 8 (c >>> 24)] = utf32 false c
    simp only [Nat.shiftRight_eq_div_pow, Nat.pow_zero, Nat.div_one]
    rfl
  | utf32be =>
    change [ofNat 8 (c >>> 24), ofNat 8 (c >>> 16), ofNat 8 (c >>> 8), ofNat 8 (c >>> 0)] = utf32 true c
    simp only [Nat.shiftRight_eq_div_pow, Nat.pow_zero, Nat.div_one]
    rfl

/-! ## The loop -/

/-- The code points that are written for the parts of a source. -/
def shown (strip : Bool) (items : List (Option Nat)) : List Nat :=
  (if strip = true ∧ items.head? = some (some bom) then items.tail else items).map fun item => item.getD replacement

theorem shown_false (items : List (Option Nat)) : shown false items = items.map fun item => item.getD replacement := by
  unfold shown
  rw [if_neg]
  rintro ⟨never, _⟩
  cases never

theorem bom_scalar : IsScalar bom := by decide

theorem replacement_scalar : IsScalar replacement := by decide

theorem shown_scalar {f : Form} {s : List Byte} {items : List (Option Nat)} (parses : f.Parses s items) (strip : Bool) {c : Nat}
    (inside : c ∈ shown strip items) : IsScalar c := by
  have every : ∀ item ∈ items, IsScalar (item.getD replacement) := by
    intro item found
    cases item with
    | none => exact replacement_scalar
    | some c => exact parses.isScalar found
  obtain ⟨item, found, rfl⟩ := List.mem_map.mp inside
  split_ifs at found with marked
  · exact every item (List.mem_of_mem_tail found)
  · exact every item found

/-- How the loop ends that has the rest of a source to write. -/
def Ends (dest : Form) (flags : Word) (capacity : Nat) (strip : Bool) (items : List (Option Nat)) (out : List Byte) :
    Status × List Byte -> Prop
  | (.ok, all) => all = out ++ dest.text (shown strip items) ∧ (flags &&& codeReplace = 0 -> none ∉ items) ∧
      out.length + (dest.text (shown strip items)).length ≤ capacity
  | (.outputEof, _) => capacity < out.length + (dest.text (shown strip items)).length
  | (.data, _) | (.inputEof, _) => flags &&& codeReplace = 0 ∧ none ∈ items
  | _ => False

theorem convertLoop_nil (start dest : Encoding) (flags : Word) (capacity fuel : Nat) (first : Bool) (out : List Byte) :
    convertLoop start dest flags capacity fuel [] first out = some (.ok, out) := by
  cases fuel <;> rfl

theorem shown_bom (rest : List (Option Nat)) : shown true (some bom :: rest) = shown false rest := by
  rw [shown_false]
  rfl

theorem shown_cons {strip : Bool} {item : Option Nat} (plain : ¬(strip = true ∧ item = some bom)) (rest : List (Option Nat)) :
    shown strip (item :: rest) = item.getD replacement :: shown false rest := by
  unfold shown
  rw [if_neg, if_neg]
  · rfl
  · rintro ⟨never, _⟩
    cases never
  · rintro ⟨marked, head⟩
    exact plain ⟨marked, Option.some.inj head⟩

section Ends

variable {dest : Form} {flags : Word} {capacity : Nat} {strip : Bool} {item : Option Nat} {rest : List (Option Nat)}
  {out : List Byte} {result : Status × List Byte}

/-- A part that is written goes in front. -/
theorem Ends.written (ends : Ends dest flags capacity false rest (out ++ dest.encode (item.getD replacement)) result)
    (plain : ¬(strip = true ∧ item = some bom)) (good : flags &&& codeReplace = 0 -> item ≠ none) :
    Ends dest flags capacity strip (item :: rest) out result := by
  obtain ⟨status, all⟩ := result
  have whole : dest.text (shown strip (item :: rest)) = dest.encode (item.getD replacement) ++ dest.text (shown false rest) := by
    rw [shown_cons plain, Form.text, Form.text, List.flatMap_cons]
  have size : out.length + (dest.text (shown strip (item :: rest))).length =
      (out ++ dest.encode (item.getD replacement)).length + (dest.text (shown false rest)).length := by
    rw [whole, List.length_append, List.length_append, Nat.add_assoc]
  cases status with
  | ok =>
    obtain ⟨same, well, fits⟩ := ends
    refine ⟨by rw [same, whole, List.append_assoc], ?_, by rwa [size]⟩
    intro strict inside
    rcases List.mem_cons.mp inside with here | later
    · exact good strict here.symm
    · exact well strict later
  | outputEof =>
    change capacity < _
    rw [size]
    exact ends
  | data | inputEof => exact ⟨ends.1, List.mem_cons_of_mem _ ends.2⟩
  | _ => exact ends

/-- A byte order mark that is stripped leaves nothing. -/
theorem Ends.stripped (ends : Ends dest flags capacity false rest out result) :
    Ends dest flags capacity true (some bom :: rest) out result := by
  obtain ⟨status, all⟩ := result
  unfold Ends at ends ⊢
  rw [shown_bom]
  cases status with
  | ok => exact ⟨ends.1, fun strict inside => ends.2.1 strict ((List.mem_cons.mp inside).resolve_left (Option.some_ne_none _).symm), ends.2.2⟩
  | outputEof => exact ends
  | data | inputEof => exact ⟨ends.1, List.mem_cons_of_mem _ ends.2⟩
  | _ => exact ends

end Ends

/-- A round that writes. -/
theorem convertLoop_put {start dest : Encoding} {flags : Word} {capacity fuel k : Nat} {b : Byte} {tail : List Byte} {read : Read}
    {first : Bool} (out : List Byte) (runs : next start (b :: tail) = some (read, k))
    (good : flags &&& codeReplace = 0 -> read.item ≠ none)
    (plain : ¬(first = true ∧ read = .ok bom ∧ flags &&& codeStripBom ≠ 0)) :
    convertLoop start dest flags capacity (fuel + 1) (b :: tail) first out =
      (put capacity out dest (read.item.getD replacement)).elim (some (.outputEof, out)) fun out =>
        convertLoop start dest flags capacity fuel ((b :: tail).drop k) false out := by
  rw [convertLoop, runs]
  dsimp only
  rw [if_neg, if_neg, if_neg plain]
  · cases read with
    | ok c =>
      dsimp only [Read.item, Option.getD_some]
      cases put capacity out dest c <;> rfl
    | data | inputEof =>
      dsimp only [Read.item, Option.getD_none]
      cases put capacity out dest replacement <;> rfl
  · rintro ⟨rfl, strict⟩
    exact good strict rfl
  · rintro ⟨rfl, strict⟩
    exact good strict rfl

theorem convertLoop_finished {start dest : Encoding} {flags : Word} {capacity fuel : Nat} {s out : List Byte} {first strip : Bool}
    {f : Form} {items : List (Option Nat)} (parses : f.Parses s items) (empty : s = []) (fits : out.length ≤ capacity) :
    ∃ result, convertLoop start dest flags capacity fuel s first out = some result ∧
      Ends dest.form flags capacity strip items out result := by
  rw [parses.of_nil empty, empty]
  have nothing : dest.form.text (shown strip []) = [] := by
    cases strip <;> rfl
  refine ⟨_, convertLoop_nil start dest flags capacity fuel first out, ?_, fun _ => List.not_mem_nil, ?_⟩
  · rw [nothing, List.append_nil]
  · rw [nothing]
    exact fits

/-- The loop writes a form for each part, while there is room and no part in error that may not be. -/
theorem convertLoop_spec (start dest : Encoding) (flags : Word) (capacity : Nat) {fuel : Nat} {s out : List Byte} {first : Bool}
    {items : List (Option Nat)} (parses : start.form.Parses s items) (enough : s.length ≤ fuel) (fits : out.length ≤ capacity) :
    ∃ result, convertLoop start dest flags capacity fuel s first out = some result ∧
      Ends dest.form flags capacity (first && decide (flags &&& codeStripBom ≠ 0)) items out result := by
  induction fuel generalizing s out first items with
  | zero => exact convertLoop_finished parses (List.eq_nil_of_length_eq_zero (Nat.le_zero.mp enough)) fits
  | succ fuel ih =>
    by_cases empty : s = []
    · exact convertLoop_finished parses empty fits
    obtain ⟨read, k, rest, runs, positive, inside, rfl, later, takes⟩ := (decodes_next start).front parses empty
    obtain ⟨b, tail, rfl⟩ := List.exists_cons_of_ne_nil empty
    have less : ((b :: tail).drop k).length ≤ fuel := by
      rw [List.length_drop]
      omega
    by_cases strict : flags &&& codeReplace = 0 ∧ read.item = none
    · obtain ⟨strict, stray⟩ := strict
      unfold convertLoop
      rw [runs]
      dsimp only
      have here : none ∈ read.item :: rest := by
        rw [stray]
        exact List.mem_cons_self
      cases read with
      | ok c => cases stray
      | data =>
        rw [if_pos ⟨rfl, strict⟩]
        exact ⟨_, rfl, strict, here⟩
      | inputEof =>
        rw [if_neg (fun both => Read.noConfusion both.1), if_pos ⟨rfl, strict⟩]
        exact ⟨_, rfl, strict, here⟩
    have good : flags &&& codeReplace = 0 -> read.item ≠ none := fun asks stray => strict ⟨asks, stray⟩
    by_cases marked : first = true ∧ read = .ok bom ∧ flags &&& codeStripBom ≠ 0
    · obtain ⟨rfl, rfl, strips⟩ := marked
      obtain ⟨result, goes, ends⟩ := @ih ((b :: tail).drop k) out false rest later less fits
      refine ⟨result, ?_, ?_⟩
      · rw [convertLoop, runs]
        dsimp only
        rw [if_neg (fun both => Read.noConfusion both.1), if_neg (fun both => Read.noConfusion both.1), if_pos ⟨rfl, rfl, strips⟩]
        exact goes
      · rw [decide_eq_true strips]
        exact ends.stripped
    rw [convertLoop_put out runs good marked]
    have plain : ¬((first && decide (flags &&& codeStripBom ≠ 0)) = true ∧ read.item = some bom) := by
      rintro ⟨strip, same⟩
      rw [Bool.and_eq_true, decide_eq_true_eq] at strip
      cases read with
      | ok c =>
        cases same
        exact marked ⟨strip.1, rfl, strip.2⟩
      | data => cases same
      | inputEof => cases same
    have scalar : IsScalar (read.item.getD replacement) := by
      cases read with
      | ok c => exact takes.1
      | data | inputEof => exact replacement_scalar
    unfold put
    rw [putBytes_eq dest scalar]
    by_cases full : capacity - out.length < (dest.form.encode (read.item.getD replacement)).length
    · rw [if_pos full]
      refine ⟨_, rfl, ?_⟩
      change capacity < _
      rw [shown_cons plain, Form.text, List.flatMap_cons, List.length_append]
      omega
    · rw [if_neg full]
      obtain ⟨result, goes, ends⟩ :=
        @ih _ (out ++ dest.form.encode (read.item.getD replacement)) false rest later less (by rw [List.length_append]; omega)
      exact ⟨result, goes, ends.written plain good⟩

end Src32.Codecs
