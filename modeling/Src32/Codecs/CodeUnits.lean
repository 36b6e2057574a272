import Src32.Codecs.CodeReads

namespace Src32.Codecs

open Unicode
open BitVec (ofNat toNat_ofNat)

/-!
# UTF-16 and UTF-32

A code unit in front, and what is behind it.
-/

/-! ## UTF-16 -/

theorem unit16_length (big : Bool) (u : Nat) : (unit16 big u).length = 2 := by
  cases big <;> rfl

/-- Two bytes are a code unit. -/
theorem unit16_of (big : Bool) (a b : Byte) :
    ∃ u, u < 0x10000 ∧ [a, b] = unit16 big u ∧ (if big then a.toNat <<< 8 ||| b.toNat else b.toNat <<< 8 ||| a.toNat) = u := by
  have pair : ∀ x y : Byte, x.toNat <<< 8 ||| y.toNat = x.toNat * 256 + y.toNat := by
    intro x y
    rw [← Nat.shiftLeft_add_eq_or_of_lt y.isLt, Nat.shiftLeft_eq]
  have low : ∀ x y : Byte, y = ofNat 8 (x.toNat * 256 + y.toNat) := by
    intro x y
    apply BitVec.eq_of_toNat_eq
    rw [toNat_ofNat]
    omega
  have high : ∀ x y : Byte, x = ofNat 8 ((x.toNat * 256 + y.toNat) / 256) := fun x y => eq_ofNat (by omega)
  cases big with
  | true => exact ⟨a.toNat * 256 + b.toNat, by omega, by rw [unit16, if_pos rfl, ← low, ← high], pair a b⟩
  | false => exact ⟨b.toNat * 256 + a.toNat, by omega, by rw [unit16, if_neg Bool.false_ne_true, ← low, ← high], pair b a⟩

variable {big : Bool} {u c v : Nat}

theorem ofNat_high (low : (ofNat 8 u : Byte) = ofNat 8 v) (high : (ofNat 8 (u / 256) : Byte) = ofNat 8 (v / 256)) :
    u % 0x10000 = v % 0x10000 := by
  have low := congrArg BitVec.toNat low
  have high := congrArg BitVec.toNat high
  rw [toNat_ofNat, toNat_ofNat] at low high
  omega

theorem unit16_inj {first second : List Byte} (least : u < 0x10000) (less : v < 0x10000)
    (same : unit16 big u ++ first = unit16 big v ++ second) : u = v ∧ first = second := by
  obtain ⟨units, rest⟩ := List.append_inj same (by rw [unit16_length, unit16_length])
  refine ⟨?_, rest⟩
  cases big with
  | true =>
    obtain ⟨high, tail⟩ := List.cons.inj units
    have whole := ofNat_high (List.cons.inj tail).1 high
    omega
  | false =>
    obtain ⟨low, tail⟩ := List.cons.inj units
    have whole := ofNat_high low (List.cons.inj tail).1
    omega

/-- A unit in front, where there are two bytes. -/
theorem exists_unit16 (big : Bool) {s : List Byte} (two : 2 ≤ s.length) :
    ∃ u rest, u < 0x10000 ∧ s = unit16 big u ++ rest ∧ readUnit s 0 big = some u := by
  obtain ⟨a, tail, rfl⟩ := List.exists_cons_of_length_pos (show 0 < s.length by omega)
  rw [List.length_cons] at two
  obtain ⟨b, rest, rfl⟩ := List.exists_cons_of_length_pos (show 0 < tail.length by omega)
  obtain ⟨u, less, same, value⟩ := unit16_of big a b
  refine ⟨u, rest, less, ?_, congrArg some value⟩
  rw [← same]
  rfl

theorem readUnit_unit16 (less : u < 0x10000) (rest : List Byte) :
    readUnit (unit16 big u ++ rest) 0 big = some u := by
  obtain ⟨v, tail, small, same, reads⟩ :=
    @exists_unit16 big (unit16 big u ++ rest) (by rw [List.length_append, unit16_length]; omega)
  rw [reads, (unit16_inj less small same).1]

section Units

variable {big : Bool} {u : Nat} {rest : List Byte}

theorem nextUtf16_front (less : u < 0x10000) : nextUtf16 (unit16 big u ++ rest) big =
    if u < 0xD800 ∨ u > 0xDFFF then some (.ok u, 2)
    else if u ≥ 0xDC00 then some (.data, 2)
    else if rest.length < 2 then some (.inputEof, rest.length + 2)
    else (readUnit rest 0 big).bind fun v =>
      if v < 0xDC00 ∨ v > 0xDFFF then some (.data, 2)
      else some (.ok (0x10000 + (u - 0xD800) <<< 10 + (v - 0xDC00)), 4) := by
  unfold nextUtf16
  have size : (unit16 big u ++ rest).length = rest.length + 2 := by
    rw [List.length_append, unit16_length, Nat.add_comm]
  rw [if_neg (by omega), readUnit_unit16 less rest, size, Nat.add_sub_cancel]
  have behind : readUnit (unit16 big u ++ rest) 2 big = readUnit rest 0 big := by
    unfold readUnit
    rw [List.getElem?_append_right (by rw [unit16_length]), List.getElem?_append_right (by rw [unit16_length]; omega),
      unit16_length]
  rw [behind]
  cases readUnit rest 0 big <;> rfl

end Units

theorem utf16_small (small : c < 0x10000) : utf16 big c = unit16 big c := if_pos small

theorem utf16_large (large : 0x10000 ≤ c) : utf16 big c =
    unit16 big (0xD800 + (c - 0x10000) / 1024) ++ unit16 big (0xDC00 + (c - 0x10000) % 1024) := if_neg (by omega)

theorem utf16_length (big : Bool) (c : Nat) : (utf16 big c).length = 2 ∨ (utf16 big c).length = 4 := by
  by_cases small : c < 0x10000
  · rw [utf16_small small, unit16_length]
    exact .inl rfl
  · rw [utf16_large (by omega), List.length_append, unit16_length, unit16_length]
    exact .inr rfl

/-- Only a high surrogate begins a form and goes on. -/
theorem begins_unit16 (less : u < 0x10000) (rest : List Byte)
    (begins : (Form.utf16 big).Begins (unit16 big u ++ rest)) : 0xD800 ≤ u ∧ u < 0xDC00 ∧ rest.length < 2 := by
  obtain ⟨c, tail, scalar, some_, same⟩ := begins
  have most := scalar.1
  have more := List.length_pos_of_ne_nil some_
  have whole := congrArg List.length same
  rw [List.length_append, List.length_append, unit16_length] at whole
  rw [List.append_assoc] at same
  by_cases small : c < 0x10000
  · rw [show (Form.utf16 big).encode c = utf16 big c from rfl, utf16_small small, unit16_length] at whole
    omega
  · rw [show (Form.utf16 big).encode c = utf16 big c from rfl, utf16_large (by omega)] at same whole
    rw [List.length_append, unit16_length, unit16_length] at whole
    have unit := (unit16_inj (show 0xD800 + (c - 0x10000) / 1024 < 0x10000 by omega) less same).1
    exact ⟨by omega, by omega, by omega⟩

theorem high_begins {big : Bool} {u : Nat} (high : 0xD800 ≤ u) (less : u < 0xDC00) : (Form.utf16 big).Begins (unit16 big u) := by
  refine ⟨0x10000 + (u - 0xD800) * 1024, unit16 big 0xDC00, ⟨by omega, by omega⟩, ?_, ?_⟩
  · intro none
    have := unit16_length big 0xDC00
    rw [none] at this
    cases this
  · rw [show (Form.utf16 big).encode = utf16 big from rfl, utf16_large (by omega)]
    rw [show 0xD800 + (0x10000 + (u - 0xD800) * 1024 - 0x10000) / 1024 = u by omega,
      show (0x10000 + (u - 0xD800) * 1024 - 0x10000) % 1024 = 0 by omega]

theorem shifted (n : Nat) : n <<< 10 = n * 1024 := Nat.shiftLeft_eq n 10

theorem nextUtf16_takes (big : Bool) {s : List Byte} (some_ : s ≠ []) :
    ∃ read k, nextUtf16 s big = some (read, k) ∧ 0 < k ∧ Takes (.utf16 big) s read k := by
  have positive := List.length_pos_of_ne_nil some_
  by_cases short : s.length < 2
  · refine ⟨_, s.length, if_pos short, positive, rfl, ?_⟩
    unfold Form.Truncated
    rw [show (Form.utf16 big).unit = 2 from rfl, show s.length / 2 * 2 = 0 by omega, List.take_zero]
    obtain ⟨c, tail, scalar, more, same⟩ := @high_begins big 0xD800 (Nat.le_refl _) (by decide)
    exact ⟨c, _, scalar, List.append_ne_nil_of_right_ne_nil _ more, same⟩
  obtain ⟨u, rest, less, rfl, _⟩ := @exists_unit16 big s (by omega)
  have size : (unit16 big u ++ rest).length = rest.length + 2 := by
    rw [List.length_append, unit16_length, Nat.add_comm]
  have part : (unit16 big u ++ rest).take 2 = unit16 big u := by
    rw [← unit16_length big u]
    exact List.take_left
  rw [nextUtf16_front less]
  by_cases scalar : u < 0xD800 ∨ u > 0xDFFF
  · rw [if_pos scalar]
    refine ⟨_, 2, rfl, Nat.two_pos, ⟨by omega, by omega⟩, ?_⟩
    rw [show (Form.utf16 big).encode u = utf16 big u from rfl, utf16_small less]
    exact ⟨(unit16_length big u).symm, List.prefix_append _ _⟩
  rw [if_neg scalar]
  have unit_some : unit16 big u ≠ [] := List.ne_nil_of_length_pos (by rw [unit16_length]; exact Nat.two_pos)
  -- What begins with a unit is no longer than that, so one that is in error is taken alone.
  have alone : ¬(Form.utf16 big).Truncated (unit16 big u ++ rest) -> Takes (.utf16 big) (unit16 big u ++ rest) .data 2 := by
    intro whole
    refine ⟨?_, whole, by rw [size]; omega⟩
    rw [part]
    refine ⟨List.prefix_append _ _, unit_some, ?_, .inl (unit16_length big u), ?_⟩
    · rw [unit16_length]
      exact dvd_rfl
    · intro longer front units more begins
      obtain ⟨tail, rfl⟩ := List.prefix_of_prefix_length_le (List.prefix_append _ _) front (Nat.le_of_lt more)
      have little := (begins_unit16 less tail begins).2.2
      rw [show (Form.utf16 big).unit = 2 from rfl, List.length_append, unit16_length] at units
      rw [List.length_append, unit16_length] at more
      omega
  have cut : (Form.utf16 big).Truncated (unit16 big u ++ rest) -> 0xD800 ≤ u ∧ u < 0xDC00 ∧ rest.length < 2 := by
    intro truncated
    unfold Form.Truncated at truncated
    rw [show (Form.utf16 big).unit = 2 from rfl, size, show (rest.length + 2) / 2 * 2 = 2 + rest.length / 2 * 2 by omega,
      List.take_append, unit16_length, List.take_of_length_le (by rw [unit16_length]; omega), Nat.add_sub_cancel_left] at truncated
    obtain ⟨least, most, little⟩ := begins_unit16 less _ truncated
    rw [List.length_take] at little
    exact ⟨least, most, by omega⟩
  by_cases low : u ≥ 0xDC00
  · rw [if_pos low]
    refine ⟨_, 2, rfl, Nat.two_pos, alone fun truncated => ?_⟩
    have := cut truncated
    omega
  rw [if_neg low]
  by_cases little : rest.length < 2
  · rw [if_pos little]
    refine ⟨_, _, rfl, Nat.succ_pos _, size.symm, ?_⟩
    unfold Form.Truncated
    rw [show (Form.utf16 big).unit = 2 from rfl, size, show (rest.length + 2) / 2 * 2 = 2 by omega, part]
    exact high_begins (by omega) (by omega)
  rw [if_neg little]
  obtain ⟨v, behind, small, rfl, reads⟩ := @exists_unit16 big rest (by omega)
  rw [reads, Option.bind_some]
  by_cases pair : v < 0xDC00 ∨ v > 0xDFFF
  · rw [if_pos pair]
    refine ⟨_, 2, rfl, Nat.two_pos, alone fun truncated => ?_⟩
    have := cut truncated
    omega
  · rw [if_neg pair, shifted]
    refine ⟨_, 4, rfl, by decide, ⟨by omega, by omega⟩, ?_⟩
    rw [show (Form.utf16 big).encode = utf16 big from rfl, utf16_large (by omega),
      show 0xD800 + (0x10000 + (u - 0xD800) * 1024 + (v - 0xDC00) - 0x10000) / 1024 = u by omega,
      show 0xDC00 + (0x10000 + (u - 0xD800) * 1024 + (v - 0xDC00) - 0x10000) % 1024 = v by omega]
    refine ⟨by rw [List.length_append, unit16_length, unit16_length], ?_⟩
    rw [← List.append_assoc]
    exact List.prefix_append _ _

theorem nextUtf16_form (scalar : IsScalar c) (more : List Byte) :
    nextUtf16 (utf16 big c ++ more) big = some (.ok c, (utf16 big c).length) := by
  have limit := scalar.1
  have surrogates := scalar.2
  by_cases small : c < 0x10000
  · rw [utf16_small small, nextUtf16_front small, if_pos (by omega), unit16_length]
  rw [utf16_large (by omega), List.append_assoc, nextUtf16_front (by omega), if_neg (by omega), if_neg (by omega),
    if_neg (by rw [List.length_append, unit16_length]; omega), readUnit_unit16 (by omega), Option.bind_some, if_neg (by omega),
    List.length_append, unit16_length, unit16_length, shifted,
    show 0x10000 + (0xD800 + (c - 0x10000) / 1024 - 0xD800) * 1024 + (0xDC00 + (c - 0x10000) % 1024 - 0xDC00) = c by omega]

theorem decodes_utf16 (big : Bool) : Decodes (.utf16 big) fun s => nextUtf16 s big :=
  ⟨fun _ some_ => nextUtf16_takes big some_, fun _ more scalar => nextUtf16_form scalar more⟩

/-! ## UTF-32 -/

theorem utf32_length (big : Bool) (c : Nat) : (utf32 big c).length = 4 := by
  cases big <;> rfl

/-- Four bytes in a row, the most significant first. -/
theorem quad_bits (a b c d : Byte) : a.toNat <<< 24 ||| b.toNat <<< 16 ||| c.toNat <<< 8 ||| d.toNat =
    ((a.toNat * 256 + b.toNat) * 256 + c.toNat) * 256 + d.toNat := by
  have wide : a.toNat <<< 24 ||| b.toNat <<< 16 ||| c.toNat <<< 8 ||| d.toNat =
      ((a.toNat <<< 8 ||| b.toNat) <<< 8 ||| c.toNat) <<< 8 ||| d.toNat := by
    simp only [Nat.shiftLeft_or_distrib, ← Nat.shiftLeft_add]
  have step : ∀ (x : Nat) (y : Byte), x <<< 8 ||| y.toNat = x * 256 + y.toNat := by
    intro x y
    rw [← Nat.shiftLeft_add_eq_or_of_lt y.isLt, Nat.shiftLeft_eq]
  rw [wide, step, step, step]

/-- Four bytes are a value. -/
theorem utf32_of (big : Bool) (a b c d : Byte) : ∃ v, v < 2 ^ 32 ∧ [a, b, c, d] = utf32 big v ∧
    (if big then a.toNat <<< 24 ||| b.toNat <<< 16 ||| c.toNat <<< 8 ||| d.toNat
      else d.toNat <<< 24 ||| c.toNat <<< 16 ||| b.toNat <<< 8 ||| a.toNat) = v := by
  have bytes : ∀ w x y z : Byte, ∀ v, v = ((w.toNat * 256 + x.toNat) * 256 + y.toNat) * 256 + z.toNat ->
      w = ofNat 8 (v / 2 ^ 24) ∧ x = ofNat 8 (v / 2 ^ 16) ∧ y = ofNat 8 (v / 2 ^ 8) ∧
        z = ofNat 8 v := by
    rintro w x y z v rfl
    refine ⟨?_, ?_, ?_, ?_⟩ <;> apply BitVec.eq_of_toNat_eq <;> rw [toNat_ofNat] <;> omega
  rw [quad_bits, quad_bits]
  cases big with
  | true =>
    obtain ⟨first, second, third, fourth⟩ := bytes a b c d _ rfl
    refine ⟨((a.toNat * 256 + b.toNat) * 256 + c.toNat) * 256 + d.toNat, by omega, ?_, rfl⟩
    rw [utf32, if_pos rfl, ← first, ← second, ← third, ← fourth]
  | false =>
    obtain ⟨first, second, third, fourth⟩ := bytes d c b a _ rfl
    refine ⟨((d.toNat * 256 + c.toNat) * 256 + b.toNat) * 256 + a.toNat, by omega, ?_, rfl⟩
    rw [utf32, if_neg Bool.false_ne_true, ← first, ← second, ← third, ← fourth]

theorem utf32_inj (least : u < 2 ^ 32) (less : v < 2 ^ 32) (same : utf32 big u = utf32 big v) :
    u = v := by
  have bytes : (ofNat 8 (u / 2 ^ 24) : Byte) = ofNat 8 (v / 2 ^ 24) ∧
      (ofNat 8 (u / 2 ^ 16) : Byte) = ofNat 8 (v / 2 ^ 16) ∧
      (ofNat 8 (u / 2 ^ 8) : Byte) = ofNat 8 (v / 2 ^ 8) ∧ (ofNat 8 u : Byte) = ofNat 8 v := by
    cases big with
    | true =>
      obtain ⟨first, second, third, fourth, _⟩ := by simpa only [utf32, if_pos, List.cons.injEq] using same
      exact ⟨first, second, third, fourth⟩
    | false =>
      obtain ⟨first, second, third, fourth, _⟩ := by
        simpa only [utf32, Bool.false_eq_true, if_false, List.cons.injEq] using same
      exact ⟨fourth, third, second, first⟩
  simp only [← BitVec.toNat_inj, toNat_ofNat] at bytes
  omega

/-- Four bytes in front are a value, and decide. -/
theorem exists_utf32 (big : Bool) {s : List Byte} (four : 4 ≤ s.length) :
    ∃ v rest, v < 2 ^ 32 ∧ s = utf32 big v ++ rest ∧
      nextUtf32 s big = if v > 0x10FFFF ∨ (v ≥ 0xD800 ∧ v ≤ 0xDFFF) then some (.data, 4) else some (.ok v, 4) := by
  obtain ⟨a, s, rfl⟩ := List.exists_cons_of_length_pos (show 0 < s.length by omega)
  rw [List.length_cons] at four
  obtain ⟨b, s, rfl⟩ := List.exists_cons_of_length_pos (show 0 < s.length by omega)
  rw [List.length_cons] at four
  obtain ⟨c, s, rfl⟩ := List.exists_cons_of_length_pos (show 0 < s.length by omega)
  rw [List.length_cons] at four
  obtain ⟨d, rest, rfl⟩ := List.exists_cons_of_length_pos (show 0 < s.length by omega)
  obtain ⟨v, less, same, value⟩ := utf32_of big a b c d
  refine ⟨v, rest, less, by rw [← same]; rfl, ?_⟩
  unfold nextUtf32
  rw [if_neg (by simp only [List.length_cons]; omega)]
  simp only [List.getElem?_cons_zero, List.getElem?_cons_succ]
  rw [value]

theorem nextUtf32_takes (big : Bool) {s : List Byte} (some_ : s ≠ []) :
    ∃ read k, nextUtf32 s big = some (read, k) ∧ 0 < k ∧ Takes (.utf32 big) s read k := by
  have positive := List.length_pos_of_ne_nil some_
  -- What begins a form is less than a unit.
  have begins_short : ∀ part, (Form.utf32 big).Begins part -> part.length < 4 := by
    rintro part ⟨c, tail, _, more, same⟩
    have whole := congrArg List.length same
    have := List.length_pos_of_ne_nil more
    rw [List.length_append, show (Form.utf32 big).encode = utf32 big from rfl, utf32_length] at whole
    omega
  by_cases short : s.length < 4
  · refine ⟨_, s.length, if_pos short, positive, rfl, ?_⟩
    unfold Form.Truncated
    rw [show (Form.utf32 big).unit = 4 from rfl, show s.length / 4 * 4 = 0 by omega, List.take_zero]
    refine ⟨0, _, ⟨by omega, by omega⟩, ?_, (List.nil_append _).symm⟩
    exact List.ne_nil_of_length_pos (by rw [show (Form.utf32 big).encode = utf32 big from rfl, utf32_length]; decide)
  obtain ⟨v, rest, less, rfl, runs⟩ := @exists_utf32 big s (by omega)
  rw [runs]
  by_cases bad : v > 0x10FFFF ∨ (v ≥ 0xD800 ∧ v ≤ 0xDFFF)
  · rw [if_pos bad]
    have part : (utf32 big v ++ rest).take 4 = utf32 big v := by
      rw [← utf32_length big v]
      exact List.take_left
    refine ⟨_, 4, rfl, by decide, ?_, ?_, by omega⟩
    · rw [part]
      refine ⟨List.prefix_append _ _, List.ne_nil_of_length_pos (by rw [utf32_length]; decide), ?_, .inl (utf32_length big v), ?_⟩
      · rw [utf32_length]
        exact dvd_rfl
      · intro longer _ _ more begins
        have := begins_short longer begins
        rw [utf32_length] at more
        omega
    · intro truncated
      have := begins_short _ truncated
      rw [List.length_take, show (Form.utf32 big).unit = 4 from rfl] at this
      omega
  · rw [if_neg bad]
    refine ⟨_, 4, rfl, by decide, ⟨by omega, by omega⟩, ?_, ?_⟩
    · rw [show (Form.utf32 big).encode = utf32 big from rfl, utf32_length]
    · exact List.prefix_append _ _

theorem nextUtf32_form (scalar : IsScalar c) (more : List Byte) :
    nextUtf32 (utf32 big c ++ more) big = some (.ok c, (utf32 big c).length) := by
  have limit := scalar.1
  have surrogates := scalar.2
  obtain ⟨v, rest, less, same, runs⟩ :=
    @exists_utf32 big (utf32 big c ++ more) (by rw [List.length_append, utf32_length]; omega)
  have value := utf32_inj (by omega) less (List.append_inj_left same (by rw [utf32_length, utf32_length]))
  rw [runs, ← value, if_neg (by omega), utf32_length]

theorem decodes_utf32 (big : Bool) : Decodes (.utf32 big) fun s => nextUtf32 s big :=
  ⟨fun _ some_ => nextUtf32_takes big some_, fun _ more scalar => nextUtf32_form scalar more⟩

end Src32.Codecs
