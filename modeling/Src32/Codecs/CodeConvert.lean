import Src32.Codecs.CodeLoop

namespace Src32.Codecs

open Unicode

/-!
# Conversions

What a whole conversion gives, how much room it takes, and that texts go from any
encoding to any other.
-/

/-! ## A whole conversion -/

/-- What is written before the text. -/
def opening (dest : Encoding) (flags : Word) : List Byte :=
  if dest = .utf8Bom ∨ flags &&& codeAddBom ≠ 0 then dest.form.encode bom else []

/-- What a source of these parts gives. -/
def converted (dest : Encoding) (flags : Word) (items : List (Option Nat)) : List Byte :=
  opening dest flags ++ dest.form.text (shown (decide (flags &&& codeStripBom ≠ 0)) items)

/-- The text behind a byte order mark that the encoding has. -/
def body (start : Encoding) (src : List Byte) : List Byte := src.drop (skipped start src)

variable {items : List (Option Nat)} {start : Encoding}

theorem skipped_bom {src : List Byte} (some_ : skipped start src ≠ 0) :
    start = .utf8Bom ∧ src = utf8 bom ++ body start src := by
  unfold body
  unfold skipped at some_ ⊢
  split_ifs at some_ ⊢ with marked
  · obtain ⟨encoding, long, first, second, third⟩ := marked
    refine ⟨encoding, ?_⟩
    obtain ⟨a, src, rfl⟩ := List.exists_cons_of_length_pos (show 0 < src.length by omega)
    rw [List.length_cons] at long
    obtain ⟨b, src, rfl⟩ := List.exists_cons_of_length_pos (show 0 < src.length by omega)
    rw [List.length_cons] at long
    obtain ⟨c, src, rfl⟩ := List.exists_cons_of_length_pos (show 0 < src.length by omega)
    cases first
    cases second
    cases third
    rfl
  · exact absurd rfl some_

/-- A byte order mark in front leaves the source as well formed as it is. -/
theorem wellFormed_body (start : Encoding) (src : List Byte) :
    start.form.WellFormed (body start src) ↔ start.form.WellFormed src := by
  by_cases marked : skipped start src = 0
  · unfold body
    rw [marked, List.drop_zero]
  obtain ⟨rfl, same⟩ := skipped_bom marked
  obtain ⟨items, parses⟩ := (decodes_next Encoding.utf8Bom).parses (body .utf8Bom src)
  have whole : Form.utf8.Parses src (some bom :: items) := by
    rw [same]
    exact .scalar bom_scalar parses
  rw [(decodes_next Encoding.utf8Bom).wellFormed_iff parses, show Encoding.utf8Bom.form = .utf8 from rfl,
    decodes_utf8.wellFormed_iff whole, List.mem_cons]
  exact not_congr ⟨.inr, fun found => found.resolve_left (Option.some_ne_none bom).symm⟩

/-- A call that is allowed. -/
structure Valid (src : List Byte) (srcNull dstNull : Bool) (capacity : Nat) (flags : Word) : Prop where
  source : src.length ≠ 0 -> srcNull = false
  target : capacity ≠ 0 -> dstNull = false
  known : flags &&& ~~~knownFlags = 0

/-- How a conversion ends. -/
structure Converts (dest : Encoding) (flags : Word) (capacity : Nat) (items : List (Option Nat)) (outcome : Outcome) : Prop where
  known : outcome.status = .ok ∨ outcome.status = .outputEof ∨ outcome.status = .data ∨ outcome.status = .inputEof
  good : outcome.status = .ok -> outcome.written = converted dest flags items ∧ outcome.size = outcome.written.length ∧
    (flags &&& codeReplace = 0 -> none ∉ items) ∧ (converted dest flags items).length ≤ capacity
  full : outcome.status = .outputEof -> capacity < (converted dest flags items).length
  bad : outcome.status = .data ∨ outcome.status = .inputEof -> flags &&& codeReplace = 0 ∧ none ∈ items

theorem opening_put (capacity : Nat) (dest : Encoding) (flags : Word) :
    (if dest = .utf8Bom ∨ flags &&& codeAddBom ≠ 0 then put capacity [] dest bom else some []) =
      if (opening dest flags).length ≤ capacity then some (opening dest flags) else none := by
  unfold opening
  by_cases marked : dest = .utf8Bom ∨ flags &&& codeAddBom ≠ 0
  · rw [if_pos marked, if_pos marked]
    unfold put
    rw [putBytes_eq dest bom_scalar, List.length_nil, List.nil_append, Nat.sub_zero]
    by_cases full : capacity < (dest.form.encode bom).length
    · rw [if_pos full, if_neg (by omega)]
    · rw [if_neg full, if_pos (by omega)]
  · rw [if_neg marked, if_neg marked, if_pos (show ([] : List Byte).length ≤ capacity from Nat.zero_le capacity)]

theorem convert_spec {src : List Byte} {srcNull dstNull : Bool} {capacity : Nat} {start dest : Encoding} {flags : Word}
    (valid : Valid src srcNull dstNull capacity flags) {items : List (Option Nat)}
    (parses : start.form.Parses (body start src) items) :
    ∃ outcome, convert src srcNull dstNull (some capacity) start dest flags = some outcome ∧
      Converts dest flags capacity items outcome := by
  unfold convert
  dsimp only
  rw [if_neg, opening_put]
  · by_cases room : (opening dest flags).length ≤ capacity
    · rw [if_pos room]
      dsimp only
      obtain ⟨⟨status, all⟩, runs, ends⟩ := @convertLoop_spec (plain start) dest flags capacity src.length (body start src)
        (opening dest flags) true items (by rwa [plain_form]) (by unfold body; rw [List.length_drop]; omega) room
      rw [show src.drop (skipped start src) = body start src from rfl, runs]
      rw [Bool.true_and] at ends
      have size : (converted dest flags items).length =
          (opening dest flags).length + (dest.form.text (shown (decide (flags &&& codeStripBom ≠ 0)) items)).length :=
        List.length_append
      cases status with
      | ok =>
        refine ⟨_, rfl, .inl rfl, fun _ => ⟨ends.1, rfl, ends.2.1, size ▸ ends.2.2⟩, fun never => Status.noConfusion never, ?_⟩
        rintro (never | never) <;> cases never
      | outputEof =>
        refine ⟨_, rfl, .inr (.inl rfl), fun never => Status.noConfusion never, fun _ => size ▸ ends, ?_⟩
        rintro (never | never) <;> cases never
      | data =>
        exact ⟨_, rfl, .inr (.inr (.inl rfl)), fun never => Status.noConfusion never, fun never => Status.noConfusion never,
          fun _ => ends⟩
      | inputEof =>
        exact ⟨_, rfl, .inr (.inr (.inr rfl)), fun never => Status.noConfusion never, fun never => Status.noConfusion never,
          fun _ => ends⟩
      | memory | unsupported | parameter => exact ends.elim
    · rw [if_neg room]
      refine ⟨_, rfl, .inr (.inl rfl), fun never => Status.noConfusion never, fun _ => ?_, ?_⟩
      · unfold converted
        rw [List.length_append]
        omega
      · rintro (never | never) <;> cases never
  · rintro (⟨some_, null⟩ | ⟨some_, null⟩ | unknown)
    · rw [valid.source some_] at null
      cases null
    · rw [valid.target some_] at null
      cases null
    · exact unknown valid.known

theorem converted_wellFormed {f : Form} {s : List Byte} (parses : f.Parses s items) (dest : Encoding) (flags : Word) :
    dest.form.WellFormed (converted dest flags items) := by
  have text : ∀ c ∈ shown (decide (flags &&& codeStripBom ≠ 0)) items, IsScalar c := fun c inside => shown_scalar parses _ inside
  unfold converted opening
  split_ifs with marked
  · refine ⟨bom :: shown (decide (flags &&& codeStripBom ≠ 0)) items, ?_, ?_⟩
    · intro c inside
      rcases List.mem_cons.mp inside with rfl | later
      · exact bom_scalar
      · exact text c later
    · rw [Form.text, Form.text, List.flatMap_cons]
  · exact ⟨_, text, List.nil_append _⟩

/-! ## The bound -/

/-- The code units of a source, one for what is left over. -/
def unitsOf (start : Encoding) (n : Nat) : Nat := n / start.form.unit + if n % start.form.unit ≠ 0 then 1 else 0

/-- The most bytes for a code unit. -/
def perUnit (start dest : Encoding) : Nat :=
  match dest with
  | .utf8 | .utf8Bom => if start.form.unit = 4 then 4 else 3
  | .utf16le | .utf16be => if start.form.unit = 4 then 4 else 2
  | .utf32le | .utf32be => 4

theorem boundFor_eq (n : Nat) (start dest : Encoding) : boundFor n start dest =
    if unitsOf start n > 0xFFFFFFFF / perUnit start dest then 0xFFFFFFFF else unitsOf start n * perUnit start dest := by
  cases start <;> cases dest <;> rfl

theorem utf8_length (c : Nat) : (utf8 c).length = if c < 0x80 then 1 else if c < 0x800 then 2 else if c < 0x10000 then 3 else 4 := by
  unfold utf8
  split_ifs <;> rfl

theorem utf16_size (big : Bool) (c : Nat) : (utf16 big c).length = if c < 0x10000 then 2 else 4 := by
  unfold utf16
  split_ifs
  · rw [unit16_length]
  · rw [List.length_append, unit16_length, unit16_length]

theorem unit_dvd (f : Form) (c : Nat) : f.unit ∣ (f.encode c).length := by
  cases f with
  | utf8 => exact one_dvd _
  | utf16 big =>
    rcases utf16_length big c with two | four
    · exact ⟨1, two⟩
    · exact ⟨2, four⟩
  | utf32 big => exact ⟨1, utf32_length big c⟩

/-- No form is longer than the units it is made from allow. -/
theorem perUnit_scalar (start dest : Encoding) (c : Nat) :
    (dest.form.encode c).length ≤ perUnit start dest * ((start.form.encode c).length / start.form.unit) := by
  obtain ⟨n, m, eight, sixteen, sizes⟩ : ∃ n m, (utf8 c).length = n ∧ (∀ big, (utf16 big c).length = m) ∧
      (n = 1 ∧ m = 2 ∨ n = 2 ∧ m = 2 ∨ n = 3 ∧ m = 2 ∨ n = 4 ∧ m = 4) := by
    refine ⟨_, _, utf8_length c, fun big => utf16_size big c, ?_⟩
    split_ifs <;> omega
  rcases sizes with ⟨rfl, rfl⟩ | ⟨rfl, rfl⟩ | ⟨rfl, rfl⟩ | ⟨rfl, rfl⟩ <;> cases start <;> cases dest <;>
    simp only [Encoding.form, Form.encode, Form.unit, perUnit, eight, sixteen, utf32_length] <;> decide

theorem perUnit_replacement (start dest : Encoding) : (dest.form.encode replacement).length ≤ perUnit start dest := by
  cases start <;> cases dest <;> decide

/-- The parts of a source take no more than its units allow. -/
theorem text_bound (start dest : Encoding) {s : List Byte} (parses : start.form.Parses s items) :
    (dest.form.text (shown false items)).length ≤ perUnit start dest * unitsOf start s.length := by
  rw [shown_false]
  have positive := start.form.unit_pos
  -- What is taken in front is whole units.
  have front : ∀ {k : Nat} (rest : List Byte), start.form.unit ∣ k ->
      unitsOf start (k + rest.length) = k / start.form.unit + unitsOf start rest.length := by
    intro k rest whole
    obtain ⟨q, rfl⟩ := whole
    unfold unitsOf
    rw [Nat.mul_add_mod, Nat.mul_add_div positive, Nat.mul_div_cancel_left q positive, Nat.add_assoc]
  have cons : ∀ (item : Option Nat) (items : List (Option Nat)),
      (dest.form.text ((item :: items).map fun item => item.getD replacement)).length =
        (dest.form.encode (item.getD replacement)).length + (dest.form.text (items.map fun item => item.getD replacement)).length := by
    intro item items
    rw [List.map_cons, Form.text, List.flatMap_cons, List.length_append]
    rfl
  induction parses with
  | finished => exact Nat.zero_le _
  | @scalar c rest items _ _ ih =>
    rw [cons, List.length_append, front rest (unit_dvd _ c), Nat.mul_add]
    exact Nat.add_le_add (perUnit_scalar start dest c) ih
  | @truncated bytes some_ _ _ =>
    have least : 1 ≤ unitsOf start bytes.length := by
      have whole := Nat.div_add_mod bytes.length start.form.unit
      have some_bytes := List.length_pos_of_ne_nil some_
      unfold unitsOf
      by_cases left : bytes.length % start.form.unit ≠ 0
      · rw [if_pos left]
        exact Nat.le_add_left 1 _
      · rw [if_neg left]
        refine Nat.one_le_iff_ne_zero.mpr fun none => ?_
        rw [not_not.mp left, show bytes.length / start.form.unit = 0 from none, Nat.mul_zero] at whole
        omega
    rw [cons]
    calc _ ≤ perUnit start dest * 1 := by
          rw [Nat.mul_one]
          exact perUnit_replacement start dest
      _ ≤ _ := Nat.mul_le_mul_left _ least
  | @subpart part rest items _ _ maximal _ ih =>
    have least : 1 ≤ part.length / start.form.unit :=
      (Nat.one_le_div_iff positive).mpr (Nat.le_of_dvd (List.length_pos_of_ne_nil maximal.some_) maximal.units)
    rw [cons, List.length_append, front rest maximal.units, Nat.mul_add]
    refine Nat.add_le_add ?_ ih
    calc _ ≤ perUnit start dest * 1 := by
          rw [Nat.mul_one]
          exact perUnit_replacement start dest
      _ ≤ _ := Nat.mul_le_mul_left _ least

theorem shown_length (dest : Form) (strip : Bool) (items : List (Option Nat)) :
    (dest.text (shown strip items)).length ≤ (dest.text (shown false items)).length := by
  by_cases marked : strip = true ∧ items.head? = some (some bom)
  · obtain ⟨rfl, head⟩ := marked
    obtain ⟨rest, rfl⟩ := List.head?_eq_some_iff.mp head
    rw [shown_bom, shown_cons (fun never => Bool.noConfusion never.1) rest, Form.text, Form.text, List.flatMap_cons,
      List.length_append]
    exact Nat.le_add_left _ _
  · have same : shown strip items = shown false items := by
      rw [shown_false]
      unfold shown
      rw [if_neg marked]
    rw [same]

theorem unitsOf_mono (start : Encoding) {n m : Nat} (least : n ≤ m) : unitsOf start n ≤ unitsOf start m := by
  unfold unitsOf
  generalize start.form.unit = unit
  have quotients : n / unit ≤ m / unit := Nat.div_le_div_right least
  by_cases left : n % unit ≠ 0
  · rw [if_pos left]
    by_cases right : m % unit ≠ 0
    · rw [if_pos right]
      exact Nat.add_le_add_right quotients 1
    · rw [if_neg right, Nat.add_zero]
      refine Nat.lt_of_le_of_ne quotients fun same => ?_
      have first := Nat.div_add_mod n unit
      have second := Nat.div_add_mod m unit
      rw [show n / unit = m / unit from same] at first
      omega
  · rw [if_neg left]
    exact Nat.le_trans quotients (Nat.le_add_right _ _)

/-- The bound is enough for any source, where it is not saturated. -/
theorem cptCodeBound_enough {src : List Byte} {dest : Encoding} (parses : start.form.Parses (body start src) items)
    (flags : Word) (fits : cptCodeBound src.length (some start) (some dest) < 0xFFFFFFFF) :
    (converted dest flags items).length ≤ cptCodeBound src.length (some start) (some dest) := by
  have mark : (opening dest flags).length ≤
      if dest = .utf16le ∨ dest = .utf16be then 2 else if dest = .utf32le ∨ dest = .utf32be then 4 else 3 := by
    unfold opening
    split_ifs with marked <;> first | exact Nat.zero_le _ | (cases dest <;> first | decide | simp_all)
  have text : (dest.form.text (shown (decide (flags &&& codeStripBom ≠ 0)) items)).length ≤
      perUnit start dest * unitsOf start src.length := by
    calc _ ≤ _ := shown_length dest.form _ items
      _ ≤ perUnit start dest * unitsOf start (body start src).length := text_bound start dest parses
      _ ≤ _ := Nat.mul_le_mul_left _ (unitsOf_mono start (by unfold body; rw [List.length_drop]; exact Nat.sub_le _ _))
  have size : (converted dest flags items).length =
      (opening dest flags).length + (dest.form.text (shown (decide (flags &&& codeStripBom ≠ 0)) items)).length :=
    List.length_append
  unfold cptCodeBound at fits ⊢
  dsimp only at fits ⊢
  rw [boundFor_eq] at fits ⊢
  rw [Nat.mul_comm] at text
  generalize unitsOf start src.length * perUnit start dest = most at text fits ⊢
  split_ifs at fits ⊢ mark <;> omega

/-! ## There and back -/

/-- A text in an encoding. -/
def encoded (enc : Encoding) (cps : List Nat) : List Byte := (if enc = .utf8Bom then enc.form.encode bom else []) ++ enc.form.text cps

theorem body_encoded (enc : Encoding) (cps : List Nat) : body enc (encoded enc cps) = enc.form.text cps := by
  unfold body encoded skipped
  by_cases marked : enc = .utf8Bom
  · rw [marked]
    exact congrArg (fun n => List.drop n _) (if_pos ⟨rfl, Nat.le_add_left 3 _, rfl, rfl, rfl⟩)
  · rw [if_neg marked, if_neg (fun both => marked both.1), List.nil_append, List.drop_zero]

/-- A text in one encoding becomes the text in the other. -/
theorem convert_encoded {dest : Encoding} {cps : List Nat} (scalars : ∀ c ∈ cps, IsScalar c)
    (head : cps.head? ≠ some bom) {srcNull dstNull : Bool} {capacity : Nat} {flags : Word}
    (valid : Valid (encoded start cps) srcNull dstNull capacity flags) (unmarked : flags &&& codeAddBom = 0)
    (room : (encoded dest cps).length ≤ capacity) :
    convert (encoded start cps) srcNull dstNull (some capacity) start dest flags =
      some ⟨.ok, (encoded dest cps).length, encoded dest cps⟩ := by
  have parses : start.form.Parses (body start (encoded start cps)) (cps.map some) := by
    rw [body_encoded]
    exact Form.parses_text scalars
  have text : shown (decide (flags &&& codeStripBom ≠ 0)) (cps.map some) = cps := by
    unfold shown
    rw [if_neg, List.map_map]
    · exact List.map_id cps
    · rintro ⟨_, same⟩
      rw [List.head?_map, Option.map_eq_some_iff] at same
      obtain ⟨c, found, same⟩ := same
      exact head (by rw [found, Option.some.inj same])
  have whole : converted dest flags (cps.map some) = encoded dest cps := by
    unfold converted encoded opening
    rw [text]
    congr 1
    exact if_congr (or_iff_left (not_not.mpr unmarked)) rfl rfl
  have good : none ∉ cps.map some := by simp
  obtain ⟨⟨status, size, written⟩, runs, ends⟩ := @convert_spec _ _ _ _ start dest _ valid _ parses
  rw [runs]
  rcases ends.known with ok | full | bad | bad
  · obtain ⟨same, length, _⟩ := ends.good ok
    rw [show status = .ok from ok, show size = written.length from length, show written = _ from same, whole]
  · have := ends.full full
    rw [whole] at this
    omega
  · exact absurd (ends.bad (.inl bad)).2 good
  · exact absurd (ends.bad (.inr bad)).2 good

/-! ## The contract of the library -/

/-- Texts go from any encoding to any other and back; any source that is well formed
converts and no other, unless each of its parts in error may become one U+FFFD; the bound
gives room enough. -/
theorem code_conversion :
    (∀ (cps : List Nat), (∀ c ∈ cps, IsScalar c) -> cps.head? ≠ some bom ->
      ∀ (start dest : Encoding) (srcNull dstNull : Bool) (capacity : Nat) (flags : Word),
        Valid (encoded start cps) srcNull dstNull capacity flags -> flags &&& codeAddBom = 0 ->
        (encoded dest cps).length ≤ capacity ->
        convert (encoded start cps) srcNull dstNull (some capacity) start dest flags =
          some ⟨.ok, (encoded dest cps).length, encoded dest cps⟩) ∧
    ∀ (src : List Byte) (srcNull dstNull : Bool) (capacity : Nat) (start dest : Encoding) (flags : Word),
      Valid src srcNull dstNull capacity flags ->
      ∃ items outcome, start.form.Parses (body start src) items ∧
        (∀ others, start.form.Parses (body start src) others -> others = items) ∧
        convert src srcNull dstNull (some capacity) start dest flags = some outcome ∧
        (flags &&& codeReplace = 0 ->
          (outcome.status = .ok ↔ start.form.WellFormed src ∧ (converted dest flags items).length ≤ capacity)) ∧
        (flags &&& codeReplace ≠ 0 -> (outcome.status = .ok ↔ (converted dest flags items).length ≤ capacity)) ∧
        (outcome.status = .ok -> outcome.written = converted dest flags items ∧ outcome.size = outcome.written.length ∧
          dest.form.WellFormed outcome.written) ∧
        (cptCodeBound src.length (some start) (some dest) < 0xFFFFFFFF ->
          cptCodeBound src.length (some start) (some dest) ≤ capacity -> outcome.status ≠ .outputEof) := by
  refine ⟨fun cps scalars head start dest srcNull dstNull capacity flags valid unmarked room =>
    convert_encoded scalars head valid unmarked room, ?_⟩
  intro src srcNull dstNull capacity start dest flags valid
  obtain ⟨items, parses⟩ := (decodes_plain start).parses (body start src)
  obtain ⟨outcome, runs, ends⟩ := @convert_spec _ _ _ _ start dest _ valid _ parses
  have well : start.form.WellFormed src ↔ none ∉ items := by
    rw [← wellFormed_body, (decodes_plain start).wellFormed_iff parses]
  -- With room and no part in error that may not be, the conversion does not stop.
  have goes : (flags &&& codeReplace = 0 -> none ∉ items) -> (converted dest flags items).length ≤ capacity ->
      outcome.status = .ok := by
    intro good room
    rcases ends.known with ok | full | bad | bad
    · exact ok
    · exact absurd (ends.full full) (by omega)
    · exact absurd (ends.bad (.inl bad)).2 (good (ends.bad (.inl bad)).1)
    · exact absurd (ends.bad (.inr bad)).2 (good (ends.bad (.inr bad)).1)
  refine ⟨items, outcome, parses, fun others second => (decodes_plain start).unique second parses, runs, ?_, ?_, ?_, ?_⟩
  · intro strict
    rw [well]
    refine ⟨fun ok => ?_, fun both => goes (fun _ => both.1) both.2⟩
    obtain ⟨_, _, good, room⟩ := ends.good ok
    exact ⟨good strict, room⟩
  · intro replaces
    exact ⟨fun ok => (ends.good ok).2.2.2, fun room => goes (fun strict => absurd strict replaces) room⟩
  · intro ok
    obtain ⟨same, size, _⟩ := ends.good ok
    refine ⟨same, size, ?_⟩
    rw [same]
    exact converted_wellFormed parses dest flags
  · intro fits enough full
    have most := cptCodeBound_enough parses flags fits
    have := ends.full full
    omega

theorem code_conversion_smile :
    convert (encoded .utf8Bom [0x41, 0x1F600]) false false (some 8) .utf8Bom .utf32be 0 =
        some ⟨.ok, (encoded .utf32be [0x41, 0x1F600]).length, encoded .utf32be [0x41, 0x1F600]⟩ ∧
      ∃ items outcome, Form.utf8.Parses (body .utf8 [0xE3, 0x81, 0x41]) items ∧
        convert [0xE3, 0x81, 0x41] false false (some 12) .utf8 .utf8 codeReplace = some outcome ∧
        (outcome.status = .ok ↔ (converted .utf8 codeReplace items).length ≤ 12) ∧ outcome.status ≠ .outputEof := by
  have first : Valid (encoded .utf8Bom [0x41, 0x1F600]) false false 8 0 := ⟨fun _ => rfl, fun _ => rfl, by decide⟩
  have second : Valid [0xE3, 0x81, 0x41] false false 12 codeReplace := ⟨fun _ => rfl, fun _ => rfl, by decide⟩
  refine ⟨code_conversion.1 [0x41, 0x1F600] (by decide) (by decide) .utf8Bom .utf32be false false 8 0 first (by decide) (by decide), ?_⟩
  obtain ⟨items, outcome, parses, _, runs, _, replaces, _, bound⟩ :=
    code_conversion.2 [0xE3, 0x81, 0x41] false false 12 .utf8 .utf8 codeReplace second
  exact ⟨items, outcome, parses, runs, replaces (by decide), bound (by decide) (by decide)⟩

end Src32.Codecs
