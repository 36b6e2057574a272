import Src32.Codecs.Code

namespace Src32.Codecs

open Unicode

/-!
# What the decoders take

A decoder takes a form where one is in front, the whole tail where this could go on to
a form, and else the maximal subpart.
-/

/-- A result of a decoder that says so. -/
def Takes (f : Form) (s : List Byte) : Read -> Nat -> Prop
  | .ok c, k => IsScalar c ∧ k = (f.encode c).length ∧ f.encode c <+: s
  | .inputEof, k => k = s.length ∧ f.Truncated s
  | .data, k => f.MaximalSubpart (s.take k) s ∧ ¬f.Truncated s ∧ k ≤ s.length

/-- A decoder of a form takes what is there, and a whole form above all. -/
structure Decodes (f : Form) (decode : List Byte -> Option (Read × Nat)) : Prop where
  takes : ∀ s, s ≠ [] -> ∃ read k, decode s = some (read, k) ∧ 0 < k ∧ Takes f s read k
  form : ∀ c more, IsScalar c -> decode (f.encode c ++ more) = some (.ok c, (f.encode c).length)

/-! ## UTF-8 -/

/-- How many bytes follow a first one, the least and the greatest second byte, and the
bits of the first. -/
def leads (b : Nat) : Option (Nat × Nat × Nat × Nat) :=
  if b ≥ 0xC2 ∧ b ≤ 0xDF then some (1, 0x80, 0xBF, b &&& 0x1F)
  else if b ≥ 0xE0 ∧ b ≤ 0xEF then some (2, if b = 0xE0 then 0xA0 else 0x80, if b = 0xED then 0x9F else 0xBF, b &&& 0x0F)
  else if b ≥ 0xF0 ∧ b ≤ 0xF4 then some (3, if b = 0xF0 then 0x90 else 0x80, if b = 0xF4 then 0x8F else 0xBF, b &&& 0x07)
  else none

/-- Bytes that may follow: the first between two bounds, the others trail. -/
def Follow (lo hi : Nat) : List Byte -> Prop
  | [] => True
  | x :: rest => lo ≤ x.toNat ∧ x.toNat ≤ hi ∧ Follow 0x80 0xBF rest

/-- The value of a first byte's bits and the bytes behind. -/
def valueOf (bits : Nat) (tail : List Byte) : Nat := tail.foldl (fun c x => c * 64 + x.toNat % 64) bits

/-- The shape of the form of a scalar value. -/
def Shape (c : Nat) (b : Byte) (tail : List Byte) : Prop :=
  b.toNat < 0x80 ∧ tail = [] ∧ b.toNat = c ∨
    ∃ need lo hi bits, leads b.toNat = some (need, lo, hi, bits) ∧ tail.length = need ∧ Follow lo hi tail ∧ valueOf bits tail = c

theorem shape_of_utf8 {c : Nat} (scalar : IsScalar c) : ∃ b tail, utf8 c = b :: tail ∧ Shape c b tail := by
  have limit := scalar.1
  have surrogates := scalar.2
  rcases (by omega : c < 0x80 ∨ 0x80 ≤ c ∧ c < 0x800 ∨ 0x800 ≤ c ∧ c < 0x10000 ∨ 0x10000 ≤ c) with
    one | ⟨two, most⟩ | ⟨three, most⟩ | four
  · have first : (BitVec.ofNat 8 c : Byte).toNat = c := ofNat_toNat (by omega)
    exact ⟨_, _, utf8_one one, .inl ⟨by omega, rfl, first⟩⟩
  · have first : (BitVec.ofNat 8 (0xC0 + c / 64) : Byte).toNat = 0xC0 + c / 64 := ofNat_toNat (by omega)
    refine ⟨_, _, utf8_two two most, .inr ⟨1, 0x80, 0xBF, (0xC0 + c / 64) &&& 0x1F, ?_, rfl, ?_, ?_⟩⟩
    · unfold leads
      rw [first, if_pos (by omega)]
    · simp only [Follow, trail_toNat]
      exact ⟨by omega, by omega, trivial⟩
    · simp only [valueOf, List.foldl, trail_toNat]
      rw [show (0xC0 + c / 64) &&& 0x1F = (0xC0 + c / 64) % 32 from Nat.and_two_pow_sub_one_eq_mod _ 5]
      omega
  · have first : (BitVec.ofNat 8 (0xE0 + c / 4096) : Byte).toNat = 0xE0 + c / 4096 := ofNat_toNat (by omega)
    refine ⟨_, _, utf8_three three most, .inr ⟨2, if 0xE0 + c / 4096 = 0xE0 then 0xA0 else 0x80,
      if 0xE0 + c / 4096 = 0xED then 0x9F else 0xBF, (0xE0 + c / 4096) &&& 0x0F, ?_, rfl, ?_, ?_⟩⟩
    · unfold leads
      rw [first, if_neg (by omega), if_pos (by omega)]
    · simp only [Follow, trail_toNat]
      refine ⟨?_, ?_, by omega, by omega, trivial⟩
      · split_ifs <;> omega
      · split_ifs <;> omega
    · simp only [valueOf, List.foldl, trail_toNat]
      rw [show (0xE0 + c / 4096) &&& 0x0F = (0xE0 + c / 4096) % 16 from Nat.and_two_pow_sub_one_eq_mod _ 4]
      omega
  · have first : (BitVec.ofNat 8 (0xF0 + c / 262144) : Byte).toNat = 0xF0 + c / 262144 := ofNat_toNat (by omega)
    refine ⟨_, _, utf8_four four, .inr ⟨3, if 0xF0 + c / 262144 = 0xF0 then 0x90 else 0x80,
      if 0xF0 + c / 262144 = 0xF4 then 0x8F else 0xBF, (0xF0 + c / 262144) &&& 0x07, ?_, rfl, ?_, ?_⟩⟩
    · unfold leads
      rw [first, if_neg (by omega), if_neg (by omega), if_pos (by omega)]
    · simp only [Follow, trail_toNat]
      refine ⟨?_, ?_, by omega, by omega, by omega, by omega, trivial⟩
      · split_ifs <;> omega
      · split_ifs <;> omega
    · simp only [valueOf, List.foldl, trail_toNat]
      rw [show (0xF0 + c / 262144) &&& 0x07 = (0xF0 + c / 262144) % 8 from Nat.and_two_pow_sub_one_eq_mod _ 3]
      omega

variable {tail part : List Byte} {lo hi need bits : Nat} {b : Byte}

theorem utf8_of_shape (lead : leads b.toNat = some (need, lo, hi, bits)) (length : tail.length = need)
    (follow : Follow lo hi tail) :
    IsScalar (valueOf bits tail) ∧ utf8 (valueOf bits tail) = b :: tail := by
  unfold leads at lead
  by_cases two : b.toNat ≥ 0xC2 ∧ b.toNat ≤ 0xDF
  · rw [if_pos two] at lead
    cases lead
    obtain ⟨x, rfl⟩ := List.length_eq_one_iff.mp length
    simp only [Follow] at follow
    have bits : b.toNat &&& 0x1F = b.toNat % 32 := Nat.and_two_pow_sub_one_eq_mod b.toNat 5
    have value : valueOf (b.toNat &&& 0x1F) [x] = b.toNat % 32 * 64 + x.toNat % 64 := by rw [bits]; rfl
    generalize valueOf (b.toNat &&& 0x1F) [x] = c at value ⊢
    refine ⟨⟨by omega, by omega⟩, ?_⟩
    rw [utf8_two (by omega) (by omega), ← eq_ofNat (show b.toNat = 0xC0 + c / 64 by omega), ← @eq_trail x c (by omega)]
  rw [if_neg two] at lead
  by_cases three : b.toNat ≥ 0xE0 ∧ b.toNat ≤ 0xEF
  · rw [if_pos three] at lead
    cases lead
    obtain ⟨x, y, rfl⟩ := List.length_eq_two.mp length
    simp only [Follow] at follow
    have bits : b.toNat &&& 0x0F = b.toNat % 16 := Nat.and_two_pow_sub_one_eq_mod b.toNat 4
    have value : valueOf (b.toNat &&& 0x0F) [x, y] = (b.toNat % 16 * 64 + x.toNat % 64) * 64 + y.toNat % 64 := by rw [bits]; rfl
    generalize valueOf (b.toNat &&& 0x0F) [x, y] = c at value ⊢
    obtain ⟨least, most, leastY, mostY, _⟩ := follow
    have second : 0x800 ≤ c ∧ ¬(0xD800 ≤ c ∧ c ≤ 0xDFFF) := by
      split_ifs at least most <;> omega
    have wide : 0x80 ≤ x.toNat ∧ x.toNat ≤ 0xBF := by
      split_ifs at least most <;> omega
    refine ⟨⟨by omega, second.2⟩, ?_⟩
    rw [utf8_three second.1 (by omega), ← eq_ofNat (show b.toNat = 0xE0 + c / 4096 by omega),
      ← @eq_trail x (c / 64) (by omega), ← @eq_trail y c (by omega)]
  rw [if_neg three] at lead
  by_cases four : b.toNat ≥ 0xF0 ∧ b.toNat ≤ 0xF4
  · rw [if_pos four] at lead
    cases lead
    obtain ⟨x, y, z, rfl⟩ := List.length_eq_three.mp length
    simp only [Follow] at follow
    have bits : b.toNat &&& 0x07 = b.toNat % 8 := Nat.and_two_pow_sub_one_eq_mod b.toNat 3
    have value : valueOf (b.toNat &&& 0x07) [x, y, z] =
        ((b.toNat % 8 * 64 + x.toNat % 64) * 64 + y.toNat % 64) * 64 + z.toNat % 64 := by rw [bits]; rfl
    generalize valueOf (b.toNat &&& 0x07) [x, y, z] = c at value ⊢
    obtain ⟨least, most, leastY, mostY, leastZ, mostZ, _⟩ := follow
    have second : 0x10000 ≤ c ∧ c ≤ 0x10FFFF := by
      split_ifs at least most <;> omega
    have wide : 0x80 ≤ x.toNat ∧ x.toNat ≤ 0xBF := by
      split_ifs at least most <;> omega
    refine ⟨⟨second.2, by omega⟩, ?_⟩
    rw [utf8_four second.1, ← eq_ofNat (show b.toNat = 0xF0 + c / 262144 by omega), ← @eq_trail x (c / 4096) (by omega),
      ← @eq_trail y (c / 64) (by omega), ← @eq_trail z c (by omega)]
  · rw [if_neg four] at lead
    cases lead

theorem follow_part (front : part <+: tail) (follow : Follow lo hi tail) :
    Follow lo hi part := by
  induction part generalizing lo hi tail with
  | nil => trivial
  | cons x part ih =>
    cases tail with
    | nil => exact absurd front (by simp)
    | cons y tail =>
      rw [List.cons_prefix_cons] at front
      obtain ⟨rfl, front⟩ := front
      exact ⟨follow.1, follow.2.1, ih front follow.2.2⟩

/-- Bytes that may follow go on with bytes that may. -/
theorem follow_append (room : lo ≤ hi) (byte : hi < 256) (follow : Follow lo hi part) (n : Nat) :
    ∃ more, more.length = n ∧ Follow lo hi (part ++ more) := by
  induction part generalizing lo hi with
  | nil =>
    have trails : ∀ k, Follow 0x80 0xBF (List.replicate k (0x80 : Byte)) := by
      intro k
      induction k with
      | zero => trivial
      | succ k ih => exact ⟨by decide, by decide, ih⟩
    cases n with
    | zero => exact ⟨[], rfl, trivial⟩
    | succ n =>
      have first : (BitVec.ofNat 8 lo : Byte).toNat = lo := ofNat_toNat (by omega)
      refine ⟨BitVec.ofNat 8 lo :: List.replicate n 0x80, by simp, ?_, ?_, trails n⟩
      · omega
      · omega
  | cons x part ih =>
    obtain ⟨more, length, goes⟩ := ih (by decide) (by decide) follow.2.2
    exact ⟨more, length, follow.1, follow.2.1, goes⟩

theorem leads_bounds {b : Nat} (lead : leads b = some (need, lo, hi, bits)) :
    lo ≤ hi ∧ hi < 256 ∧ 0x80 ≤ lo ∧ hi ≤ 0xBF ∧ 0x80 ≤ b := by
  unfold leads at lead
  by_cases two : b ≥ 0xC2 ∧ b ≤ 0xDF
  · rw [if_pos two] at lead
    cases lead
    omega
  rw [if_neg two] at lead
  by_cases three : b ≥ 0xE0 ∧ b ≤ 0xEF
  · rw [if_pos three] at lead
    cases lead
    refine ⟨?_, ?_, ?_, ?_, by omega⟩ <;> split_ifs <;> omega
  rw [if_neg three] at lead
  by_cases four : b ≥ 0xF0 ∧ b ≤ 0xF4
  · rw [if_pos four] at lead
    cases lead
    refine ⟨?_, ?_, ?_, ?_, by omega⟩ <;> split_ifs <;> omega
  · rw [if_neg four] at lead
    cases lead

/-- What begins a form of UTF-8. -/
theorem begins_iff : Form.utf8.Begins (b :: part) ↔
    ∃ need lo hi bits, leads b.toNat = some (need, lo, hi, bits) ∧ part.length < need ∧ Follow lo hi part := by
  constructor
  · rintro ⟨c, tail, scalar, some_, whole⟩
    obtain ⟨d, rest, same, shape⟩ := shape_of_utf8 scalar
    rw [show Form.utf8.encode c = utf8 c from rfl, same, List.cons_append] at whole
    obtain ⟨rfl, rfl⟩ := List.cons.inj whole
    rcases shape with ⟨_, none, _⟩ | ⟨need, lo, hi, bits, lead, length, follow, _⟩
    · exact absurd (List.append_eq_nil_iff.mp none).2 some_
    · rw [List.length_append] at length
      have more := List.length_pos_of_ne_nil some_
      exact ⟨need, lo, hi, bits, lead, by omega, follow_part (List.prefix_append _ _) follow⟩
  · rintro ⟨need, lo, hi, bits, lead, short, follow⟩
    obtain ⟨room, byte, _⟩ := leads_bounds lead
    obtain ⟨more, length, goes⟩ := follow_append room byte follow (need - part.length)
    obtain ⟨scalar, same⟩ := utf8_of_shape lead (by rw [List.length_append]; omega) goes
    refine ⟨_, more, scalar, ?_, same⟩
    rintro rfl
    rw [List.length_nil] at length
    omega

theorem more_bits (c x : Nat) : c <<< 6 ||| x &&& 0x3F = c * 64 + x % 64 := by
  rw [show x &&& 0x3F = x % 64 from Nat.and_two_pow_sub_one_eq_mod x 6,
    ← Nat.shiftLeft_add_eq_or_of_lt (Nat.mod_lt x (by decide)), Nat.shiftLeft_eq]

/-- The loop over the bytes behind a first one. -/
theorem trailBytes_spec {s : List Byte} {need cp lo hi p : Nat} (most : p ≤ s.length) :
    ∃ read k, trailBytes s need cp lo hi p = some (read, k) ∧ p ≤ k ∧ k ≤ s.length ∧ Follow lo hi ((s.drop p).take (k - p)) ∧
      match read with
      | .ok d => k = p + need ∧ d = valueOf cp ((s.drop p).take need)
      | .inputEof => k = s.length ∧ k < p + need
      | .data => k < p + need ∧ k < s.length ∧ ¬Follow lo hi ((s.drop p).take (k + 1 - p)) := by
  induction need generalizing cp lo hi p with
  | zero => exact ⟨_, p, rfl, Nat.le_refl p, most, by rw [Nat.sub_self]; trivial, rfl, rfl⟩
  | succ need ih =>
    unfold trailBytes
    by_cases behind : p ≥ s.length
    · rw [if_pos behind]
      exact ⟨_, p, rfl, Nat.le_refl p, most, by rw [Nat.sub_self]; trivial, by omega, by omega⟩
    rw [if_neg behind]
    have less : p < s.length := by omega
    have rest : s.drop p = s[p] :: s.drop (p + 1) := List.drop_eq_getElem_cons less
    rw [List.getElem?_eq_getElem less]
    generalize s[p] = b at rest
    dsimp only
    by_cases out : b.toNat < lo ∨ b.toNat > hi
    · rw [if_pos out]
      refine ⟨_, p, rfl, Nat.le_refl p, most, by rw [Nat.sub_self]; trivial, by omega, less, ?_⟩
      rw [rest, show p + 1 - p = 0 + 1 by omega, List.take_succ_cons]
      rintro ⟨least, highest, _⟩
      omega
    rw [if_neg out, more_bits]
    obtain ⟨read, k, runs, from_, upto, follow, found⟩ :=
      @ih (cp * 64 + b.toNat % 64) 0x80 0xBF (p + 1) (by omega)
    refine ⟨read, k, runs, by omega, upto, ?_, ?_⟩
    · rw [rest, show k - p = k - (p + 1) + 1 by omega, List.take_succ_cons]
      exact ⟨by omega, by omega, follow⟩
    cases read with
    | ok d =>
      refine ⟨by omega, ?_⟩
      rw [found.2, rest, List.take_succ_cons]
      rfl
    | inputEof => exact ⟨found.1, by omega⟩
    | data =>
      refine ⟨by omega, found.2.1, ?_⟩
      rw [rest, show k + 1 - p = k + 1 - (p + 1) + 1 by omega, List.take_succ_cons]
      rintro ⟨_, _, follow⟩
      exact found.2.2 follow

theorem nextUtf8_ascii (ascii : b.toNat < 0x80) : nextUtf8 (b :: tail) = some (.ok b.toNat, 1) :=
  if_pos ascii

theorem nextUtf8_lead (lead : leads b.toNat = some (need, lo, hi, bits)) :
    nextUtf8 (b :: tail) = trailBytes (b :: tail) need bits lo hi 1 := by
  have high := (leads_bounds lead).2.2.2.2
  unfold leads at lead
  simp only [nextUtf8, List.getElem?_cons_zero]
  rw [if_neg (by omega)]
  by_cases two : b.toNat ≥ 0xC2 ∧ b.toNat ≤ 0xDF
  · rw [if_pos two] at lead ⊢
    cases lead
    rfl
  rw [if_neg two] at lead ⊢
  by_cases three : b.toNat ≥ 0xE0 ∧ b.toNat ≤ 0xEF
  · rw [if_pos three] at lead ⊢
    cases lead
    rfl
  rw [if_neg three] at lead ⊢
  by_cases four : b.toNat ≥ 0xF0 ∧ b.toNat ≤ 0xF4
  · rw [if_pos four] at lead ⊢
    cases lead
    rfl
  · rw [if_neg four] at lead
    cases lead

theorem nextUtf8_stray (high : ¬b.toNat < 0x80) (stray : leads b.toNat = none) :
    nextUtf8 (b :: tail) = some (.data, 1) := by
  unfold leads at stray
  simp only [nextUtf8, List.getElem?_cons_zero]
  rw [if_neg high]
  by_cases two : b.toNat ≥ 0xC2 ∧ b.toNat ≤ 0xDF
  · rw [if_pos two] at stray
    cases stray
  rw [if_neg two] at stray ⊢
  by_cases three : b.toNat ≥ 0xE0 ∧ b.toNat ≤ 0xEF
  · rw [if_pos three] at stray
    cases stray
  rw [if_neg three] at stray ⊢
  by_cases four : b.toNat ≥ 0xF0 ∧ b.toNat ≤ 0xF4
  · rw [if_pos four] at stray
    cases stray
  · exact if_neg four

theorem truncated_utf8 {s : List Byte} : Form.utf8.Truncated s ↔ Form.utf8.Begins s := by
  unfold Form.Truncated
  rw [show Form.utf8.unit = 1 from rfl, Nat.div_one, Nat.mul_one, List.take_length]

/-- What goes on from a byte that leads. -/
theorem lead_takes (lead : leads b.toNat = some (need, lo, hi, bits)) :
    ∃ read k, trailBytes (b :: tail) need bits lo hi 1 = some (read, k) ∧ 0 < k ∧ Takes .utf8 (b :: tail) read k := by
  obtain ⟨read, k, runs, from_, upto, follow, found⟩ :=
    @trailBytes_spec (b :: tail) need bits lo hi 1 (Nat.succ_pos tail.length)
  rw [show (b :: tail).drop 1 = tail from rfl] at follow found
  rw [List.length_cons] at upto
  -- Bytes that begin a form have this one in front, and the rest may follow.
  have goes : ∀ part : List Byte, Form.utf8.Begins (b :: part) -> part.length < need ∧ Follow lo hi part := by
    intro part begins
    obtain ⟨need', lo', hi', bits', lead', short, follows⟩ := begins_iff.mp begins
    rw [lead] at lead'
    cases lead'
    exact ⟨short, follows⟩
  refine ⟨read, k, runs, from_, ?_⟩
  cases read with
  | ok d =>
    obtain ⟨end_, value⟩ := found
    have length : (tail.take need).length = need := by
      rw [List.length_take]
      omega
    rw [show k - 1 = need by omega] at follow
    obtain ⟨scalar, form⟩ := utf8_of_shape lead length follow
    rw [← value] at scalar form
    refine ⟨scalar, ?_, ?_⟩
    · rw [show Form.utf8.encode d = utf8 d from rfl, form, List.length_cons, length]
      omega
    · rw [show Form.utf8.encode d = utf8 d from rfl, form, List.cons_prefix_cons]
      exact ⟨rfl, List.take_prefix _ _⟩
  | inputEof =>
    obtain ⟨end_, cut⟩ := found
    rw [List.length_cons] at end_
    refine ⟨by rw [end_, List.length_cons], truncated_utf8.mpr (begins_iff.mpr ⟨need, lo, hi, bits, lead, by omega, ?_⟩)⟩
    rw [show k - 1 = tail.length by omega, List.take_length] at follow
    exact follow
  | data =>
    obtain ⟨short, inside, stops⟩ := found
    rw [List.length_cons] at inside
    rw [Nat.add_sub_cancel] at stops
    have part : (b :: tail).take k = b :: tail.take (k - 1) := by
      rw [← List.take_succ_cons, Nat.sub_add_cancel from_]
    have size : (tail.take (k - 1)).length = k - 1 := by
      rw [List.length_take]
      omega
    refine ⟨⟨List.take_prefix _ _, ?_, one_dvd _, .inr ?_, ?_⟩, ?_, by rw [List.length_cons]; omega⟩
    · rw [part]
      exact List.cons_ne_nil _ _
    · rw [part]
      exact begins_iff.mpr ⟨need, lo, hi, bits, lead, by omega, follow⟩
    · intro longer front _ more begins
      rw [part, List.length_cons, size] at more
      obtain ⟨c, rest, rfl⟩ := List.exists_cons_of_length_pos (show 0 < longer.length by omega)
      rw [List.cons_prefix_cons] at front
      obtain ⟨rfl, front⟩ := front
      rw [List.length_cons] at more
      refine stops (follow_part ?_ (goes rest begins).2)
      exact List.prefix_of_prefix_length_le (List.take_prefix _ _) front (by rw [List.length_take]; omega)
    · rw [truncated_utf8]
      intro begins
      exact stops (follow_part (List.take_prefix _ _) (goes tail begins).2)

theorem nextUtf8_takes {s : List Byte} (some_ : s ≠ []) :
    ∃ read k, nextUtf8 s = some (read, k) ∧ 0 < k ∧ Takes .utf8 s read k := by
  obtain ⟨b, tail, rfl⟩ := List.exists_cons_of_ne_nil some_
  by_cases ascii : b.toNat < 0x80
  · have form : utf8 b.toNat = [b] := by
      rw [utf8_one ascii, ← eq_ofNat rfl]
    refine ⟨_, 1, nextUtf8_ascii ascii, Nat.one_pos, ⟨by omega, by omega⟩, ?_, ?_⟩
    · rw [show Form.utf8.encode b.toNat = utf8 b.toNat from rfl, form]
      rfl
    · rw [show Form.utf8.encode b.toNat = utf8 b.toNat from rfl, form]
      exact ⟨tail, rfl⟩
  cases lead : leads b.toNat with
  | some quadruple =>
    obtain ⟨need, lo, hi, bits⟩ := quadruple
    rw [nextUtf8_lead lead]
    exact lead_takes lead
  | none =>
    have never : ∀ part : List Byte, ¬Form.utf8.Begins (b :: part) := by
      intro part begins
      obtain ⟨need, lo, hi, bits, found, _⟩ := begins_iff.mp begins
      rw [lead] at found
      cases found
    refine ⟨_, 1, nextUtf8_stray ascii lead, Nat.one_pos, ?_, ?_, Nat.succ_pos _⟩
    · refine ⟨⟨tail, rfl⟩, List.cons_ne_nil _ _, one_dvd _, .inl rfl, ?_⟩
      intro longer front _ more begins
      obtain ⟨c, rest, rfl⟩ := List.exists_cons_of_length_pos (Nat.lt_of_le_of_lt (Nat.zero_le _) more)
      rw [List.cons_prefix_cons] at front
      obtain ⟨rfl, front⟩ := front
      exact never rest begins
    · rw [truncated_utf8]
      exact never tail

theorem nextUtf8_form {c : Nat} (scalar : IsScalar c) (more : List Byte) :
    nextUtf8 (utf8 c ++ more) = some (.ok c, (utf8 c).length) := by
  obtain ⟨b, tail, same, shape⟩ := shape_of_utf8 scalar
  rw [same, List.cons_append, List.length_cons]
  rcases shape with ⟨ascii, rfl, value⟩ | ⟨need, lo, hi, bits, lead, length, follow, value⟩
  · rw [nextUtf8_ascii ascii, value]
    rfl
  rw [nextUtf8_lead lead]
  obtain ⟨read, k, runs, from_, upto, part, found⟩ :=
    @trailBytes_spec (b :: (tail ++ more)) need bits lo hi 1 (Nat.succ_pos _)
  rw [show (b :: (tail ++ more)).drop 1 = tail ++ more from rfl] at part found
  rw [List.length_cons, List.length_append] at upto
  rw [runs]
  cases read with
  | ok d =>
    obtain ⟨end_, found⟩ := found
    rw [List.take_append_of_le_length (by omega), ← length, List.take_length, value] at found
    rw [found, end_, length, Nat.add_comm]
  | inputEof =>
    obtain ⟨end_, cut⟩ := found
    rw [List.length_cons, List.length_append] at end_
    omega
  | data =>
    obtain ⟨short, _, stops⟩ := found
    rw [Nat.add_sub_cancel] at stops
    rw [List.take_append_of_le_length (by omega)] at stops
    exact absurd (follow_part (List.take_prefix _ _) follow) stops

theorem decodes_utf8 : Decodes .utf8 nextUtf8 :=
  ⟨fun _ some_ => nextUtf8_takes some_, fun _ more scalar => nextUtf8_form scalar more⟩

end Src32.Codecs
