import Src32.Libfnd.Name

namespace Src32.Libfnd

open Unicode

/-!
# The decoder of names

The decoder takes exactly the shortest forms of scalar values.
-/

section Bytes

variable (b : Byte)

theorem trail_iff : b &&& 0xC0 = 0x80 ↔ 0x80 ≤ b.toNat ∧ b.toNat < 0xC0 := by
  revert b
  decide +kernel

theorem trail_bits : (b &&& 0x3F).toNat = b.toNat % 64 := by
  rw [BitVec.toNat_and]
  exact Nat.and_two_pow_sub_one_eq_mod b.toNat 6

theorem two_iff : b &&& 0xE0 = 0xC0 ↔ 0xC0 ≤ b.toNat ∧ b.toNat < 0xE0 := by
  revert b
  decide +kernel

theorem three_iff : b &&& 0xF0 = 0xE0 ↔ 0xE0 ≤ b.toNat ∧ b.toNat < 0xF0 := by
  revert b
  decide +kernel

theorem four_iff : b &&& 0xF8 = 0xF0 ↔ 0xF0 ≤ b.toNat ∧ b.toNat < 0xF8 := by
  revert b
  decide +kernel

theorem two_bits : (b &&& 0x1F).toNat = b.toNat % 32 := by
  rw [BitVec.toNat_and]
  exact Nat.and_two_pow_sub_one_eq_mod b.toNat 5

theorem three_bits : (b &&& 0x0F).toNat = b.toNat % 16 := by
  rw [BitVec.toNat_and]
  exact Nat.and_two_pow_sub_one_eq_mod b.toNat 4

theorem four_bits : (b &&& 0x07).toNat = b.toNat % 8 := by
  rw [BitVec.toNat_and]
  exact Nat.and_two_pow_sub_one_eq_mod b.toNat 3

end Bytes

variable {s rest : List Byte} {c : Nat}

theorem shift_or {x : Nat} (small : x < 64) : c <<< 6 ||| x = c * 64 + x := by
  rw [← Nat.shiftLeft_add_eq_or_of_lt (show x < 2 ^ 6 from small), Nat.shiftLeft_eq]

/-- The bytes that follow a first one. -/
theorem continuation_iff {k d : Nat} : continuation k c s = some (d, rest) ↔
    ∃ tail : List Nat, tail.length = k ∧ (∀ x ∈ tail, x < 64) ∧ s = tail.map trail ++ rest ∧
      d = tail.foldl (fun c x => c * 64 + x) c := by
  fun_induction continuation k c s with
  | case1 c s =>
    constructor
    · intro same
      cases same
      exact ⟨[], rfl, fun _ inside => absurd inside List.not_mem_nil, rfl, rfl⟩
    · rintro ⟨tail, none, _, whole, value⟩
      cases List.eq_nil_of_length_eq_zero none
      rw [value, show s = rest from whole]
      rfl
  | case2 k c =>
    refine iff_of_false (Option.some_ne_none _).symm ?_
    rintro ⟨tail, length, _, whole, _⟩
    cases tail with
    | nil => cases length
    | cons x tail => cases whole
  | case3 k c b s bad =>
    refine iff_of_false (Option.some_ne_none _).symm ?_
    rintro ⟨tail, length, small, whole, _⟩
    cases tail with
    | nil => cases length
    | cons x tail =>
      rw [List.map_cons, List.cons_append] at whole
      rw [(List.cons.inj whole).1] at bad
      refine bad ((trail_iff _).mpr ?_)
      rw [trail_toNat]
      omega
  | case4 k c b s good ih =>
    have is_trail := (trail_iff b).mp (not_not.mp good)
    have value : c <<< 6 ||| (b &&& 0x3F).toNat = c * 64 + b.toNat % 64 := by
      rw [trail_bits]
      exact shift_or (by omega)
    rw [ih, value]
    constructor
    · rintro ⟨tail, length, small, rfl, rfl⟩
      refine ⟨b.toNat % 64 :: tail, congrArg _ length, ?_, ?_, rfl⟩
      · exact List.forall_mem_cons.mpr ⟨by omega, small⟩
      · rw [List.map_cons, List.cons_append, ← eq_trail (show b.toNat = 0x80 + b.toNat % 64 % 64 by omega)]
    · rintro ⟨tail, length, small, whole, same⟩
      cases tail with
      | nil => cases length
      | cons x tail =>
        obtain ⟨least, others⟩ := List.forall_mem_cons.mp small
        rw [List.map_cons, List.cons_append] at whole
        obtain ⟨head, back⟩ := List.cons.inj whole
        refine ⟨tail, Nat.succ.inj length, others, back, ?_⟩
        rw [same, List.foldl_cons, head, trail_toNat]
        congr 1
        omega

theorem sequence_iff {need min cp : Nat} : sequence need min c s = .scalar cp rest ↔
    ∃ tail : List Nat, tail.length = need ∧ (∀ x ∈ tail, x < 64) ∧ s = tail.map trail ++ rest ∧
      cp = tail.foldl (fun c x => c * 64 + x) c ∧ min ≤ cp ∧ IsScalar cp := by
  unfold sequence
  by_cases short : s.length < need
  · rw [if_pos short]
    refine iff_of_false nofun ?_
    rintro ⟨tail, length, _, rfl, _⟩
    rw [List.length_append, List.length_map] at short
    omega
  · rw [if_neg short]
    cases taken : continuation need c s with
    | none =>
      refine iff_of_false nofun ?_
      rintro ⟨tail, length, small, whole, value, _⟩
      rw [continuation_iff.mpr ⟨tail, length, small, whole, value⟩] at taken
      cases taken
    | some found =>
      obtain ⟨d, more⟩ := found
      dsimp only
      split_ifs with bad
      · refine iff_of_false nofun ?_
        rintro ⟨tail, length, small, whole, value, least, scalar⟩
        rw [continuation_iff.mpr ⟨tail, length, small, whole, rfl⟩, ← value] at taken
        cases taken
        obtain below | above | surrogate := bad
        · omega
        · exact absurd scalar.1 (by omega)
        · exact scalar.2 surrogate
      · constructor
        · intro same
          cases same
          obtain ⟨tail, length, small, whole, value⟩ := continuation_iff.mp taken
          exact ⟨tail, length, small, whole, value, by omega, by omega, fun surrogate => bad (.inr (.inr surrogate))⟩
        · rintro ⟨tail, length, small, whole, value, _⟩
          rw [continuation_iff.mpr ⟨tail, length, small, whole, rfl⟩, ← value] at taken
          cases taken
          rfl

/-- What the decoder takes is a shortest form. -/
theorem utf8Next_sound {cp : Nat} (next : utf8Next s = .scalar cp rest) :
    IsScalar cp ∧ s = utf8 cp ++ rest := by
  cases s with
  | nil => cases next
  | cons b s =>
    have small := b.isLt
    unfold utf8Next at next
    dsimp only at next
    split_ifs at next with one two three four
    · cases next
      refine ⟨⟨by omega, by omega⟩, ?_⟩
      rw [utf8_one one, BitVec.ofNat_toNat, BitVec.setWidth_eq]
      rfl
    · obtain ⟨tail, length, below, rfl, value, least, scalar⟩ := sequence_iff.mp next
      obtain ⟨x, rfl⟩ := List.length_eq_one_iff.mp length
      obtain ⟨first, last⟩ := (two_iff b).mp two
      have last := below x List.mem_cons_self
      rw [two_bits] at value
      change cp = b.toNat % 32 * 64 + x at value
      refine ⟨scalar, ?_⟩
      rw [utf8_two least (by omega), ← eq_ofNat (show b.toNat = 0xC0 + cp / 64 by omega)]
      rw [← @eq_trail (trail x) cp (by rw [trail_toNat]; omega)]
      rfl
    · obtain ⟨tail, length, below, rfl, value, least, scalar⟩ := sequence_iff.mp next
      obtain ⟨x, y, rfl⟩ := List.length_eq_two.mp length
      obtain ⟨first, last⟩ := (three_iff b).mp three
      have lastX := below x List.mem_cons_self
      have lastY := below y (List.mem_cons_of_mem _ List.mem_cons_self)
      rw [three_bits] at value
      change cp = (b.toNat % 16 * 64 + x) * 64 + y at value
      refine ⟨scalar, ?_⟩
      rw [utf8_three least (by omega), ← eq_ofNat (show b.toNat = 0xE0 + cp / 4096 by omega)]
      rw [← @eq_trail (trail x) (cp / 64) (by rw [trail_toNat]; omega), ← @eq_trail (trail y) cp (by rw [trail_toNat]; omega)]
      rfl
    · obtain ⟨tail, length, below, rfl, value, least, scalar⟩ := sequence_iff.mp next
      obtain ⟨x, y, z, rfl⟩ := List.length_eq_three.mp length
      obtain ⟨first, last⟩ := (four_iff b).mp four
      have lastX := below x List.mem_cons_self
      have lastY := below y (List.mem_cons_of_mem _ List.mem_cons_self)
      have lastZ := below z (List.mem_cons_of_mem _ (List.mem_cons_of_mem _ List.mem_cons_self))
      rw [four_bits] at value
      change cp = ((b.toNat % 8 * 64 + x) * 64 + y) * 64 + z at value
      refine ⟨scalar, ?_⟩
      rw [utf8_four least, ← eq_ofNat (show b.toNat = 0xF0 + cp / 262144 by omega)]
      rw [← @eq_trail (trail x) (cp / 4096) (by rw [trail_toNat]; omega),
        ← @eq_trail (trail y) (cp / 64) (by rw [trail_toNat]; omega), ← @eq_trail (trail z) cp (by rw [trail_toNat]; omega)]
      rfl

/-- The decoder takes every shortest form. -/
theorem utf8Next_complete {rest : List Byte} {cp : Nat} (scalar : IsScalar cp) :
    utf8Next (utf8 cp ++ rest) = .scalar cp rest := by
  have limit := scalar.1
  rcases (by omega : cp < 0x80 ∨ 0x80 ≤ cp ∧ cp < 0x800 ∨ 0x800 ≤ cp ∧ cp < 0x10000 ∨ 0x10000 ≤ cp) with
    one | ⟨two, most⟩ | ⟨three, most⟩ | four
  · have first : (BitVec.ofNat 8 cp : Byte).toNat = cp := ofNat_toNat (by omega)
    rw [utf8_one one]
    unfold utf8Next
    dsimp only [List.cons_append]
    rw [first, if_pos one]
    rfl
  · have first : (BitVec.ofNat 8 (0xC0 + cp / 64) : Byte).toNat = 0xC0 + cp / 64 := ofNat_toNat (by omega)
    rw [utf8_two two most]
    unfold utf8Next
    dsimp only [List.cons_append]
    rw [if_neg (by omega), if_pos ((two_iff _).mpr (by omega)), two_bits, first]
    refine sequence_iff.mpr ⟨[cp % 64], rfl, ?_, ?_, ?_, two, scalar⟩
    · simp only [List.forall_mem_cons]
      exact ⟨by omega, nofun⟩
    · rw [List.map_singleton, ← @eq_trail (trail cp) (cp % 64) (by rw [trail_toNat]; omega)]
      rfl
    · change cp = (0xC0 + cp / 64) % 32 * 64 + cp % 64
      omega
  · have first : (BitVec.ofNat 8 (0xE0 + cp / 4096) : Byte).toNat = 0xE0 + cp / 4096 := ofNat_toNat (by omega)
    rw [utf8_three three most]
    unfold utf8Next
    dsimp only [List.cons_append]
    rw [if_neg (by omega), if_neg fun bad => absurd ((two_iff _).mp bad).2 (by omega), if_pos ((three_iff _).mpr (by omega)),
      three_bits, first]
    refine sequence_iff.mpr ⟨[cp / 64 % 64, cp % 64], rfl, ?_, ?_, ?_, three, scalar⟩
    · simp only [List.forall_mem_cons]
      exact ⟨by omega, by omega, nofun⟩
    · rw [List.map_cons, List.map_singleton, ← @eq_trail (trail cp) (cp % 64) (by rw [trail_toNat]; omega),
        ← @eq_trail (trail (cp / 64)) (cp / 64 % 64) (by rw [trail_toNat]; omega)]
      rfl
    · change cp = ((0xE0 + cp / 4096) % 16 * 64 + cp / 64 % 64) * 64 + cp % 64
      omega
  · have first : (BitVec.ofNat 8 (0xF0 + cp / 262144) : Byte).toNat = 0xF0 + cp / 262144 := ofNat_toNat (by omega)
    rw [utf8_four four]
    unfold utf8Next
    dsimp only [List.cons_append]
    rw [if_neg (by omega), if_neg fun bad => absurd ((two_iff _).mp bad).2 (by omega),
      if_neg fun bad => absurd ((three_iff _).mp bad).2 (by omega), if_pos ((four_iff _).mpr (by omega)), four_bits, first]
    refine sequence_iff.mpr ⟨[cp / 4096 % 64, cp / 64 % 64, cp % 64], rfl, ?_, ?_, ?_, four, scalar⟩
    · simp only [List.forall_mem_cons]
      exact ⟨by omega, by omega, by omega, nofun⟩
    · rw [List.map_cons, List.map_cons, List.map_singleton, ← @eq_trail (trail cp) (cp % 64) (by rw [trail_toNat]; omega),
        ← @eq_trail (trail (cp / 64)) (cp / 64 % 64) (by rw [trail_toNat]; omega),
        ← @eq_trail (trail (cp / 4096)) (cp / 4096 % 64) (by rw [trail_toNat]; omega)]
      rfl
    · change cp = (((0xF0 + cp / 262144) % 8 * 64 + cp / 4096 % 64) * 64 + cp / 64 % 64) * 64 + cp % 64
      omega

theorem utf8Next_finished : utf8Next s = .finished ↔ s = [] := by
  constructor
  · intro finished
    cases s with
    | nil => rfl
    | cons b s =>
      have never : ∀ need min c, sequence need min c s ≠ .finished := by
        intro need min c done
        unfold sequence at done
        split_ifs at done
        cases taken : continuation need c s with
        | none =>
          rw [taken] at done
          cases done
        | some found =>
          rw [taken] at done
          dsimp only at done
          split_ifs at done
      unfold utf8Next at finished
      dsimp only at finished
      split_ifs at finished
      · exact absurd finished (never _ _ _)
      · exact absurd finished (never _ _ _)
      · exact absurd finished (never _ _ _)
  · rintro rfl
    rfl

end Src32.Libfnd
