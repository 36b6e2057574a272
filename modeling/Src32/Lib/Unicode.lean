import Src32.Machine.Word

namespace Src32.Unicode

open BitVec (ofNat)

/-!
# Unicode encoding forms

The forms of a scalar value in UTF-8, UTF-16 and UTF-32, and how any bytes are parsed
in one: whole forms, maximal subparts of what is ill formed, and a tail that is cut
off.
-/

/-- A code point that is no surrogate. -/
def IsScalar (c : Nat) : Prop := c ≤ 0x10FFFF ∧ ¬(0xD800 ≤ c ∧ c ≤ 0xDFFF)

instance (c : Nat) : Decidable (IsScalar c) := inferInstanceAs (Decidable (_ ∧ _))

/-- A byte behind the first one of a form. -/
def trail (n : Nat) : Byte := ofNat 8 (0x80 + n % 64)

def utf8 (c : Nat) : List Byte :=
  if c < 0x80 then [ofNat 8 c]
  else if c < 0x800 then [ofNat 8 (0xC0 + c / 64), trail c]
  else if c < 0x10000 then [ofNat 8 (0xE0 + c / 4096), trail (c / 64), trail c]
  else [ofNat 8 (0xF0 + c / 262144), trail (c / 4096), trail (c / 64), trail c]

theorem trail_toNat (n : Nat) : (trail n).toNat = 0x80 + n % 64 := by
  unfold trail
  rw [BitVec.toNat_ofNat]
  omega

theorem ofNat_toNat {n : Nat} (small : n < 256) : (ofNat 8 n : Byte).toNat = n := by
  rw [BitVec.toNat_ofNat]
  omega

theorem eq_ofNat {b : Byte} {n : Nat} (same : b.toNat = n) : b = ofNat 8 n := by
  rw [← same, BitVec.ofNat_toNat, BitVec.setWidth_eq]

theorem eq_trail {b : Byte} {n : Nat} (same : b.toNat = 0x80 + n % 64) : b = trail n := eq_ofNat same

variable {c : Nat}

theorem utf8_one (small : c < 0x80) : utf8 c = [ofNat 8 c] := if_pos small

theorem utf8_two (least : 0x80 ≤ c) (small : c < 0x800) : utf8 c = [ofNat 8 (0xC0 + c / 64), trail c] := by
  unfold utf8
  rw [if_neg (by omega), if_pos small]

theorem utf8_three (least : 0x800 ≤ c) (small : c < 0x10000) :
    utf8 c = [ofNat 8 (0xE0 + c / 4096), trail (c / 64), trail c] := by
  unfold utf8
  rw [if_neg (by omega), if_neg (by omega), if_pos small]

theorem utf8_four (least : 0x10000 ≤ c) :
    utf8 c = [ofNat 8 (0xF0 + c / 262144), trail (c / 4096), trail (c / 64), trail c] := by
  unfold utf8
  rw [if_neg (by omega), if_neg (by omega), if_neg (by omega)]

theorem utf8_ne_nil (c : Nat) : utf8 c ≠ [] := by
  unfold utf8
  split_ifs <;> exact List.cons_ne_nil _ _

/-- The first byte tells how long a form is and whether it is ASCII. -/
theorem utf8_ascii (scalar : IsScalar c) {b : Byte} {rest more : List Byte} (same : b :: rest = utf8 c ++ more)
    (ascii : b.toNat < 0x80) : c = b.toNat ∧ rest = more := by
  have limit := scalar.1
  rcases (by omega : c < 0x80 ∨ 0x80 ≤ c ∧ c < 0x800 ∨ 0x800 ≤ c ∧ c < 0x10000 ∨ 0x10000 ≤ c) with
    one | ⟨two, most⟩ | ⟨three, most⟩ | four
  · rw [utf8_one one] at same
    obtain ⟨head, tail⟩ := List.cons.inj same
    rw [head, ofNat_toNat (by omega)]
    exact ⟨rfl, tail⟩
  · rw [utf8_two two most] at same
    rw [(List.cons.inj same).1, ofNat_toNat (by omega)] at ascii
    omega
  · rw [utf8_three three most] at same
    rw [(List.cons.inj same).1, ofNat_toNat (by omega)] at ascii
    omega
  · rw [utf8_four four] at same
    rw [(List.cons.inj same).1, ofNat_toNat (by omega)] at ascii
    omega

/-! ## The other forms -/

/-- Two bytes of a code unit. -/
def unit16 (big : Bool) (u : Nat) : List Byte :=
  if big then [ofNat 8 (u / 256), ofNat 8 u] else [ofNat 8 u, ofNat 8 (u / 256)]

def utf16 (big : Bool) (c : Nat) : List Byte :=
  if c < 0x10000 then unit16 big c
  else unit16 big (0xD800 + (c - 0x10000) / 1024) ++ unit16 big (0xDC00 + (c - 0x10000) % 1024)

def utf32 (big : Bool) (c : Nat) : List Byte :=
  if big then [ofNat 8 (c / 2 ^ 24), ofNat 8 (c / 2 ^ 16), ofNat 8 (c / 2 ^ 8), ofNat 8 c]
  else [ofNat 8 c, ofNat 8 (c / 2 ^ 8), ofNat 8 (c / 2 ^ 16), ofNat 8 (c / 2 ^ 24)]

inductive Form where
  | utf8
  | utf16 (big : Bool)
  | utf32 (big : Bool)

namespace Form

variable (f : Form)

/-- The form of a scalar value. -/
def encode (c : Nat) : List Byte :=
  match f with
  | .utf8 => Unicode.utf8 c
  | .utf16 big => Unicode.utf16 big c
  | .utf32 big => Unicode.utf32 big c

/-- The bytes of a code unit. -/
def unit : Nat :=
  match f with
  | .utf8 => 1
  | .utf16 _ => 2
  | .utf32 _ => 4

/-- A form begins so, and goes on. -/
def Begins (part : List Byte) : Prop := ∃ c tail, IsScalar c ∧ tail ≠ [] ∧ f.encode c = part ++ tail

/-- No form is at the front. -/
def IllFormed (bytes : List Byte) : Prop := ∀ c, IsScalar c -> ¬f.encode c <+: bytes

/-- The whole code units of what is left could go on to a form. -/
def Truncated (bytes : List Byte) : Prop := f.Begins (bytes.take (bytes.length / f.unit * f.unit))

/-- The longest part in front that begins a form, or a single code unit. -/
structure MaximalSubpart (part bytes : List Byte) : Prop where
  front : part <+: bytes
  some_ : part ≠ []
  units : f.unit ∣ part.length
  subpart : part.length = f.unit ∨ f.Begins part
  longest : ∀ longer, longer <+: bytes -> f.unit ∣ longer.length -> part.length < longer.length -> ¬f.Begins longer

/-- Bytes as scalar values; nothing stands for an ill-formed part. -/
inductive Parses : List Byte -> List (Option Nat) -> Prop where
  | finished : Parses [] []
  | scalar {c : Nat} {rest : List Byte} {items : List (Option Nat)} (scalar : IsScalar c) (parses : Parses rest items) :
      Parses (f.encode c ++ rest) (some c :: items)
  | truncated {bytes : List Byte} (some_ : bytes ≠ []) (bad : f.IllFormed bytes) (cut : f.Truncated bytes) :
      Parses bytes [none]
  | subpart {part rest : List Byte} {items : List (Option Nat)} (bad : f.IllFormed (part ++ rest))
      (whole : ¬f.Truncated (part ++ rest)) (maximal : f.MaximalSubpart part (part ++ rest)) (parses : Parses rest items) :
      Parses (part ++ rest) (none :: items)

/-- The bytes of a text. -/
def text (cps : List Nat) : List Byte := cps.flatMap f.encode

/-- The forms of scalar values in a row. -/
def WellFormed (bytes : List Byte) : Prop := ∃ cps : List Nat, (∀ c ∈ cps, IsScalar c) ∧ bytes = f.text cps

theorem unit_pos : 0 < f.unit := by
  cases f <;> exact Nat.succ_pos _

variable {bytes : List Byte} {items : List (Option Nat)}

/-- There is one maximal subpart. -/
theorem MaximalSubpart.unique {part other : List Byte} (first : f.MaximalSubpart part bytes)
    (second : f.MaximalSubpart other bytes) : part = other := by
  -- The shorter of two is a unit at least, and the longer one begins a form.
  have never : ∀ {short long : List Byte}, f.MaximalSubpart short bytes -> f.MaximalSubpart long bytes ->
      ¬short.length < long.length := by
    intro short long shorter longer less
    have least := Nat.le_of_dvd (List.length_pos_of_ne_nil shorter.some_) shorter.units
    rcases longer.subpart with unit | begins
    · omega
    · exact shorter.longest long longer.front longer.units less begins
  have length : part.length = other.length :=
    Nat.le_antisymm (Nat.not_lt.mp (never second first)) (Nat.not_lt.mp (never first second))
  exact (List.prefix_of_prefix_length_le first.front second.front (Nat.le_of_eq length)).eq_of_length length

theorem encode_ne_nil (c : Nat) : f.encode c ≠ [] := by
  cases f with
  | utf8 => exact utf8_ne_nil c
  | utf16 big =>
    change Unicode.utf16 big c ≠ []
    unfold Unicode.utf16
    cases big <;> split_ifs <;> exact List.cons_ne_nil _ _
  | utf32 big => cases big <;> exact List.cons_ne_nil _ _

variable {f}

theorem Parses.of_nil (parses : f.Parses bytes items) (empty : bytes = []) :
    items = [] := by
  cases parses with
  | finished => rfl
  | @scalar c _ _ _ _ => exact absurd (List.append_eq_nil_iff.mp empty).1 (f.encode_ne_nil c)
  | truncated some_ _ _ => exact absurd empty some_
  | subpart _ _ maximal _ => exact absurd (List.append_eq_nil_iff.mp empty).1 maximal.some_

/-- A parse gives scalar values. -/
theorem Parses.isScalar (parses : f.Parses bytes items) {c : Nat} (found : some c ∈ items) : IsScalar c := by
  induction parses with
  | finished => exact absurd found List.not_mem_nil
  | scalar here _ ih =>
    rcases List.mem_cons.mp found with same | later
    · cases same
      exact here
    · exact ih later
  | truncated _ _ _ => exact absurd (List.mem_singleton.mp found) (Option.some_ne_none c)
  | subpart _ _ _ _ ih =>
    rcases List.mem_cons.mp found with same | later
    · exact absurd same (Option.some_ne_none c)
    · exact ih later

/-- Without a part in error it is a text. -/
theorem Parses.wellFormed (parses : f.Parses bytes items) (good : none ∉ items) : f.WellFormed bytes := by
  induction parses with
  | finished => exact ⟨[], fun _ inside => absurd inside List.not_mem_nil, rfl⟩
  | @scalar c rest items here _ ih =>
    obtain ⟨cps, scalars, same⟩ := ih fun later => good (List.mem_cons_of_mem _ later)
    refine ⟨c :: cps, ?_, ?_⟩
    · intro d inside
      rcases List.mem_cons.mp inside with rfl | later
      · exact here
      · exact scalars d later
    · rw [same, text, text, List.flatMap_cons]
  | truncated _ _ _ | subpart _ _ _ _ _ => exact absurd List.mem_cons_self good

theorem parses_text {cps : List Nat} (scalars : ∀ c ∈ cps, IsScalar c) : f.Parses (f.text cps) (cps.map some) := by
  induction cps with
  | nil => exact .finished
  | cons c cps ih =>
    rw [show f.text (c :: cps) = f.encode c ++ f.text cps from List.flatMap_cons]
    exact .scalar (scalars c List.mem_cons_self) (ih fun d later => scalars d (List.mem_cons_of_mem c later))

end Form

end Src32.Unicode
