import Src32.Lib.Loop
import Src32.Machine.WordCopies

namespace Src32.Kernel.Copy

open Copies Loop

/-!
# Copies of the kernel

The CPU path of `kmem_copy` of `mm.c`.  The machine is big-endian.
-/

/-- The locals of `kmem_copy`. -/
structure Copier where
  ram : Ram
  at_ : Word
  dw : Word
  sw : Word
  prev : Word

namespace Copier

/-- `d[at] = s[at]`, with `++at`. -/
def byte (dst src : Word) (c : Copier) : Copier :=
  { c with ram := c.ram.copyByte (dst + c.at_) (src + c.at_), at_ := c.at_ + 1 }

/-- Eight words of the unrolled loop. -/
def eight (c : Copier) : Copier :=
  { c with ram := c.ram.copyWords false c.dw c.sw 8, at_ := c.at_ + 32, dw := c.dw + 32, sw := c.sw + 32 }

/-- `*dw++ = *sw++`. -/
def word (c : Copier) : Copier :=
  { c with ram := c.ram.copyWord false c.dw c.sw, at_ := c.at_ + 4, dw := c.dw + 4, sw := c.sw + 4 }

/-- A word composed of the last and the next one. -/
def shifted (shift : Nat) (c : Copier) : Copier :=
  let next := c.ram.load false c.sw
  { c with ram := (c.ram.read c.sw).store false c.dw (compose false c.prev next shift), at_ := c.at_ + 4, dw := c.dw + 4,
           sw := c.sw + 4, prev := next }

/-- The copy by words behind the aligned destination. -/
def words (fuel : Nat) (dst src len : Word) (c : Copier) : Option Copier :=
  let shift := 8 * ((src + c.at_).toNat % 4)
  let four (c : Copier) : Bool := (c.at_ + 4).toNat ≤ len.toNat
  if shift = 0 then
    (whileLoop (fun c => decide ((c.at_ + 32).toNat ≤ len.toNat)) eight fuel { c with dw := dst + c.at_, sw := src + c.at_ }).bind
      (whileLoop four word fuel)
  else
    let sw := (src + c.at_) &&& ~~~3#32
    whileLoop four (shifted shift) fuel
      { c with ram := c.ram.read sw, dw := dst + c.at_, sw := sw + 4, prev := c.ram.load false sw }

end Copier

/-- The CPU path of `kmem_copy`. -/
def kmemCopyCpu (fuel : Nat) (dst src len : Word) (ram : Ram) : Option Ram :=
  let c : Copier := { ram := ram, at_ := 0, dw := 0, sw := 0, prev := 0 }
  let words :=
    if 16 ≤ len.toNat then
      (whileLoop (fun c => decide ((dst + c.at_).toNat % 4 ≠ 0)) (Copier.byte dst src) fuel c).bind
        (Copier.words fuel dst src len)
    else some c
  (words.bind (whileLoop (fun c => decide (c.at_.toNat < len.toNat)) (Copier.byte dst src) fuel)).map Copier.ram

section Loops

variable {m : Memory} {dst src len : Word} {fuel : Nat} {c : Copier} {total : Prop}

/-- The bytes below `at` are copied. -/
abbrev Copier.Copies (m : Memory) (dst src len : Word) (c : Copier) : Prop :=
  Progress m dst src len.toNat c.at_.toNat c.ram

/-- The word pointers are at `at`. -/
structure Copier.Words (m : Memory) (dst src len : Word) (c : Copier) : Prop where
  progress : Progress m dst src len.toNat c.at_.toNat c.ram
  dw : c.dw = dst + c.at_
  sw : c.sw = src + c.at_
  aligned : (src + c.at_).toNat % 4 = 0

/-- The next composed word is made of `prev` and the word at `sw`. -/
structure Copier.Composes (m : Memory) (dst src len : Word) (o : Nat) (c : Copier) : Prop where
  progress : Progress m dst src len.toNat c.at_.toNat c.ram
  dw : c.dw = dst + c.at_
  shifted : Shifted m src len.toNat false o c.at_.toNat c.prev c.sw

theorem place_at (a at_ : Word) : a + at_ = a + BitVec.ofNat 32 at_.toNat := by
  rw [BitVec.ofNat_toNat, BitVec.setWidth_eq]

/-- An index in the range moves without a wrap. -/
theorem at_add {at_ : Word} (bound : at_.toNat ≤ len.toNat) (half : 2 * len.toNat ≤ 2 ^ 32) {k : Nat} (small : k ≤ 32) :
    (at_ + BitVec.ofNat 32 k).toNat = at_.toNat + k := by
  rw [BitVec.toNat_add, BitVec.toNat_ofNat]
  omega

theorem Copier.Copies.byte (copies : c.Copies m dst src len) (apart : Apart dst src len.toNat)
    (more : c.at_.toNat < len.toNat) :
    (c.byte dst src).Copies m dst src len ∧ (c.byte dst src).at_.toNat = c.at_.toNat + 1 := by
  have next := Progress.byte copies apart more
  have index : (c.byte dst src).at_.toNat = c.at_.toNat + 1 := at_add (Nat.le_of_lt more) apart.short (by decide)
  rw [← place_at, ← place_at, ← index] at next
  exact ⟨next, index⟩

/-- A loop of bytes. -/
theorem Copier.bytes_ends {test : Copier -> Bool} (also : Copier -> Prop) (copies : c.Copies m dst src len)
    (apart : Apart dst src len.toNat) (start : also c)
    (keeps : ∀ c : Copier, also c -> test c = true -> c.at_.toNat < len.toNat ∧
      ((c.byte dst src).at_.toNat = c.at_.toNat + 1 -> also (c.byte dst src))) (enough : total -> len.toNat ≤ fuel) :
    Ends (whileLoop test (Copier.byte dst src) fuel c) total fun c => c.Copies m dst src len ∧ also c ∧
      test c = false := by
  refine (whileLoop_ends (fun c => c.Copies m dst src len ∧ also c) (fun c => len.toNat - c.at_.toNat) ⟨copies, start⟩ ?_ ?_).imp
    fun c ends => ⟨ends.1.1, ends.1.2, ends.2⟩
  · rintro c ⟨copies, holds⟩ goes
    obtain ⟨more, holds⟩ := keeps c holds goes
    obtain ⟨next, index⟩ := Copier.Copies.byte copies apart more
    exact ⟨⟨next, holds index⟩, fun _ => by omega⟩
  · intro assumed
    have covered := enough assumed
    omega

theorem Copier.Words.words_ends (words : c.Words m dst src len) (apart : Apart dst src len.toNat) {size : Nat}
    (positive : 0 < size)
    (small : size ≤ 8) (body : Copier -> Copier)
    (steps : ∀ c : Copier, (body c).ram = c.ram.copyWords false c.dw c.sw size ∧ (body c).at_ = c.at_ + BitVec.ofNat 32 (4 * size) ∧
      (body c).dw = c.dw + BitVec.ofNat 32 (4 * size) ∧ (body c).sw = c.sw + BitVec.ofNat 32 (4 * size))
    (enough : total -> len.toNat ≤ fuel) :
    Ends (whileLoop (fun c => decide ((c.at_ + BitVec.ofNat 32 (4 * size)).toNat ≤ len.toNat)) body fuel c) total
      fun c => c.Words m dst src len := by
  refine (whileLoop_ends (fun c => c.Words m dst src len) (fun c => len.toNat - c.at_.toNat) words ?_ ?_).imp fun c ends => ends.1
  · intro c words goes
    obtain ⟨ram, at_, dw, sw⟩ := steps c
    have index := at_add words.progress.bound apart.short (show 4 * size ≤ 32 by omega)
    have more : (c.at_ + BitVec.ofNat 32 (4 * size)).toNat ≤ len.toNat := of_decide_eq_true goes
    have aligned := words.aligned
    have next := words.progress.eight apart false (n := size) (by omega) (by rw [← place_at]; exact aligned)
    rw [← place_at, ← place_at, ← words.dw, ← words.sw, ← ram, ← index, ← at_] at next
    refine ⟨⟨next, ?_, ?_, ?_⟩, fun _ => by rw [at_]; omega⟩
    · rw [dw, words.dw, at_, BitVec.add_assoc]
    · rw [sw, words.sw, at_, BitVec.add_assoc]
    · rw [at_, ← BitVec.add_assoc, BitVec.toNat_add, BitVec.toNat_ofNat]
      omega
  · intro assumed
    have covered := enough assumed
    omega

theorem Copier.Composes.word {o : Nat} (composes : c.Composes m dst src len o) (apart : Apart dst src len.toNat)
    (more : c.at_.toNat + 4 ≤ len.toNat) : (c.shifted (8 * o)).Composes m dst src len o ∧
      (c.shifted (8 * o)).at_.toNat = c.at_.toNat + 4 := by
  have index : (c.shifted (8 * o)).at_.toNat = c.at_.toNat + 4 := at_add composes.progress.bound apart.short (by decide)
  obtain ⟨progress, shifted⟩ := composes.progress.shifted apart more composes.shifted
  rw [← place_at, ← composes.dw, ← index] at progress
  rw [← index] at shifted
  refine ⟨⟨progress, ?_, shifted⟩, index⟩
  rw [show (c.shifted (8 * o)).dw = c.dw + 4 from rfl, composes.dw, BitVec.add_assoc]
  rfl

/-- The copy by words. -/
theorem Copier.words_ends (copies : c.Copies m dst src len) (apart : Apart dst src len.toNat)
    (more : c.at_.toNat < len.toNat)
    (enough : total -> len.toNat ≤ fuel) : Ends (c.words fuel dst src len) total fun c => c.Copies m dst src len := by
  unfold Copier.words
  dsimp only
  split
  · rename_i even
    have words : ({ c with dw := dst + c.at_, sw := src + c.at_ } : Copier).Words m dst src len :=
      ⟨copies, rfl, rfl, by dsimp only; omega⟩
    refine (words.words_ends apart (show 0 < 8 by decide) (by decide) Copier.eight (fun c => ⟨rfl, rfl, rfl, rfl⟩) enough).bind
      fun c words => ?_
    exact (words.words_ends apart (show 0 < 1 by decide) (by decide) Copier.word
      (fun c => ⟨by simp [Copier.word, Ram.copyWords], rfl, rfl, rfl⟩) enough).imp fun c words => words.progress
  · rename_i odd
    have first := copies.first apart false more (o := (src + c.at_).toNat % 4) (by rw [← place_at]) (by omega)
      (a := (src + c.at_) &&& ~~~3#32) (by rw [← place_at])
    refine (whileLoop_ends (fun t => t.Composes m dst src len ((src + c.at_).toNat % 4)) (fun t => len.toNat - t.at_.toNat)
      ⟨first.1, rfl, first.2⟩ ?_ ?_).imp fun t ends => ends.1.progress
    · intro t composes goes
      have index : (t.at_ + 4).toNat = t.at_.toNat + 4 := at_add composes.progress.bound apart.short (by decide)
      have inside : (t.at_ + 4).toNat ≤ len.toNat := of_decide_eq_true goes
      obtain ⟨next, less⟩ := composes.word apart (by omega)
      exact ⟨next, fun _ => by omega⟩
    · intro assumed
      have covered := enough assumed
      dsimp only
      omega

/-- The CPU path copies, from whatever an earlier try left of the destination. -/
theorem kmemCopyCpu_ends (apart : Apart dst src len.toNat) {k : Nat} {ram : Ram}
    (progress : Progress m dst src len.toNat k ram)
    (enough : total -> len.toNat ≤ fuel) : Ends (kmemCopyCpu fuel dst src len ram) total
      (Progress m dst src len.toNat len.toNat) := by
  have start : ({ ram := ram, at_ := 0, dw := 0, sw := 0, prev := 0 } : Copier).Copies ram.memory dst src len :=
    ⟨Nat.zero_le _, rfl, progress.words⟩
  unfold kmemCopyCpu
  dsimp only
  rw [Option.map_eq_bind]
  refine Ends.bind (Ends.bind (?_ : Ends _ _ fun c : Copier => c.Copies ram.memory dst src len) fun c copies =>
    Copier.bytes_ends (fun _ => True) copies apart trivial (fun c _ goes => ⟨of_decide_eq_true goes, fun _ => trivial⟩) enough)
    fun c ends => Ends.pure ?_
  · split
    · rename_i wide
      -- Three bytes at most lead to an aligned destination.
      refine (Copier.bytes_ends (fun c => c.at_.toNat + (4 - (dst + c.at_).toNat % 4) % 4 ≤ 3) start apart ?_ ?_ enough).bind
        fun c head => ?_
      · rw [show (0 : Word).toNat = 0 from rfl]
        omega
      · intro c few goes
        have odd : (dst + c.at_).toNat % 4 ≠ 0 := of_decide_eq_true goes
        refine ⟨by omega, fun index => ?_⟩
        have next : (dst + (c.byte dst src).at_).toNat % 4 = ((dst + c.at_).toNat + 1) % 4 := by
          rw [show (c.byte dst src).at_ = c.at_ + 1 from rfl, ← BitVec.add_assoc, BitVec.toNat_add]
          exact Nat.mod_mod_of_dvd _ (by decide)
        omega
      · obtain ⟨copies, few, -⟩ := head
        exact Copier.words_ends copies apart (by omega) enough
    · exact Ends.pure start
  · obtain ⟨copies, -, stops⟩ := ends
    have bound := copies.bound
    have last : c.at_.toNat = len.toNat := by
      have stop : ¬ c.at_.toNat < len.toNat := of_decide_eq_false stops
      omega
    refine ⟨Nat.le_refl _, ?_, copies.words⟩
    rw [copies.memory, last, progress.memory, copied_copied apart progress.bound]

end Loops
end Src32.Kernel.Copy
