import Src32.Lib.Loop
import Src32.Machine.WordCopies

namespace Src32.Fs

open Copies Loop

/-!
# The copies of the file systems

`fs_copy` of `fs2.c`, on the machine or in a little-endian host test.
-/

/-- The locals of `fs_copy`. -/
structure FsCopier where
  ram : Ram
  d : Word
  s : Word
  n : Word
  dw : Word
  sw : Word
  prev : Word

namespace FsCopier

/-- `*d++ = *s++`, with `--n`. -/
def byte (c : FsCopier) : FsCopier := { c with ram := c.ram.copyByte c.d c.s, d := c.d + 1, s := c.s + 1, n := c.n - 1 }

/-- Eight words of the unrolled loop. -/
def eight (little : Bool) (c : FsCopier) : FsCopier :=
  { c with ram := c.ram.copyWords little c.dw c.sw 8, n := c.n - 32, dw := c.dw + 32, sw := c.sw + 32 }

/-- `*dw++ = *sw++`. -/
def word (little : Bool) (c : FsCopier) : FsCopier :=
  { c with ram := c.ram.copyWord little c.dw c.sw, n := c.n - 4, dw := c.dw + 4, sw := c.sw + 4 }

/-- A word composed of the last and the next one. -/
def shifted (little : Bool) (shift : Nat) (c : FsCopier) : FsCopier :=
  let next := c.ram.load little c.sw
  { c with ram := (c.ram.read c.sw).store little c.dw (compose little c.prev next shift), sw := c.sw + 4, dw := c.dw + 4,
           prev := next, n := c.n - 4, s := c.s + 4 }

/-- The branch of equal alignments. -/
def equal (little : Bool) (fuel : Nat) (c : FsCopier) : Option FsCopier :=
  (whileLoop (fun c => decide (c.n ≠ 0 ∧ c.d.toNat % 4 ≠ 0)) byte fuel c).bind fun c =>
    (whileLoop (fun c => decide (32 ≤ c.n.toNat)) (eight little) fuel { c with dw := c.d, sw := c.s }).bind fun c =>
      (whileLoop (fun c => decide (4 ≤ c.n.toNat)) (word little) fuel c).map fun c => { c with d := c.dw, s := c.sw }

/-- The branch of different alignments. -/
def unequal (little : Bool) (fuel : Nat) (c : FsCopier) : Option FsCopier :=
  (whileLoop (fun c => decide (c.d.toNat % 4 ≠ 0)) byte fuel c).bind fun c =>
    let sw := c.s &&& ~~~3#32
    (whileLoop (fun c => decide (4 ≤ c.n.toNat)) (shifted little (8 * (c.s.toNat % 4))) fuel
      { c with ram := c.ram.read sw, dw := c.d, sw := sw + 4, prev := c.ram.load little sw }).map fun c => { c with d := c.dw }

end FsCopier

/-- `fs_copy`. -/
def fsCopy (little : Bool) (fuel : Nat) (dst src n : Word) (ram : Ram) : Option Ram :=
  let c : FsCopier := { ram := ram, d := dst, s := src, n := n, dw := 0, sw := 0, prev := 0 }
  let words :=
    if (dst ^^^ src).toNat % 4 = 0 then c.equal little fuel
    else if 16 ≤ n.toNat then c.unequal little fuel
    else some c
  (words.bind (whileLoop (fun c => decide (c.n ≠ 0)) FsCopier.byte fuel)).map FsCopier.ram

/-! ## Its loops -/

section Loops

variable {m : Memory} {dst src n : Word} {little : Bool} {fuel : Nat} {c : FsCopier}

/-- The bytes that `n` does not count any more are copied, and the pointers are behind them. -/
structure FsCopier.Copies (m : Memory) (dst src n : Word) (c : FsCopier) : Prop where
  progress : Progress m dst src n.toNat (n.toNat - c.n.toNat) c.ram
  d : c.d = dst + (n - c.n)
  s : c.s = src + (n - c.n)
  left : c.n.toNat ≤ n.toNat

/-- The same of the word pointers. -/
structure FsCopier.Words (m : Memory) (dst src n : Word) (c : FsCopier) : Prop where
  progress : Progress m dst src n.toNat (n.toNat - c.n.toNat) c.ram
  dw : c.dw = dst + (n - c.n)
  sw : c.sw = src + (n - c.n)
  left : c.n.toNat ≤ n.toNat
  aligned : 4 ≤ c.n.toNat -> c.sw.toNat % 4 = 0

theorem place_sub {a left : Word} (less : left.toNat ≤ n.toNat) :
    a + (n - left) = a + BitVec.ofNat 32 (n.toNat - left.toNat) := by
  congr 1
  apply BitVec.eq_of_toNat_eq
  rw [BitVec.toNat_sub_of_le less, BitVec.toNat_ofNat]
  omega

theorem count_sub {left : Word} {k : Nat} (more : k ≤ left.toNat) :
    (left - BitVec.ofNat 32 k).toNat = left.toNat - k := by
  bv_omega

theorem place_next (a n left k : Word) : a + (n - left) + k = a + (n - (left - k)) := by grind

theorem FsCopier.Copies.byte (copies : c.Copies m dst src n) (apart : Apart dst src n.toNat) (more : c.n ≠ 0) :
    c.byte.Copies m dst src n ∧ c.byte.n.toNat + 1 = c.n.toNat := by
  have positive : 1 ≤ c.n.toNat := Nat.pos_of_ne_zero fun zero => more (BitVec.eq_of_toNat_eq zero)
  have left := copies.left
  have next := copies.progress.byte apart (by omega)
  have fewer : (c.n - 1).toNat = c.n.toNat - 1 := count_sub positive
  rw [← place_sub left, ← place_sub left, ← copies.d, ← copies.s] at next
  have count : n.toNat - c.byte.n.toNat = n.toNat - c.n.toNat + 1 := by
    rw [show c.byte.n = c.n - 1 from rfl, fewer]
    omega
  refine ⟨⟨count ▸ next, ?_, ?_, ?_⟩, ?_⟩
  · rw [show c.byte.d = c.d + 1 from rfl, copies.d]
    exact place_next ..
  · rw [show c.byte.s = c.s + 1 from rfl, copies.s]
    exact place_next ..
  · rw [show c.byte.n = c.n - 1 from rfl]
    omega
  · rw [show c.byte.n = c.n - 1 from rfl]
    omega

theorem FsCopier.Words.words (words : c.Words m dst src n) (apart : Apart dst src n.toNat) {size : Nat}
    (more : 4 * size ≤ c.n.toNat) (aligned : c.sw.toNat % 4 = 0) {next : FsCopier}
    (ram : next.ram = c.ram.copyWords little c.dw c.sw size)
    (dw : next.dw = c.dw + BitVec.ofNat 32 (4 * size)) (sw : next.sw = c.sw + BitVec.ofNat 32 (4 * size))
    (count : next.n = c.n - BitVec.ofNat 32 (4 * size)) : next.Words m dst src n ∧
      next.n.toNat + 4 * size = c.n.toNat := by
  have left := words.left
  have bound := c.n.isLt
  have fewer : next.n.toNat = c.n.toNat - 4 * size := by
    rw [count, count_sub more]
  have copied := words.progress.eight apart little (n := size) (by omega)
    (by rw [← place_sub left, ← words.sw]; exact aligned)
  rw [← place_sub left, ← place_sub left, ← words.dw, ← words.sw, ← ram,
    show n.toNat - c.n.toNat + 4 * size = n.toNat - next.n.toNat by omega] at copied
  refine ⟨⟨copied, ?_, ?_, by omega, ?_⟩, by omega⟩
  · rw [dw, words.dw, count, place_next]
  · rw [sw, words.sw, count, place_next]
  · intro _
    rw [sw, BitVec.toNat_add, BitVec.toNat_ofNat]
    omega

/-- The same behind a composed word, with the words that the next one is made of. -/
structure FsCopier.Composes (m : Memory) (dst src n : Word) (little : Bool) (o : Nat) (c : FsCopier) : Prop where
  progress : Progress m dst src n.toNat (n.toNat - c.n.toNat) c.ram
  dw : c.dw = dst + (n - c.n)
  s : c.s = src + (n - c.n)
  left : c.n.toNat ≤ n.toNat
  shifted : Shifted m src n.toNat little o (n.toNat - c.n.toNat) c.prev c.sw

theorem FsCopier.Composes.word {o : Nat} (composes : c.Composes m dst src n little o) (apart : Apart dst src n.toNat)
    (more : 4 ≤ c.n.toNat) : (c.shifted little (8 * o)).Composes m dst src n little o ∧
      (c.shifted little (8 * o)).n.toNat + 4 = c.n.toNat := by
  have left := composes.left
  have fewer : (c.shifted little (8 * o)).n.toNat = c.n.toNat - 4 := count_sub more
  obtain ⟨progress, shifted⟩ := composes.progress.shifted apart (by omega) composes.shifted
  rw [← place_sub left, ← composes.dw] at progress
  have count : n.toNat - (c.shifted little (8 * o)).n.toNat = n.toNat - c.n.toNat + 4 := by omega
  refine ⟨⟨count ▸ progress, ?_, ?_, by omega, count ▸ shifted⟩, by omega⟩
  · rw [show (c.shifted little (8 * o)).dw = c.dw + 4 from rfl, composes.dw]
    exact place_next ..
  · rw [show (c.shifted little (8 * o)).s = c.s + 4 from rfl, composes.s]
    exact place_next ..

/-- A loop of bytes. -/
theorem FsCopier.Copies.bytes_ends {test : FsCopier -> Bool} (also : FsCopier -> Prop) (copies : c.Copies m dst src n)
    (apart : Apart dst src n.toNat) (start : also c)
    (keeps : ∀ c : FsCopier, also c -> test c = true -> c.n ≠ 0 ∧ also c.byte) :
    Ends (whileLoop test FsCopier.byte fuel c) (n.toNat ≤ fuel) fun c => c.Copies m dst src n ∧ also c ∧
      test c = false := by
  refine (whileLoop_ends (fun c => c.Copies m dst src n ∧ also c) (fun c => c.n.toNat) ⟨copies, start⟩ ?_ ?_).imp
    fun c ends => ⟨ends.1.1, ends.1.2, ends.2⟩
  · rintro c ⟨copies, holds⟩ goes
    obtain ⟨more, holds⟩ := keeps c holds goes
    obtain ⟨next, less⟩ := copies.byte apart more
    exact ⟨⟨next, holds⟩, fun _ => by omega⟩
  · intro enough
    have left := copies.left
    omega

/-- The branch of equal alignments. -/
theorem FsCopier.Copies.equal_ends (copies : c.Copies m dst src n) (apart : Apart dst src n.toNat)
    (same : dst.toNat % 4 = src.toNat % 4) : Ends (c.equal little fuel)
    (n.toNat ≤ fuel) fun c => c.Copies m dst src n := by
  refine (copies.bytes_ends (fun _ => True) apart trivial fun c _ goes =>
    ⟨(of_decide_eq_true goes).1, trivial⟩).bind fun c head => ?_
  obtain ⟨copies, -, stops⟩ := head
  have aligned : 4 ≤ c.n.toNat -> c.s.toNat % 4 = 0 := by
    intro more
    have zero : ¬ (c.n ≠ 0 ∧ c.d.toNat % 4 ≠ 0) := of_decide_eq_false stops
    have some_ : c.n ≠ 0 := by
      rintro none
      rw [none] at more
      exact absurd more (by decide)
    have place : c.d.toNat % 4 = 0 := by
      by_contra odd
      exact zero ⟨some_, odd⟩
    rw [copies.d, BitVec.toNat_add] at place
    rw [copies.s, BitVec.toNat_add]
    omega
  have words : ({ c with dw := c.d, sw := c.s } : FsCopier).Words m dst src n :=
    ⟨copies.progress, copies.d, copies.s, copies.left, aligned⟩
  have ends (size : Nat) (positive : 0 < size) {c : FsCopier} (words : c.Words m dst src n) (body : FsCopier -> FsCopier)
      (steps : ∀ c : FsCopier, (body c).ram = c.ram.copyWords little c.dw c.sw size ∧ (body c).dw = c.dw + BitVec.ofNat 32 (4 * size) ∧
        (body c).sw = c.sw + BitVec.ofNat 32 (4 * size) ∧ (body c).n = c.n - BitVec.ofNat 32 (4 * size)) :
      Ends (whileLoop (fun c => decide (4 * size ≤ c.n.toNat)) body fuel c)
        (n.toNat ≤ fuel) fun c => c.Words m dst src n := by
    refine (whileLoop_ends (fun c => c.Words m dst src n) (fun c => c.n.toNat) words ?_ ?_).imp fun c ends => ends.1
    · intro c words goes
      have more : 4 * size ≤ c.n.toNat := of_decide_eq_true goes
      obtain ⟨ram, dw, sw, count⟩ := steps c
      obtain ⟨next, less⟩ := words.words apart more (words.aligned (by omega)) ram dw sw count
      exact ⟨next, fun _ => by omega⟩
    · intro enough
      have left := words.left
      omega
  refine (ends 8 (by decide) words (FsCopier.eight little) fun c => ⟨rfl, rfl, rfl, rfl⟩).bind fun c words => ?_
  have last := ends 1 (by decide) words (FsCopier.word little) fun c =>
    ⟨by simp [FsCopier.word, Ram.copyWords], rfl, rfl, rfl⟩
  rw [Option.map_eq_bind]
  exact last.bind fun c words => Ends.pure ⟨words.progress, words.dw, words.sw, words.left⟩

/-- The branch of different alignments. -/
theorem FsCopier.Copies.unequal_ends (copies : c.Copies m dst src n) (apart : Apart dst src n.toNat) (whole : c.n = n)
    (wide : 16 ≤ n.toNat) (other : dst.toNat % 4 ≠ src.toNat % 4) :
    Ends (c.unequal little fuel) (n.toNat ≤ fuel) fun c => c.Copies m dst src n := by
  refine (copies.bytes_ends (fun c => 13 + (4 - c.d.toNat % 4) % 4 ≤ c.n.toNat) apart (by rw [whole]; omega) ?_).bind
    fun c head => ?_
  · intro c far goes
    have odd : c.d.toNat % 4 ≠ 0 := of_decide_eq_true goes
    have next : (c.d + 1).toNat % 4 = (c.d.toNat + 1) % 4 := by
      rw [BitVec.toNat_add]
      exact Nat.mod_mod_of_dvd _ (by decide)
    have positive : 1 ≤ c.n.toNat := by omega
    have fewer : (c.n - 1).toNat = c.n.toNat - 1 := count_sub positive
    refine ⟨?_, ?_⟩
    · rintro none
      rw [none] at far
      exact absurd far (by simp)
    · rw [show c.byte.d = c.d + 1 from rfl, show c.byte.n = c.n - 1 from rfl, next, fewer]
      omega
  · obtain ⟨copies, far, stops⟩ := head
    have even : ¬ c.d.toNat % 4 ≠ 0 := of_decide_eq_false stops
    have left := copies.left
    have odd : 0 < c.s.toNat % 4 := by
      rw [copies.d, BitVec.toNat_add] at even
      rw [copies.s, BitVec.toNat_add]
      omega
    have first := copies.progress.first apart little (by omega) (o := c.s.toNat % 4)
      (by rw [← place_sub left, ← copies.s]) odd rfl
    rw [← place_sub left, ← copies.s] at first
    rw [Option.map_eq_bind]
    refine (whileLoop_ends (fun t => t.Composes m dst src n little (c.s.toNat % 4)) (fun t => t.n.toNat)
      ⟨first.1, copies.d, copies.s, left, first.2⟩ ?_ ?_).bind fun t ends => Ends.pure ?_
    · intro t composes goes
      obtain ⟨next, less⟩ := composes.word apart (of_decide_eq_true goes)
      exact ⟨next, fun _ => by omega⟩
    · intro enough
      exact Nat.le_trans left enough
    · obtain ⟨composes, -⟩ := ends
      exact ⟨composes.progress, composes.dw, composes.s, composes.left⟩

/-- `fs_copy` copies, and every word it reads has a byte of the source in it. -/
theorem fsCopy_ends (apart : Apart dst src n.toNat) (m : Memory) :
    Ends (fsCopy little fuel dst src n { memory := m, words := [] })
    (n.toNat ≤ fuel) (Progress m dst src n.toNat n.toNat) := by
  have start : ({ ram := { memory := m, words := [] }, d := dst, s := src, n := n, dw := 0, sw := 0, prev := 0 } : FsCopier).Copies m dst src n := by
    refine ⟨?_, ?_, ?_, Nat.le_refl _⟩
    · dsimp only
      rw [Nat.sub_self]
      exact Progress.start (by simp)
    · simp
    · simp
  unfold fsCopy
  dsimp only
  rw [Option.map_eq_bind]
  refine Ends.bind (Ends.bind (?_ : Ends _ _ fun c : FsCopier => c.Copies m dst src n) fun c copies => copies.bytes_ends (fun _ => True) apart trivial
    fun c _ goes => ⟨of_decide_eq_true goes, trivial⟩) fun c ends => Ends.pure ?_
  · split
    · rename_i same
      exact start.equal_ends apart ((xor_aligned dst src).mp same)
    · rename_i other
      split
      · rename_i wide
        exact start.unequal_ends apart rfl wide fun same => other ((xor_aligned dst src).mpr same)
      · exact Ends.pure start
  · obtain ⟨copies, -, stops⟩ := ends
    have none : ¬ c.n ≠ 0 := of_decide_eq_false stops
    have progress := copies.progress
    rw [Classical.not_not.mp none] at progress
    exact progress

end Loops
end Src32.Fs
