import Src32.Machine.Bytes
import Mathlib.Tactic.IntervalCases

namespace Src32.Copies

open BitVec (ofNat toNat_add)

/-!
# Copies by words

The memory as the C code sees it: bytes, and words that are read and written whole.  A
copy goes forward, so what it has done is the copy of the first bytes; a byte, a word and
a word composed of two each take it on.
-/

abbrev Memory := Word -> Byte

/-- The memory, and the words that were read. -/
structure Ram where
  memory : Memory
  words : List Word

/-- Byte `i` of a word in memory. -/
def byteAt (little : Bool) (value : Word) (i : Nat) : Byte :=
  (value >>> if little = true then 8 * i else 8 * (3 - i)).setWidth 8

namespace Ram

/-- `*d = *s` of bytes. -/
def copyByte (r : Ram) (d s : Word) : Ram := { r with memory := Function.update r.memory d (r.memory s) }

/-- The word at an address. -/
def load (little : Bool) (r : Ram) (a : Word) : Word :=
  if little = true then Word.ofBytes (r.memory (a + 3)) (r.memory (a + 2)) (r.memory (a + 1)) (r.memory a)
  else Word.ofBytes (r.memory a) (r.memory (a + 1)) (r.memory (a + 2)) (r.memory (a + 3))

/-- The word at an address is read. -/
def read (r : Ram) (a : Word) : Ram := { r with words := a :: r.words }

def store (little : Bool) (r : Ram) (a value : Word) : Ram :=
  { r with memory := fun b => if (b - a).toNat < 4 then byteAt little value (b - a).toNat else r.memory b }

/-- `*dw = *sw` of words. -/
def copyWord (little : Bool) (r : Ram) (dw sw : Word) : Ram := (r.read sw).store little dw (r.load little sw)

/-- `dw[0] = sw[0], …` of so many words. -/
def copyWords (little : Bool) (r : Ram) (dw sw : Word) (n : Nat) : Ram :=
  (List.range n).foldl (fun r i => r.copyWord little (dw + ofNat 32 (4 * i)) (sw + ofNat 32 (4 * i))) r

end Ram

/-- The word between two words. -/
def compose (little : Bool) (prev next : Word) (shift : Nat) : Word :=
  if little = true then prev >>> shift ||| next <<< (32 - shift) else prev <<< shift ||| next >>> (32 - shift)

/-! ## Bytes of words -/

theorem byteAt_load {little : Bool} {r : Ram} {a : Word} {i : Nat} (inside : i < 4) :
    byteAt little (r.load little a) i = r.memory (a + ofNat 32 i) := by
  obtain ⟨first, second, third, last⟩ :=
    Word.byte_ofBytes (r.memory a) (r.memory (a + 1)) (r.memory (a + 2)) (r.memory (a + 3))
  obtain ⟨first', second', third', last'⟩ :=
    Word.byte_ofBytes (r.memory (a + 3)) (r.memory (a + 2)) (r.memory (a + 1)) (r.memory a)
  have zero (x : Word) : x >>> 0 = x := BitVec.ushiftRight_zero x
  cases little <;> interval_cases i <;> simp_all [byteAt, Ram.load]

/-- A composed word has the last bytes of the one and the first of the other. -/
theorem byteAt_compose {little : Bool} {prev next : Word} {o i : Nat} (positive : 0 < o) (small : o < 4)
    (inside : i < 4) :
    byteAt little (compose little prev next (8 * o)) i =
      if i + o < 4 then byteAt little prev (i + o) else byteAt little next (i + o - 4) := by
  apply BitVec.eq_of_getLsbD_eq
  intro j bound
  unfold byteAt compose
  cases little <;> interval_cases o <;> interval_cases i <;>
    simp [BitVec.getLsbD_setWidth, BitVec.getLsbD_ushiftRight, BitVec.getLsbD_or, BitVec.getLsbD_shiftLeft] <;> grind

/-- Addresses of one alignment. -/
theorem xor_aligned (x y : Word) : (x ^^^ y).toNat % 4 = 0 ↔ x.toNat % 4 = y.toNat % 4 := by
  have first : x.toNat % 4 < 4 := Nat.mod_lt _ (by decide)
  have second : y.toNat % 4 < 4 := Nat.mod_lt _ (by decide)
  rw [BitVec.toNat_xor, show 4 = 2 ^ 2 by decide, Nat.xor_mod_two_pow]
  generalize x.toNat % 2 ^ 2 = a at first ⊢
  generalize y.toNat % 2 ^ 2 = b at second ⊢
  interval_cases a <;> interval_cases b <;> decide

/-! ## Forward copies -/

/-- The memory behind the copy of the first bytes. -/
def copied (m : Memory) (dst src : Word) (k : Nat) : Memory :=
  fun a => if (a - dst).toNat < k then m (src + (a - dst)) else m a

/-- The ranges are disjoint. -/
def Apart (dst src : Word) (len : Nat) : Prop := ∀ i j, i < len -> j < len -> dst + ofNat 32 i ≠ src + ofNat 32 j

/-- An aligned word that has a byte of the source in it. -/
def Touches (src : Word) (len : Nat) (a : Word) : Prop :=
  a.toNat % 4 = 0 ∧ ∃ i < len, (src + ofNat 32 i).toNat / 4 = a.toNat / 4

/-- So many bytes are copied, and every word that was read has a byte of the source in it. -/
structure Progress (m : Memory) (dst src : Word) (len k : Nat) (r : Ram) : Prop where
  bound : k ≤ len
  memory : r.memory = copied m dst src k
  words : ∀ a ∈ r.words, Touches src len a

section Forward

variable {m : Memory} {dst src : Word} {len k : Nat} {r : Ram} {little : Bool}

theorem copied_zero (m : Memory) (dst src : Word) : copied m dst src 0 = m := rfl

/-- Half of the addresses at most. -/
theorem Apart.short (apart : Apart dst src len) : 2 * len ≤ 2 ^ 32 := by
  by_contra long
  have back : ¬ (src - dst).toNat < len := by
    intro inside
    refine apart (src - dst).toNat 0 inside (by omega) ?_
    rw [BitVec.ofNat_toNat, BitVec.setWidth_eq, BitVec.add_comm, BitVec.sub_add_cancel]
    exact (BitVec.add_zero src).symm
  have forth : ¬ (dst - src).toNat < len := by
    intro inside
    refine apart 0 (dst - src).toNat (by omega) inside ?_
    rw [BitVec.ofNat_toNat, BitVec.setWidth_eq, BitVec.add_comm src, BitVec.sub_add_cancel]
    exact BitVec.add_zero dst
  bv_omega

variable {n i : Nat}

/-- The source is as it was. -/
theorem copied_source (apart : Apart dst src len) (bound : k ≤ len) (inside : i < len) :
    copied m dst src k (src + ofNat 32 i) = m (src + ofNat 32 i) := by
  unfold copied
  rw [if_neg]
  intro less
  refine apart (src + ofNat 32 i - dst).toNat i (by omega) inside ?_
  rw [BitVec.ofNat_toNat, BitVec.setWidth_eq, BitVec.add_comm, BitVec.sub_add_cancel]

theorem place_add (a : Word) (k i : Nat) : a + ofNat 32 k + ofNat 32 i = a + ofNat 32 (k + i) := by
  rw [BitVec.add_assoc, ← BitVec.ofNat_add]

/-- The next bytes. -/
theorem copied_add (m : Memory) (dst src : Word) (fits : k + n < 2 ^ 32) : copied m dst src (k + n) = fun a =>
    if (a - (dst + ofNat 32 k)).toNat < n then m (src + ofNat 32 (k + (a - (dst + ofNat 32 k)).toNat))
    else copied m dst src k a := by
  funext a
  have place : (a - (dst + ofNat 32 k)).toNat = ((a - dst).toNat + (2 ^ 32 - k)) % 2 ^ 32 := by bv_omega
  have less := (a - dst).isLt
  unfold copied
  rw [place]
  by_cases old : (a - dst).toNat < k
  · rw [if_pos (by omega), if_neg (by omega), if_pos old]
  · by_cases new : (a - dst).toNat < k + n
    · rw [if_pos new, if_pos (by omega), show k + ((a - dst).toNat + (2 ^ 32 - k)) % 2 ^ 32 = (a - dst).toNat by omega,
        BitVec.ofNat_toNat, BitVec.setWidth_eq]
    · rw [if_neg new, if_neg (by omega), if_neg old]

/-- A copy of a part before the copy of the whole. -/
theorem copied_copied (apart : Apart dst src len) (bound : k ≤ len) :
    copied (copied m dst src k) dst src len = copied m dst src len := by
  funext a
  rw [copied]
  split
  · rename_i inside
    have source := copied_source (m := m) apart bound inside
    rw [BitVec.ofNat_toNat, BitVec.setWidth_eq] at source
    rw [source, copied, if_pos inside]
  · rename_i outside
    rw [copied, copied, if_neg outside, if_neg (by omega)]

/-! ## Steps -/

theorem Progress.start {words : List Word} (touched : ∀ a ∈ words, Touches src len a) :
    Progress m dst src len 0 { memory := m, words := words } := ⟨Nat.zero_le _, rfl, touched⟩

variable (progress : Progress m dst src len k r) (apart : Apart dst src len)

include progress apart

/-- Bytes of the source are written behind the copied ones. -/
theorem Progress.wrote (more : k + n ≤ len) {t : Ram}
    (memory : ∀ b, t.memory b = if (b - (dst + ofNat 32 k)).toNat < n then
      m (src + ofNat 32 (k + (b - (dst + ofNat 32 k)).toNat)) else r.memory b) (words : t.words = r.words) :
    Progress m dst src len (k + n) t := by
  have short := apart.short
  refine ⟨more, ?_, by rw [words]; exact progress.words⟩
  rw [copied_add m dst src (by omega), ← progress.memory]
  exact funext memory

/-- The source is still read as it was. -/
theorem Progress.source (inside : i < len) :
    r.memory (src + ofNat 32 i) = m (src + ofNat 32 i) := by
  rw [progress.memory]
  exact copied_source apart progress.bound inside

theorem Progress.byte (more : k < len) :
    Progress m dst src len (k + 1) (r.copyByte (dst + ofNat 32 k) (src + ofNat 32 k)) := by
  refine progress.wrote apart more (fun b => ?_) rfl
  rw [Ram.copyByte]
  dsimp only
  rw [Function.update_apply, progress.source apart more]
  by_cases here : b = dst + ofNat 32 k
  · rw [if_pos here, here, BitVec.sub_self, if_pos (by decide)]
    rfl
  · have apart : ¬ (b - (dst + ofNat 32 k)).toNat < 1 := by bv_omega
    rw [if_neg here, if_neg apart]

omit apart in
theorem Progress.read {a : Word} (touches : Touches src len a) :
    Progress m dst src len k (r.read a) :=
  ⟨progress.bound, progress.memory, List.forall_mem_cons.mpr ⟨touches, progress.words⟩⟩

theorem Progress.store (more : k + 4 ≤ len) {value : Word}
    (bytes : ∀ i < 4, byteAt little value i = m (src + ofNat 32 (k + i))) :
    Progress m dst src len (k + 4) (r.store little (dst + ofNat 32 k) value) := by
  refine progress.wrote apart more (fun b => ?_) rfl
  rw [Ram.store]
  dsimp only
  split
  · exact bytes _ ‹_›
  · rfl

/-- A byte of a word that is read is a byte of the source, if it lies in it. -/
theorem Progress.loaded (small : i < 4) (inside : n + i < len) :
    byteAt little (r.load little (src + ofNat 32 n)) i = m (src + ofNat 32 (n + i)) := by
  rw [byteAt_load small, place_add]
  exact progress.source apart inside

theorem Progress.word (more : k + 4 ≤ len)
    (aligned : (src + ofNat 32 k).toNat % 4 = 0) :
    Progress m dst src len (k + 4) (r.copyWord little (dst + ofNat 32 k) (src + ofNat 32 k)) := by
  refine (progress.read ⟨aligned, k, by omega, rfl⟩).store apart more fun i small => ?_
  exact progress.loaded apart small (by omega)

theorem Progress.eight (little : Bool) (more : k + 4 * n ≤ len) (aligned : (src + ofNat 32 k).toNat % 4 = 0) :
    Progress m dst src len (k + 4 * n) (r.copyWords little (dst + ofNat 32 k) (src + ofNat 32 k) n) := by
  induction n with
  | zero => exact progress
  | succ n ih =>
    have short := apart.short
    have next : (src + ofNat 32 (k + 4 * n)).toNat % 4 = 0 := by
      rw [toNat_add, BitVec.toNat_ofNat] at aligned ⊢
      omega
    rw [Ram.copyWords, List.range_succ, List.foldl_append, List.foldl_cons, List.foldl_nil, place_add, place_add]
    exact (ih (by omega)).word apart (by omega) next

/-! ## Words composed of two -/

/-- The words of the source that the next composed word is made of. -/
structure Shifted (m : Memory) (src : Word) (len : Nat) (little : Bool) (o k : Nat) (prev sw : Word) : Prop where
  positive : 0 < o
  offset : (src + ofNat 32 k).toNat % 4 = o
  sw : sw = src + ofNat 32 (k + (4 - o))
  prev : ∀ i, o + i < 4 -> k + i < len -> byteAt little prev (o + i) = m (src + ofNat 32 (k + i))

/-- The first of them is the aligned word behind the address. -/
theorem Progress.first (little : Bool) (more : k < len) {o : Nat}
    (offset : (src + ofNat 32 k).toNat % 4 = o) (positive : 0 < o) {a : Word}
    (word : a = (src + ofNat 32 k) &&& ~~~3#32) :
    Progress m dst src len k (r.read a) ∧ Shifted m src len little o k (r.load little a) (a + 4) := by
  have low : (src + ofNat 32 k &&& 3#32).toNat = o := (Word.and_low _ 2).trans offset
  have split := Word.and_not_add_and (src + ofNat 32 k) 3#32
  rw [low, ← word] at split
  have short := apart.short
  have small : o < 4 := by omega
  have place : a + ofNat 32 o = src + ofNat 32 k := by bv_omega
  refine ⟨progress.read ⟨by omega, k, more, by omega⟩, ⟨positive, offset, ?_, fun i less inside => ?_⟩⟩
  · rw [← place_add, ← place]
    bv_omega
  · rw [byteAt_load less, ← place_add, place, place_add]
    exact progress.source apart inside

/-- A composed word. -/
theorem Progress.shifted (more : k + 4 ≤ len) {o : Nat}
    {prev sw : Word} (shifted : Shifted m src len little o k prev sw) :
    Progress m dst src len (k + 4)
        ((r.read sw).store little (dst + ofNat 32 k) (compose little prev (r.load little sw) (8 * o))) ∧
      Shifted m src len little o (k + 4) (r.load little sw) (sw + 4) := by
  obtain ⟨positive, offset, rfl, bytes⟩ := shifted
  have short := apart.short
  have small : o < 4 := by omega
  have aligned : (src + ofNat 32 (k + (4 - o))).toNat % 4 = 0 := by
    rw [toNat_add, BitVec.toNat_ofNat] at offset ⊢
    omega
  refine ⟨(progress.read ⟨aligned, k + (4 - o), by omega, rfl⟩).store apart more fun i inside => ?_,
    ⟨positive, ?_, ?_, fun i less inside => ?_⟩⟩
  · rw [byteAt_compose positive small inside]
    split
    · rw [Nat.add_comm i o]
      exact bytes i (by omega) (by omega)
    · rw [progress.loaded apart (by omega) (by omega)]
      congr 3
      omega
  · rw [toNat_add, BitVec.toNat_ofNat] at offset ⊢
    omega
  · rw [show (4 : Word) = ofNat 32 4 by rfl, place_add]
    congr 2
    omega
  · rw [progress.loaded apart less (by omega)]
    congr 3
    omega

end Forward

end Src32.Copies
