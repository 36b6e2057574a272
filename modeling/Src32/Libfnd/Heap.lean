import Src32.Kernel.Status
import Src32.Lib.Tiling
import Src32.Machine.Bytes
import Src32.Wax.Load

namespace Src32.Libfnd

open Kernel Wax

/-!
# The heap of a program

`fnd_mem_alloc` and `fnd_mem_free` of `mem.c`: first fit over a heap that
`mem_grow` extends.  Every block has a header of two words in the program's own
memory.
-/

/-- `first` and `heap_end` of `mem.c`, the program's memory, and where `mem_grow`
goes on. -/
structure Program where
  first : Word
  heapEnd : Word
  mem : Memory
  brk : Word

/-- What the kernel does with a call of `mem_grow` for so many bytes. -/
inductive Growth where
  | refused (error : FndError)
  | granted (fresh : Memory)

namespace Program

variable (s : Program)

/-- `fnd_sys_mem_grow`: the answer in R1. -/
def memGrow (kernel : Word -> Growth) (delta : Word) : Word × Program :=
  match kernel delta with
  | .refused error => (error.code, s)
  | .granted fresh => (s.brk, { s with
      brk := s.brk + delta
      mem := fun a => if s.brk ≤ a ∧ a < s.brk + delta then fresh a else s.mem a })

def sizeOf (b : Word) : Word := wordAt s.mem b

def usedOf (b : Word) : Word := wordAt s.mem (b + 4)

def setSize (b size : Word) : Program := { s with mem := storeWord s.mem b size }

def setUsed (b used : Word) : Program := { s with mem := storeWord s.mem (b + 4) used }

def nextOf (b : Word) : Word := b + 8 + s.sizeOf b

/-- Where the search of `fnd_mem_alloc` ends: at a block that is large enough, or
behind the last one. -/
inductive Search where
  | fits (b : Word)
  | passed (last : Word)

/-- The search.  Nothing when the fuel does not do. -/
def search (size : Word) : Nat -> Word -> Word -> Option Search
  | 0, _, _ => none
  | fuel + 1, b, last =>
    if b ≠ 0 ∧ b < s.heapEnd then
      if s.usedOf b = 0 ∧ s.sizeOf b ≥ size then some (.fits b) else search size fuel (s.nextOf b) b
    else some (.passed last)

/-- A block is split where a header and 8 bytes are left, and used. -/
def take (b size : Word) : Program :=
  if s.sizeOf b ≥ size + 16 then
    let rest := b + 8 + size
    (((s.setSize rest (s.sizeOf b - size - 8)).setUsed rest 0).setSize b size).setUsed b 1
  else s.setUsed b 1

/-- The heap grows, by as much as a free last block lacks. -/
def extend (kernel : Word -> Growth) (last size : Word) : Word × Program :=
  let need : Word := if last ≠ 0 ∧ s.usedOf last = 0 then size + 8 - (s.sizeOf last + 8) else size + 8
  let (old, s) := s.memGrow kernel need
  if old.msb then (0, s)
  else
    let s : Program := if s.first = 0 then { s with first := old } else s
    let s : Program := { s with heapEnd := old + need }
    let b : Word := if last ≠ 0 ∧ s.usedOf last = 0 then last else old
    (b + 8, (s.setSize b size).setUsed b 1)

/-- Every block takes 8 bytes at least, so the rounds of a loop over the heap are
fewer. -/
def fuel : Nat := s.heapEnd.toNat - s.first.toNat + 1

/-- `fnd_mem_alloc`. -/
def memAlloc (kernel : Word -> Growth) (size : Word) : Option (Word × Program) :=
  if size = 0 ∨ size > 0x7FFFFFF0 then some (0, s)
  else
    let size := (size + 7) &&& ~~~7
    match s.search size s.fuel s.first 0 with
    | none => none
    | some (.fits b) => some (b + 8, s.take b size)
    | some (.passed last) => some (s.extend kernel last size)

/-- The loop of `fnd_mem_free`. -/
def sweep : Nat -> Program -> Word -> Option Program
  | 0, _, _ => none
  | fuel + 1, s, c =>
    if c ≠ 0 ∧ c < s.heapEnd then
      if s.usedOf c = 0 ∧ s.nextOf c < s.heapEnd ∧ s.usedOf (s.nextOf c) = 0 then
        sweep fuel (s.setSize c (s.sizeOf c + (s.sizeOf (s.nextOf c) + 8))) c
      else sweep fuel s (s.nextOf c)
    else some s

/-- `fnd_mem_free`. -/
def memFree (p : Word) : Option Program :=
  if p = 0 then some s else sweep s.fuel (s.setUsed (p - 8) 0) s.first

end Program

/-!
## Headers in memory

The words in front of the blocks say how long they are and whether they are used,
and the two loops read that.
-/

open Tiling

/-! ## Words in memory -/

section Words

variable {mem other : Memory} {w v : Word}

theorem wordAt_congr (fits : w.toNat + 4 ≤ 2 ^ 32)
    (same : ∀ x : Word, w.toNat ≤ x.toNat -> x.toNat < w.toNat + 4 -> other x = mem x) : wordAt other w = wordAt mem w := by
  have byte : ∀ k : Word, k.toNat < 4 -> other (w + k) = mem (w + k) := by
    intro k below
    have place : (w + k).toNat = w.toNat + k.toNat := by
      rw [BitVec.toNat_add]
      omega
    exact same (w + k) (by omega) (by omega)
  have first : other w = mem w := same w (Nat.le_refl _) (by omega)
  unfold wordAt
  rw [first, byte 1 (by decide), byte 2 (by decide), byte 3 (by decide)]

theorem storeWord_outside (fits : w.toNat + 4 ≤ 2 ^ 32) (value : Word) {x : Word}
    (outside : x.toNat < w.toNat ∨ w.toNat + 4 ≤ x.toNat) : storeWord mem w value x = mem x := by
  have away : ∀ k : Word, k.toNat < 4 -> x ≠ w + k := by
    intro k below same
    have place : (w + k).toNat = w.toNat + k.toNat := by
      rw [BitVec.toNat_add]
      omega
    rw [← same] at place
    omega
  have first : x ≠ w := by
    rintro rfl
    omega
  unfold storeWord copyBytes copyBytes copyBytes copyBytes copyBytes
  rw [BitVec.add_assoc w 1 1, BitVec.add_assoc w (1 + 1) 1, if_neg (away (1 + 1 + 1) (by decide)), if_neg (away (1 + 1) (by decide)),
    if_neg (away 1 (by decide)), if_neg first]

theorem wordAt_storeWord (value : Word) : wordAt (storeWord mem w value) w = value := by
  have bytes : Word.ofBytes ((value >>> 24).setWidth 8) ((value >>> 16).setWidth 8) ((value >>> 8).setWidth 8)
      (value.setWidth 8) = value := by
    apply BitVec.eq_of_getLsbD_eq
    intro n bound
    rw [Word.getLsbD_ofBytes]
    simp only [BitVec.getLsbD_setWidth, BitVec.getLsbD_ushiftRight]
    grind
  have one : ∀ k : Word, k ≠ 0 -> w + k ≠ w := fun k some_ same => some_ (by simpa using same)
  unfold wordAt storeWord copyBytes copyBytes copyBytes copyBytes copyBytes
  rw [BitVec.add_assoc w 1 1, BitVec.add_assoc w (1 + 1) 1]
  simp only [BitVec.add_right_inj, show (1 + 1 : Word) = 2 by decide, show (2 + 1 : Word) = 3 by decide, if_true]
  rw [if_neg (one 3 (by decide)).symm, if_neg (one 2 (by decide)).symm, if_neg (one 1 (by decide)).symm]
  simpa using bytes

theorem wordAt_apart (fits : w.toNat + 4 ≤ 2 ^ 32) (room : v.toNat + 4 ≤ 2 ^ 32) (value : Word)
    (apart : w.toNat + 4 ≤ v.toNat ∨ v.toNat + 4 ≤ w.toNat) : wordAt (storeWord mem w value) v = wordAt mem v :=
  wordAt_congr room fun x least most => storeWord_outside fits value (by omega)

end Words

/-! ## Headers -/

/-- A header says what its block is. -/
def Header (mem : Memory) (w : Word) (b : Tile) : Prop :=
  (wordAt mem w).toNat = b.size ∧ (wordAt mem (w + 4) = 0 ↔ b.used = false)

/-- All headers do. -/
def Tiles (mem : Memory) (place : Nat) (blocks : List Tile) : Prop :=
  ∀ (w : Word) (b : Tile), (w.toNat, b) ∈ placed 8 place blocks -> Header mem w b

section Headers

variable {mem other : Memory} {place : Nat} {blocks : List Tile}

theorem tiles_nil : Tiles mem place [] := fun _ _ => nofun

theorem tiles_append {first second : List Tile} :
    Tiles mem place (first ++ second) ↔ Tiles mem place first ∧ Tiles mem (place + span 8 first) second := by
  unfold Tiles
  rw [placed_append]
  simp only [List.mem_append, or_imp, forall_and]

theorem tiles_cons {w : Word} {b : Tile} {rest : List Tile} :
    Tiles mem w.toNat (b :: rest) ↔ Header mem w b ∧ Tiles mem (w.toNat + 8 + b.size) rest := by
  unfold Tiles
  simp only [placed, List.mem_cons, or_imp, forall_and, Prod.mk.injEq, and_imp]
  refine and_congr_left fun _ => ?_
  constructor
  · exact fun all => all w b rfl rfl
  · intro header v c same kind
    rw [BitVec.eq_of_toNat_eq same, kind]
    exact header

theorem Header.of_same {w : Word} {b : Tile} (header : Header mem w b) (fits : w.toNat + 8 ≤ 2 ^ 32)
    (same : ∀ x : Word, w.toNat ≤ x.toNat -> x.toNat < w.toNat + 8 -> other x = mem x) : Header other w b := by
  have behind : (w + 4).toNat = w.toNat + 4 := by
    rw [BitVec.toNat_add]
    have step : (4 : Word).toNat = 4 := rfl
    omega
  unfold Header
  rw [wordAt_congr (by omega) fun x least most => same x least (by omega),
    wordAt_congr (by omega) fun x least most => same x (by omega) (by omega)]
  exact header

/-- Only the headers matter. -/
theorem Tiles.of_headers (tiles : Tiles mem place blocks) (fits : place + span 8 blocks ≤ 2 ^ 32)
    (same : ∀ y b, (y, b) ∈ placed 8 place blocks -> ∀ x : Word, y ≤ x.toNat -> x.toNat < y + 8 -> other x = mem x) :
    Tiles other place blocks := by
  intro w b member
  have inside := (placed_inside member).2
  exact (tiles w b member).of_same (by omega) (same w.toNat b member)

theorem Tiles.of_inside (tiles : Tiles mem place blocks) (fits : place + span 8 blocks ≤ 2 ^ 32)
    (same : ∀ x : Word, place ≤ x.toNat -> x.toNat < place + span 8 blocks -> other x = mem x) : Tiles other place blocks := by
  refine tiles.of_headers fits fun y b member x least most => ?_
  have inside := placed_inside member
  exact same x (by omega) (by omega)

end Headers

namespace Program

variable {s : Program} {blocks : List Tile}

theorem nextOf_toNat {c : Word} {size : Nat} (header : (wordAt s.mem c).toNat = size) (fits : c.toNat + 8 + size < 2 ^ 32) :
    (s.nextOf c).toNat = c.toNat + 8 + size := by
  unfold nextOf sizeOf
  rw [BitVec.toNat_add, BitVec.toNat_add, header]
  have step : (8 : Word).toNat = 8 := rfl
  omega

/-- A loop's position behind the last block. -/
theorem not_inside {c : Word} (whole : c.toNat = s.heapEnd.toNat) : ¬(c ≠ 0 ∧ c < s.heapEnd) := by
  rintro ⟨_, below⟩
  have less : c.toNat < s.heapEnd.toNat := below
  omega

theorem inside_heap {c : Word} {n : Nat} (positive : 0 < c.toNat) (whole : c.toNat + (8 + n) ≤ s.heapEnd.toNat) :
    c ≠ 0 ∧ c < s.heapEnd := by
  constructor
  · rintro rfl
    exact absurd positive (Nat.lt_irrefl 0)
  · show c.toNat < s.heapEnd.toNat
    omega

/-! ## The search -/

/-- What the search finds: the first free block that is large enough, else the last
block of all. -/
def Finds (c last size : Word) (blocks : List Tile) : Search -> Prop
  | .fits place => ∃ before b behind, blocks = before ++ b :: behind ∧ b.used = false ∧ size.toNat ≤ b.size ∧
      place.toNat = c.toNat + span 8 before
  | .passed final => (∀ b ∈ blocks, b.used = false -> b.size < size.toNat) ∧
      (blocks = [] ∧ final = last ∨ ∃ before b, blocks = before ++ [b] ∧ final.toNat = c.toNat + span 8 before)

theorem search_finds (c last : Word) {size : Word} {fuel : Nat} (tiles : Tiles s.mem c.toNat blocks)
    (whole : c.toNat + span 8 blocks = s.heapEnd.toNat) (positive : 0 < c.toNat ∨ blocks = []) (enough : blocks.length < fuel) :
    ∃ result, s.search size fuel c last = some result ∧ Finds c last size blocks result := by
  have bound := s.heapEnd.isLt
  induction blocks generalizing c last fuel with
  | nil =>
    obtain ⟨fuel, rfl⟩ : ∃ n, fuel = n + 1 := ⟨fuel - 1, by rw [List.length_nil] at enough; omega⟩
    refine ⟨.passed last, ?_, fun _ => nofun, .inl ⟨rfl, rfl⟩⟩
    unfold search
    rw [if_neg (not_inside (by simpa using whole))]
  | cons b rest ih =>
    obtain ⟨fuel, rfl⟩ : ∃ n, fuel = n + 1 := ⟨fuel - 1, by rw [List.length_cons] at enough; omega⟩
    rw [span_cons] at whole
    have above : 0 < c.toNat := positive.resolve_right nofun
    obtain ⟨⟨size_, mark⟩, others⟩ := tiles_cons.mp tiles
    have next := nextOf_toNat size_ (by omega)
    have large : s.sizeOf c ≥ size ↔ size.toNat ≤ b.size := by
      rw [← size_]
      exact BitVec.le_def
    unfold search
    rw [if_pos (inside_heap above (show c.toNat + (8 + b.size) ≤ s.heapEnd.toNat by omega))]
    by_cases fit : b.used = false ∧ size.toNat ≤ b.size
    · rw [if_pos ⟨mark.mpr fit.1, large.mpr fit.2⟩]
      exact ⟨.fits c, rfl, [], b, rest, rfl, fit.1, fit.2, rfl⟩
    · rw [if_neg fun both => fit ⟨mark.mp both.1, large.mp both.2⟩]
      rw [← next] at others
      have shorter : rest.length < fuel := by
        rw [List.length_cons] at enough
        omega
      obtain ⟨result, found, finds⟩ := ih (s.nextOf c) c others (by omega) (.inl (by omega)) shorter
      refine ⟨result, found, ?_⟩
      cases result with
      | fits place =>
        obtain ⟨before, d, behind, rfl, free, room, here⟩ := finds
        refine ⟨b :: before, d, behind, rfl, free, room, ?_⟩
        rw [here, next, span_cons]
        omega
      | passed final =>
        obtain ⟨small, ends⟩ := finds
        refine ⟨List.forall_mem_cons.mpr ⟨fun free => ?_, small⟩, .inr ?_⟩
        · exact Nat.not_le.mp fun room => fit ⟨free, room⟩
        · rcases ends with ⟨rfl, rfl⟩ | ⟨before, d, rfl, here⟩
          · exact ⟨[], b, rfl, rfl⟩
          · refine ⟨b :: before, d, rfl, ?_⟩
            rw [here, next, span_cons]
            omega

end Program

end Src32.Libfnd
