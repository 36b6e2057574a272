import Src32.Lib.Unicode

namespace Src32.Libfnd

/-!
# Names and their keys

`name.c`: UTF-8, the case folding by a generated table, the comparison of names by
their folded keys, and the check of a name.
-/

/-! ## UTF-8 -/

/-- What `fnd_utf8_next` answers: the end, a bad sequence, or a scalar value and what is
behind it. -/
inductive Next where
  | finished
  | bad
  | scalar (cp : Nat) (rest : List Byte)

/-- The loop over the bytes behind the first. -/
def continuation : Nat -> Nat -> List Byte -> Option (Nat × List Byte)
  | 0, c, rest => some (c, rest)
  | _ + 1, _, [] => none
  | k + 1, c, b :: rest =>
    if b &&& 0xC0 ≠ 0x80 then none else continuation k (c <<< 6 ||| (b &&& 0x3F).toNat) rest

def sequence (need min c : Nat) (rest : List Byte) : Next :=
  if rest.length < need then .bad
  else
    match continuation need c rest with
    | none => .bad
    | some (c, rest) => if c < min ∨ c > 0x10FFFF ∨ (0xD800 ≤ c ∧ c ≤ 0xDFFF) then .bad else .scalar c rest

/-- `fnd_utf8_next`. -/
def utf8Next : List Byte -> Next
  | [] => .finished
  | b :: rest =>
    if b.toNat < 0x80 then .scalar b.toNat rest
    else if b &&& 0xE0 = 0xC0 then sequence 1 0x80 (b &&& 0x1F).toNat rest
    else if b &&& 0xF0 = 0xE0 then sequence 2 0x800 (b &&& 0x0F).toNat rest
    else if b &&& 0xF8 = 0xF0 then sequence 3 0x10000 (b &&& 0x07).toNat rest
    else .bad

/-! ## Folding -/

/-- The rows of the letters A to Z, with which the generated table begins. -/
def letters : List Nat := (List.range 26).map fun i => 0x41 + i

/-- The generated table behind the letters: sorted code points above ASCII, and for
each a code point or an index of up to three words. -/
structure Casefold where
  laterFrom : List Nat
  laterTo : List Nat
  cfMulti : List Nat
  rows : laterTo.length = laterFrom.length
  sorted : laterFrom.Pairwise fun a b => a < b
  behind : ∀ cp ∈ laterFrom, 0x7F < cp
  expansions : ∀ v ∈ laterTo, v &&& 0x80000000 ≠ 0 -> cfMulti.getD ((v &&& 0xFFFF) * 3) 0 ≠ 0

namespace Casefold

variable (t : Casefold)

/-- `fnd_cf_from`. -/
def cfFrom : List Nat := letters ++ t.laterFrom

/-- `fnd_cf_to`. -/
def cfTo : List Nat := letters.map (fun cp => cp + 0x20) ++ t.laterTo

/-- What a word of `fnd_cf_to` stands for. -/
def expand (v : Nat) : List Nat :=
  if v &&& 0x80000000 = 0 then [v]
  else ((t.cfMulti.drop ((v &&& 0xFFFF) * 3)).take 3).takeWhile fun word => word ≠ 0

/-- The binary search. -/
def find (cp lo hi : Nat) : Option Nat :=
  if lo < hi then
    if t.cfFrom.getD ((lo + hi) / 2) 0 = cp then some (t.cfTo.getD ((lo + hi) / 2) 0)
    else if t.cfFrom.getD ((lo + hi) / 2) 0 < cp then find cp ((lo + hi) / 2 + 1) hi
    else find cp lo ((lo + hi) / 2)
  else none
termination_by hi - lo
decreasing_by
  · omega
  · omega

/-- Only A to Z fold in ASCII. -/
def lower (cp : Nat) : Nat := if 0x41 ≤ cp ∧ cp ≤ 0x5A then cp + 0x20 else cp

/-- `fnd_casefold`. -/
def casefold (cp : Nat) : List Nat :=
  if cp < 0x80 then [lower cp]
  else
    match t.find cp 0 t.cfFrom.length with
    | some v => t.expand v
    | none => [cp]

/-- `fnd_fold_iter`: the bytes from `pos` on, and what is left in `buf`. -/
structure FoldIter where
  bytes : List Byte
  buf : List Nat

def foldInit (s : List Byte) : FoldIter := ⟨s, []⟩

/-- A scalar value is decoded and folded. -/
def foldDecode (s : List Byte) : Option (Nat × FoldIter) :=
  match utf8Next s with
  | .scalar cp rest =>
    match t.casefold cp with
    | [] => none
    | c :: buf => some (c, ⟨rest, buf⟩)
  | _ => none

/-- `fnd_fold_next`. -/
def foldNext (it : FoldIter) : Option (Nat × FoldIter) :=
  match it.buf with
  | c :: buf => some (c, ⟨it.bytes, buf⟩)
  | [] =>
    match it.bytes with
    | [] => t.foldDecode []
    | b :: rest => if b.toNat < 0x80 then some (lower b.toNat, ⟨rest, []⟩) else t.foldDecode (b :: rest)

/-- What bounds the rounds over an iterator. -/
def FoldIter.measure (it : FoldIter) : Nat := 4 * it.bytes.length + it.buf.length

theorem expand_length (v : Nat) : (t.expand v).length ≤ 3 := by
  unfold expand
  split_ifs
  · exact Nat.succ_le_succ (Nat.zero_le 2)
  · calc (((t.cfMulti.drop ((v &&& 0xFFFF) * 3)).take 3).takeWhile fun word => word ≠ 0).length
        ≤ ((t.cfMulti.drop ((v &&& 0xFFFF) * 3)).take 3).length := (List.takeWhile_sublist _).length_le
      _ ≤ 3 := List.length_take_le ..

theorem casefold_length (cp : Nat) : (t.casefold cp).length ≤ 3 := by
  unfold casefold
  split_ifs
  · exact Nat.succ_le_succ (Nat.zero_le 2)
  · cases t.find cp 0 t.cfFrom.length with
    | none => exact Nat.succ_le_succ (Nat.zero_le 2)
    | some v => exact t.expand_length v

end Casefold

theorem continuation_shorter {k c d : Nat} {s rest : List Byte} (done : continuation k c s = some (d, rest)) :
    rest.length ≤ s.length := by
  fun_induction continuation k c s with
  | case1 c s =>
    cases done
    exact Nat.le_refl _
  | case2 => cases done
  | case3 => cases done
  | case4 k c b s _ ih => exact Nat.le_succ_of_le (ih done)

theorem sequence_shorter {need min c d : Nat} {s rest : List Byte} (done : sequence need min c s = .scalar d rest) :
    rest.length ≤ s.length := by
  unfold sequence at done
  split_ifs at done
  cases taken : continuation need c s with
  | none =>
    rw [taken] at done
    cases done
  | some found =>
    rw [taken] at done
    dsimp only at done
    split_ifs at done
    cases done
    exact continuation_shorter taken

theorem utf8Next_shorter {s rest : List Byte} {cp : Nat} (done : utf8Next s = .scalar cp rest) : rest.length < s.length := by
  cases s with
  | nil => cases done
  | cons b s =>
    unfold utf8Next at done
    dsimp only at done
    rw [List.length_cons]
    refine Nat.lt_succ_of_le ?_
    split_ifs at done
    · cases done
      exact Nat.le_refl _
    · exact sequence_shorter done
    · exact sequence_shorter done
    · exact sequence_shorter done

namespace Casefold

variable (t : Casefold)

theorem foldDecode_less {s : List Byte} {c : Nat} {it : FoldIter} (step : t.foldDecode s = some (c, it)) :
    it.measure < 4 * s.length := by
  unfold foldDecode at step
  cases next : utf8Next s with
  | finished | bad =>
    rw [next] at step
    cases step
  | scalar cp rest =>
    rw [next] at step
    dsimp only at step
    have shorter := utf8Next_shorter next
    have few := t.casefold_length cp
    cases folded : t.casefold cp with
    | nil =>
      rw [folded] at step
      cases step
    | cons d buf =>
      rw [folded] at step few
      cases step
      rw [List.length_cons] at few
      unfold FoldIter.measure
      dsimp only
      omega

/-- Every round takes something. -/
theorem foldNext_less {it next : FoldIter} {c : Nat} (step : t.foldNext it = some (c, next)) : next.measure < it.measure := by
  obtain ⟨bytes, buf⟩ := it
  unfold foldNext at step
  dsimp only at step
  cases buf with
  | cons d buf =>
    cases step
    unfold FoldIter.measure
    rw [List.length_cons]
    exact Nat.lt_succ_self _
  | nil =>
    cases bytes with
    | nil => cases step
    | cons b rest =>
      dsimp only at step
      split_ifs at step
      · cases step
        unfold FoldIter.measure
        rw [List.length_cons]
        exact Nat.lt_add_of_pos_right (by decide)
      · exact t.foldDecode_less step

/-- The loop of `fnd_name_key_equal`. -/
def keyEqual (x y : FoldIter) : Bool :=
  match step : t.foldNext x with
  | none => (t.foldNext y).isNone
  | some (ca, nextX) =>
    match t.foldNext y with
    | none => false
    | some (cb, nextY) => if ca ≠ cb then false else keyEqual nextX nextY
termination_by x.measure
decreasing_by exact t.foldNext_less step

/-- `fnd_name_key_equal`. -/
def nameKeyEqual (a b : List Byte) : Bool := t.keyEqual (foldInit a) (foldInit b)

/-- The loop of `fnd_name_key_hash`. -/
def keyHash (h : Word) (it : FoldIter) : Word :=
  match step : t.foldNext it with
  | none => h
  | some (c, next) => keyHash ((h ^^^ BitVec.ofNat 32 c) * 16777619) next
termination_by it.measure
decreasing_by exact t.foldNext_less step

/-- `fnd_name_key_hash`. -/
def nameKeyHash (s : List Byte) : Word := t.keyHash 2166136261 (foldInit s)

end Casefold

/-! ## Valid names -/

inductive NameStatus where
  | ok (chars : Nat)
  | badPath
  | nameTooLong
  deriving DecidableEq

/-- The loop of `fnd_name_check` over what is left: the number of scalar values, or
nothing for a bad path. -/
def nameScan (s : List Byte) (n : Nat) : Option Nat :=
  match step : utf8Next s with
  | .finished => some n
  | .bad => none
  | .scalar c rest => if c = 0x2F ∨ c < 0x20 ∨ (0x7F ≤ c ∧ c ≤ 0x9F) then none else nameScan rest (n + 1)
termination_by s.length
decreasing_by exact utf8Next_shorter step

/-- `fnd_name_check`. -/
def nameCheck (s : List Byte) : NameStatus :=
  if s.length = 0 then .badPath
  else
    match nameScan s 0 with
    | none => .badPath
    | some n =>
      if s = [0x2E] ∨ s = [0x2E, 0x2E] then .badPath
      else if n > 256 ∨ s.length > 1024 then .nameTooLong
      else .ok n

end Src32.Libfnd
