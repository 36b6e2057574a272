import Mathlib.Data.List.GetD
import Mathlib.Data.List.Induction
import Src32.Wax.Resolution

namespace Src32.Wax

/-!
# Provider selection

The cheap filter lets every library through that the parser accepts as a
provider, so the provider that is chosen is the first of those with the largest
minor version.
-/

/-- A library that the parser accepts as a provider of an image ID at a major. -/
def Provides (lib : File) (id : List Byte) (major : Word) (im : Image) : Prop :=
  parse lib = .ok im ∧ im.version = 3 ∧ im.type = typeWal ∧ im.abiMajor = major ∧ str im im.imageId = some id

variable {lib : File} {id : List Byte} {major : Word} {im : Image}

/-! ## The filter -/

theorem byte_eq (lib : File) (offset : Word) : lib.byte offset = lib.bytes.getD offset.toNat 0 := rfl

/-- A string ends at its NUL. -/
theorem cString_cons {offset : Word} (inside : offset.toNat < lib.bytes.length) :
    lib.cString offset =
      if lib.byte offset = 0 then [] else lib.byte offset :: (lib.bytes.drop (offset.toNat + 1)).takeWhile (· ≠ 0) := by
  unfold File.cString
  rw [List.drop_eq_getElem_cons inside, List.takeWhile_cons, byte_eq, List.getD_eq_getElem _ _ inside]
  by_cases zero : lib.bytes[offset.toNat] = 0
  · have stops : ¬ decide (lib.bytes[offset.toNat] ≠ 0) = true := by
      rw [decide_eq_true_iff]
      exact not_not.mpr zero
    rw [if_pos zero, if_neg stops]
  · rw [if_neg zero, if_pos (decide_eq_true zero)]

/-- The comparison of the filter agrees with the string at the offset. -/
theorem idAt_cString {strings size : Word} (fits : strings.toNat + size.toNat ≤ lib.bytes.length)
    (ends : lib.byte (strings + (size - 1)) = 0) (n : Nat) {offset : Word} (inside : offset.toNat < size.toNat)
    (left : size.toNat - offset.toNat = n) : idAt lib strings size offset (lib.cString (strings + offset)) = true := by
  have small := lib.fits
  induction n generalizing offset with
  | zero => omega
  | succ n ih =>
    have sum : (strings + offset).toNat = strings.toNat + offset.toNat := by bv_omega
    have here : offset < size := inside
    rw [cString_cons (by omega)]
    by_cases zero : lib.byte (strings + offset) = 0
    · rw [if_pos zero]
      unfold idAt
      rw [decide_eq_true here, decide_eq_true zero]
      rfl
    · rw [if_neg zero]
      -- The last byte is a NUL, so the string goes on.
      have more : (offset + 1).toNat = offset.toNat + 1 ∧ offset.toNat + 1 < size.toNat := by
        have next : (offset + 1).toNat = offset.toNat + 1 := by bv_omega
        refine ⟨next, ?_⟩
        by_contra last
        apply zero
        have same : offset = size - 1 := by bv_omega
        rw [same]
        exact ends
      have after : strings + (offset + 1) = strings + offset + 1 := by rw [BitVec.add_assoc]
      have behind : (lib.bytes.drop ((strings + offset).toNat + 1)).takeWhile (· ≠ 0) =
          lib.cString (strings + (offset + 1)) := by
        unfold File.cString
        rw [after]
        congr 2
        bv_omega
      rw [behind]
      unfold idAt
      rw [decide_eq_true here, decide_eq_true (rfl : lib.byte (strings + offset) = _), ih (by omega) (by omega)]
      rfl

/-- A table of one entry lies in the file. -/
theorem addTable_inside {spans after : Spans} {offset size total : Word}
    (added : addTable spans offset 1 size total = some after) : offset.toNat + size.toNat ≤ total.toNat := by
  have one : (1 : Word) * size = size := BitVec.one_mul size
  unfold addTable addSpan at added
  rw [if_neg (by decide : ¬ (1 : Word) = 0), one] at added
  have inside : ¬ (offset > total ∨ size > total - offset) := by
    intro outside
    rw [if_pos outside] at added
    split at added <;> cases added
  have small := total.isLt
  bv_omega

/-- The string table of an accepted version 3 image. -/
theorem parseV3_strings {final : Image} (accepted : parseV3 im = .ok final) :
    ¬ im.size < headerV3 ∧ (v3Fields im).strings.toNat + (v3Fields im).stringSize.toNat ≤ im.size.toNat ∧
      im.data.byte ((v3Fields im).strings + ((v3Fields im).stringSize - 1)) = 0 := by
  unfold parseV3 at accepted
  dsimp only at accepted
  split_ifs at accepted with short other header limits
  refine ⟨short, ?_⟩
  unfold v3Body at accepted
  split at accepted
  · cases accepted
  · cases tables : v3Tables (v3Fields im) with
    | none =>
      rw [tables] at accepted
      cases accepted
    | some spans =>
      rw [tables] at accepted
      dsimp only at accepted
      split at accepted
      · cases accepted
      · next strings =>
          rw [Bool.not_eq_true', Bool.not_eq_false] at strings
          simp only [v3StringsOk, Bool.and_eq_true, decide_eq_true_iff] at strings
          refine ⟨?_, strings.1.1.1.2⟩
          unfold v3Tables at tables
          simp only [Option.bind_eq_bind, Option.bind_eq_some_iff] at tables
          obtain ⟨_, _, _, _, _, _, _, _, _, _, _, _, _, table, _⟩ := tables
          exact addTable_inside table

/-- Every provider passes the filter. -/
theorem mayProvide_of_provides (provides : Provides lib id major im) : mayProvide lib id major = true := by
  obtain ⟨accepted, version, kind, same, named⟩ := provides
  rcases parse_accepted accepted with ⟨_, _, two⟩ | ⟨three, ⟨span, align, fields⟩, _⟩
  · rw [two.version] at version
    exact absurd version (by decide)
  · unfold parse at accepted
    dsimp only at accepted
    rw [three] at accepted
    have two : ¬ (Image.blank lib 3).version = 2 := by
      change ¬ (3 : Word) = 2
      decide
    have third : (Image.blank lib 3).version = 3 := rfl
    by_cases short : lib.size < 8 ∨ (!magicOk lib) = true
    · rw [if_pos short] at accepted
      cases accepted
    · rw [if_neg short, if_neg two, if_pos third] at accepted
      obtain ⟨long, table, ends⟩ := parseV3_strings accepted
      change ¬ lib.size < headerV3 at long
      change (lib.rd32 88).toNat + (lib.rd32 92).toNat ≤ lib.size.toNat at table
      change lib.byte (lib.rd32 88 + (lib.rd32 92 - 1)) = 0 at ends
      have size : lib.size.toNat = lib.bytes.length := by
        unfold File.size
        rw [BitVec.toNat_ofNat, Nat.mod_eq_of_lt lib.fits]
      -- The name in the header.
      rw [fields] at kind same named
      change lib.rd16 6 = typeWal at kind
      change lib.rd32 100 = major at same
      change (if lib.rd32 96 = 0 ∨ lib.rd32 96 ≥ lib.rd32 92 ∨ lib.byte (lib.rd32 88 + (lib.rd32 96 - 1)) ≠ 0 ∨
        lib.byte (lib.rd32 88 + lib.rd32 96) = 0 then none else some (lib.cString (lib.rd32 88 + lib.rd32 96))) = some id at named
      split at named
      · cases named
      · next inside =>
          rw [not_or, not_or] at inside
          have below : (lib.rd32 96).toNat < (lib.rd32 92).toNat := Nat.lt_of_not_le inside.2.1
          have compared := idAt_cString (by omega) ends _ below rfl
          rw [Option.some.inj named] at compared
          have header : (lib.size < headerV3 || lib.rd16 4 ≠ 3 || lib.rd16 6 ≠ typeWal || lib.rd32 100 ≠ major) = false := by
            simp only [Bool.or_eq_false_iff, decide_eq_false_iff_not, not_not]
            exact ⟨⟨⟨long, three⟩, kind⟩, same⟩
          have range : (lib.rd32 88 > lib.size || lib.rd32 92 > lib.size - lib.rd32 88 || lib.rd32 96 ≥ lib.rd32 92) = false := by
            simp only [Bool.or_eq_false_iff, decide_eq_false_iff_not]
            refine ⟨⟨?_, ?_⟩, inside.2.1⟩
            · bv_omega
            · bv_omega
          unfold mayProvide
          dsimp only
          rw [header, range, compared]
          rfl

/-! ## The choice -/

/-- The better one of a candidate and the best so far. -/
def better (im : Image) : Option Image -> Image
  | none => im
  | some best => if im.abiMinor > best.abiMinor then im else best

/-- One candidate against the best so far. -/
theorem considerProvider_cases (id : List Byte) (major : Word) (lib : File) (chosen : Option Image) :
    (considerProvider id major chosen lib = chosen ∧ ∀ im, ¬ Provides lib id major im) ∨
      ∃ im, Provides lib id major im ∧ considerProvider id major chosen lib = some (better im chosen) := by
  unfold considerProvider
  cases passes : mayProvide lib id major with
  | false =>
    refine Or.inl ⟨rfl, fun im provides => ?_⟩
    rw [mayProvide_of_provides provides] at passes
    cases passes
  | true =>
    rw [Bool.not_true, if_neg Bool.false_ne_true]
    cases parsed : parse lib with
    | error failure =>
      refine Or.inl ⟨rfl, fun im provides => ?_⟩
      rw [provides.1] at parsed
      cases parsed
    | ok candidate =>
      dsimp only
      by_cases other : candidate.version ≠ 3 ∨ candidate.type ≠ typeWal ∨ candidate.abiMajor ≠ major ∨
          str candidate candidate.imageId ≠ some id
      · rw [if_pos other]
        refine Or.inl ⟨rfl, fun im provides => ?_⟩
        obtain ⟨accepted, rest⟩ := provides
        cases accepted.symm.trans parsed
        rcases other with no | no | no | no
        · exact no rest.1
        · exact no rest.2.1
        · exact no rest.2.2.1
        · exact no rest.2.2.2
      · rw [if_neg other]
        rw [not_or, not_or, not_or, not_not, not_not, not_not, not_not] at other
        refine Or.inr ⟨candidate, ⟨parsed, other⟩, ?_⟩
        cases chosen with
        | none => rfl
        | some best =>
          dsimp only [better]
          split <;> rfl

/-- The first of the providers with the largest minor version. -/
def IsProvider (libs : List File) (id : List Byte) (major : Word) (im : Image) : Prop :=
  ∃ c lib, libs[c]? = some lib ∧ Provides lib id major im ∧ ∀ (c' : Nat) lib' im', libs[c']? = some lib' ->
    Provides lib' id major im' -> im'.abiMinor ≤ im.abiMinor ∧ (c' < c -> im'.abiMinor < im.abiMinor)

theorem getElem?_append_single {α : Type} {first : List α} {last a : α} {c : Nat} (found : (first ++ [last])[c]? = some a) :
    first[c]? = some a ∨ c = first.length ∧ a = last := by
  rcases Nat.lt_trichotomy c first.length with before | here | behind
  · rw [List.getElem?_append_left before] at found
    exact Or.inl found
  · rw [here, List.getElem?_concat_length] at found
    cases found
    exact Or.inr ⟨here, rfl⟩
  · rw [List.getElem?_eq_none (by rw [List.length_append, List.length_singleton]; omega)] at found
    cases found

/-- The choice is the first of the best providers, if there are any. -/
theorem chooseProvider_cases (libs : List File) (id : List Byte) (major : Word) :
    (chooseProvider libs id major = none ∧ ∀ lib ∈ libs, ∀ im, ¬ Provides lib id major im) ∨
      ∃ im, chooseProvider libs id major = some im ∧ IsProvider libs id major im := by
  induction libs using List.reverseRecOn with
  | nil => exact Or.inl ⟨rfl, fun _ member => absurd member List.not_mem_nil⟩
  | append_singleton libs lib ih =>
    have unfolded : chooseProvider (libs ++ [lib]) id major = considerProvider id major (chooseProvider libs id major) lib := by
      unfold chooseProvider
      rw [List.foldl_append]
      rfl
    rw [unfolded]
    rcases considerProvider_cases id major lib (chooseProvider libs id major) with ⟨same, none⟩ | ⟨im, provides, next⟩
    · rw [same]
      rcases ih with ⟨empty, before⟩ | ⟨best, found, c, first, here, provides, greatest⟩
      · refine Or.inl ⟨empty, fun other member im => ?_⟩
        rcases List.mem_append.mp member with old | new
        · exact before other old im
        · rw [List.mem_singleton.mp new]
          exact none im
      · have bound := (List.getElem?_eq_some_iff.mp here).1
        refine Or.inr ⟨best, found, c, first, (List.getElem?_append_left bound).trans here, provides,
          fun c' lib' im' there provides' => ?_⟩
        rcases getElem?_append_single there with old | ⟨_, rfl⟩
        · exact greatest c' lib' im' old provides'
        · exact absurd provides' (none im')
    · rw [next]
      refine Or.inr ⟨_, rfl, ?_⟩
      rcases ih with ⟨empty, before⟩ | ⟨best, found, c, first, here, provided, greatest⟩
      · rw [empty]
        refine ⟨libs.length, lib, List.getElem?_concat_length, provides, fun c' lib' im' there provides' => ?_⟩
        rcases getElem?_append_single there with old | ⟨rfl, rfl⟩
        · exact absurd provides' (before lib' (List.mem_of_getElem? old) im')
        · cases provides.1.symm.trans provides'.1
          exact ⟨BitVec.le_refl _, fun less => absurd less (Nat.lt_irrefl _)⟩
      · rw [found]
        dsimp only [better]
        have bound := (List.getElem?_eq_some_iff.mp here).1
        by_cases larger : im.abiMinor > best.abiMinor
        · rw [if_pos larger]
          refine ⟨libs.length, lib, List.getElem?_concat_length, provides, fun c' lib' im' there provides' => ?_⟩
          rcases getElem?_append_single there with old | ⟨rfl, rfl⟩
          · have le := (greatest c' lib' im' old provides').1
            have less : im'.abiMinor < im.abiMinor := Nat.lt_of_le_of_lt le larger
            exact ⟨BitVec.le_of_lt less, fun _ => less⟩
          · cases provides.1.symm.trans provides'.1
            exact ⟨BitVec.le_refl _, fun less => absurd less (Nat.lt_irrefl _)⟩
        · rw [if_neg larger]
          refine ⟨c, first, (List.getElem?_append_left bound).trans here, provided, fun c' lib' im' there provides' => ?_⟩
          rcases getElem?_append_single there with old | ⟨rfl, rfl⟩
          · exact greatest c' lib' im' old provides'
          · cases provides.1.symm.trans provides'.1
            exact ⟨BitVec.not_lt.mp larger, fun less => absurd less (Nat.not_lt_of_lt bound)⟩

end Src32.Wax
