import Src32.Wax.Termination

namespace Src32.Wax

open Fallible

/-!
# Imported symbols

The search for an export only returns an entry of the table with the name it
looks for, so an import that passes the check is bound to an export of the image
that its dependency was met by.
-/

variable {im pr : Image} {name : List Byte}

/-- The entry of an import. -/
def importAt (im : Image) (k : Word) : Word := im.importTable + 24 * k

/-- The entry of an export. -/
def exportAt (im : Image) (m : Word) : Word := im.exportTable + 24 * m

/-- Import `k` of an image is export `m` of its provider: the names and the kinds
agree, and so do the signatures of functions and the sizes of objects. -/
structure Bound (im pr : Image) (k m : Word) : Prop where
  inside : m < pr.exportCount
  named : ∃ name, str im (im.word (importAt im k + 4)) = some name ∧ str pr (pr.word (exportAt pr m)) = some name
  kind : pr.word (exportAt pr m + 4) = im.word (importAt im k + 8)
  signature : im.word (importAt im k + 8) = kindFunction ->
    str im (im.word (importAt im k + 20)) = str pr (pr.word (exportAt pr m + 16))
  size : im.word (importAt im k + 8) ≠ kindFunction -> im.word (importAt im k + 16) = pr.word (exportAt pr m + 12)

/-- An entry that the search finds lies between its indices. -/
theorem searchExport_found {fuel : Nat} {low high : Word} (found : searchExport im name fuel low high ≠ 0) :
    ∃ m, m < high ∧ searchExport im name fuel low high = exportAt im m ∧
      (str im (im.word (exportAt im m))).getD [] = name := by
  induction fuel generalizing low high with
  | zero => exact absurd rfl found
  | succ fuel ih =>
    unfold searchExport at found ⊢
    by_cases less : low < high
    · have ends : ¬ (!(decide (low < high))) = true := by
        rw [decide_eq_true less]
        decide
      rw [if_neg ends] at found ⊢
      dsimp only at found ⊢
      have middle := middle_toNat less
      have order : low.toNat < high.toNat := less
      have inside : low + (high - low) / 2 < high := by
        change (low + (high - low) / 2).toNat < high.toNat
        omega
      split at found
      · next same =>
          rw [if_pos same]
          exact ⟨_, inside, rfl, same.symm⟩
      · next different =>
          rw [if_neg different]
          split at found
          · next before =>
              rw [if_pos before]
              obtain ⟨m, below, rest⟩ := ih found
              exact ⟨m, BitVec.lt_trans below inside, rest⟩
          · next after =>
              rw [if_neg after]
              exact ih found
    · rw [decide_eq_false less] at found
      exact absurd rfl found

theorem isSymbol_cons {choice : Option (List Byte)} (symbol : isSymbol choice = true) : ∃ c rest, choice = some (c :: rest) := by
  cases choice with
  | none => cases symbol
  | some s =>
    cases s with
    | nil => cases symbol
    | cons c rest => exact ⟨c, rest, rfl⟩

theorem v3ImportsFrom_ok (rows : List Word) {first : Bool} {slotEnd used final : Word}
    (done : v3ImportsFrom im first slotEnd used rows = some final) : ∀ k ∈ rows, v3ImportOk im (importAt im k) = true := by
  induction rows generalizing first slotEnd used with
  | nil =>
    intro k member
    cases member
  | cons row rest ih =>
    unfold v3ImportsFrom at done
    dsimp only at done
    split_ifs at done with fine
    simp only [Bool.and_eq_true] at fine
    intro k member
    rcases List.mem_cons.mp member with rfl | later
    · exact fine.1.1.1.1
    · exact ih done k later

/-- An accepted import has a dependency and a name. -/
theorem V3Accepted.import_ok (accepted : V3Accepted im) {k : Word} (member : k ∈ indices im.importCount) :
    im.word (importAt im k) < im.depCount ∧ ∃ c rest, str im (im.word (importAt im k + 4)) = some (c :: rest) := by
  have imports := accepted.imports
  unfold v3ImportsOk at imports
  rw [decide_eq_true_iff] at imports
  have fine := v3ImportsFrom_ok _ imports k member
  unfold v3ImportOk at fine
  simp only [Bool.and_eq_true, decide_eq_true_iff] at fine
  exact ⟨fine.1.1, isSymbol_cons fine.1.2⟩

theorem checkImport_eq (images : List Image) (i : Nat) (im : Image) (k : Word) : checkImport images i im k =
    let pr := provider images im (importAt im k)
    let name := (str im (im.word (importAt im k + 4))).getD []
    let x := findExport pr name
    if x = 0 then fail .symbolMissing i k (some name)
    else if pr.word (x + 4) ≠ im.word (importAt im k + 8) ∨
        (if im.word (importAt im k + 8) = kindFunction then str im (im.word (importAt im k + 20)) ≠ str pr (pr.word (x + 16))
          else im.word (importAt im k + 16) ≠ pr.word (x + 12)) then
      fail .symbolMismatch i k (some name)
    else .ok () := rfl

/-- An import that passes its check is bound. -/
theorem bound_of_checkImport {images : List Image} {i : Nat} {k : Word} {c : Byte} {rest : List Byte}
    (named : str im (im.word (importAt im k + 4)) = some (c :: rest)) (checked : checkImport images i im k = .ok ()) :
    ∃ m, Bound im (provider images im (importAt im k)) k m := by
  rw [checkImport_eq, named] at checked
  generalize provider images im (importAt im k) = pr at checked ⊢
  dsimp only [Option.getD_some] at checked
  generalize looked : findExport pr (c :: rest) = x at checked
  by_cases missing : x = 0
  · rw [if_pos missing] at checked
    cases checked
  · rw [if_neg missing] at checked
    rw [← looked] at missing
    obtain ⟨m, inside, found, same⟩ := searchExport_found missing
    have entry : x = exportAt pr m := looked.symm.trans found
    rw [entry] at checked
    have names : ∃ name, str im (im.word (importAt im k + 4)) = some name ∧
        str pr (pr.word (exportAt pr m)) = some name := by
      refine ⟨c :: rest, named, ?_⟩
      -- The name is not empty, so the export has one.
      cases exported : str pr (pr.word (exportAt pr m)) with
      | none =>
        rw [exported, Option.getD_none] at same
        exact absurd same.symm (List.cons_ne_nil c rest)
      | some name =>
        rw [exported, Option.getD_some] at same
        rw [same]
    by_cases mismatch : pr.word (exportAt pr m + 4) ≠ im.word (importAt im k + 8) ∨
        (if im.word (importAt im k + 8) = kindFunction then
          str im (im.word (importAt im k + 20)) ≠ str pr (pr.word (exportAt pr m + 16))
        else im.word (importAt im k + 16) ≠ pr.word (exportAt pr m + 12))
    · rw [if_pos mismatch] at checked
      cases checked
    · rw [not_or, not_not] at mismatch
      refine ⟨m, inside, names, mismatch.1, fun function => ?_, fun object => ?_⟩
      · have matching := mismatch.2
        rw [if_pos function] at matching
        exact not_not.mp matching
      · have matching := mismatch.2
        rw [if_neg object] at matching
        exact not_not.mp matching

/-- Every import is checked. -/
theorem checkImport_of_checkImports {images : List Image} (checked : checkImports images = .ok ()) {i : Nat}
    (here : images[i]? = some im) {k : Word} (member : k ∈ indices im.importCount) : checkImport images i im k = .ok () := by
  unfold checkImports at checked
  have rows := forM_ok checked (im, i) (List.mem_zipIdx_iff_getElem?.mpr here)
  exact forM_ok rows k member

end Src32.Wax
