import Src32.Wax.Resolution

namespace Src32.Wax

open Fallible

/-!
# Planning without origins

Dependencies are resolved and imports are checked without a look at where the
executable goes or at the window it may live in.
-/

/-- The image at another origin. -/
def Image.at_ (im : Image) (origin : Word) : Image := { im with origin := origin }

/-! ## Resolution -/

/-- The executable of a resolver at another origin. -/
def Resolver.reorigin (origin : Word) (r : Resolver) : Resolver :=
  { r with images := r.images.modifyHead fun im => im.at_ origin }

variable {libs : List File} {target : Target} {origin : Word} {r : Resolver}

theorem reorigin_image (r : Resolver) (j : Nat) : ∃ other, (r.reorigin origin).image j = (r.image j).at_ other := by
  obtain ⟨images, color, order⟩ := r
  cases images with
  | nil => exact ⟨(Resolver.image ⟨[], color, order⟩ j).origin, rfl⟩
  | cons exe rest =>
    cases j with
    | zero => exact ⟨origin, rfl⟩
    | succ j => exact ⟨(Resolver.image ⟨exe :: rest, color, order⟩ (j + 1)).origin, rfl⟩

theorem reorigin_length (r : Resolver) : (r.reorigin origin).images.length = r.images.length :=
  List.length_modifyHead

theorem reorigin_find (r : Resolver) (id : List Byte) : (r.reorigin origin).find id = r.find id := by
  unfold Resolver.find
  rw [reorigin_length]
  congr 1
  funext j
  obtain ⟨other, same⟩ := @reorigin_image origin r j
  rw [same]
  rfl

theorem reorigin_setDep (r : Resolver) (some_ : r.images ≠ []) (index j : Nat) :
    (r.setDep index j).reorigin origin = (r.reorigin origin).setDep index j := by
  obtain ⟨images, color, order⟩ := r
  cases images with
  | nil => exact absurd rfl some_
  | cons exe rest => cases index <;> rfl

/-- A library is added behind the executable. -/
theorem reorigin_add (r : Resolver) (some_ : r.images ≠ []) (chosen : Image) :
    (r.add chosen).reorigin origin = (r.reorigin origin).add chosen := by
  obtain ⟨images, color, order⟩ := r
  cases images with
  | nil => exact absurd rfl some_
  | cons exe rest => rfl

theorem setDep_some {r : Resolver} (some_ : r.images ≠ []) (index j : Nat) : (r.setDep index j).images ≠ [] := by
  intro none
  exact some_ (List.modify_eq_nil_iff.mp none)

theorem add_some (r : Resolver) (chosen : Image) : (r.add chosen).images ≠ [] := by
  intro none
  exact List.cons_ne_nil chosen [] (List.append_eq_nil_iff.mp none).2

/-- A dependency is met in the same way. -/
theorem DepStep.reorigin {recurse other : Nat -> Resolver -> Except Failure Resolver}
    (same : ∀ i r next, r.images ≠ [] -> recurse i r = .ok next ->
      other i (r.reorigin origin) = .ok (next.reorigin origin) ∧ next.images ≠ [])
    {moved : Target} (abis : ∀ im, abiOk im moved = abiOk im target) {index : Nat} {d : Word} {next : Resolver}
    (some_ : r.images ≠ []) (step : DepStep libs target recurse index r d next) :
    DepStep libs moved other index (r.reorigin origin) d (next.reorigin origin) ∧ next.images ≠ [] := by
  obtain ⟨place, image⟩ := @reorigin_image origin r index
  have names : wanted ((r.reorigin origin).image index) d = wanted (r.image index) d ∧
      wantedMajor ((r.reorigin origin).image index) d = wantedMajor (r.image index) d ∧
      wantedMinor ((r.reorigin origin).image index) d = wantedMinor (r.image index) d := by
    rw [image]
    exact ⟨rfl, rfl, rfl⟩
  cases step with
  | @known j found finished major minor =>
    obtain ⟨placeJ, imageJ⟩ := @reorigin_image origin r j
    rw [reorigin_setDep r some_]
    refine ⟨DepStep.known ?_ finished ?_ ?_, setDep_some some_ index j⟩
    · rw [reorigin_find, names.1, found]
    · rw [imageJ, names.2.1]
      exact major
    · rw [imageJ, names.2.2]
      exact minor
  | @added chosen resolved absent room provider minor abi ran =>
    obtain ⟨ran, kept⟩ := same _ _ _ (add_some r chosen) ran
    have length : (r.reorigin origin).images.length = r.images.length := reorigin_length r
    have again : chooseProvider libs (wanted ((r.reorigin origin).image index) d)
        (wantedMajor ((r.reorigin origin).image index) d) = some chosen := by
      rw [names.1, names.2.1]
      exact provider
    rw [reorigin_setDep resolved kept, ← length]
    refine ⟨DepStep.added ?_ ?_ again ?_ ?_ ?_, ?_⟩
    · rw [reorigin_find, names.1, absent]
    · rw [reorigin_length]
      exact room
    · rw [names.2.2]
      exact minor
    · rw [abis, abi]
    · rw [reorigin_length, ← reorigin_add r some_]
      exact ran
    · exact setDep_some kept index _

/-- A resolution does not look at the origin of the executable, and of the
target at the ABI alone. -/
theorem resolve_reorigin {moved : Target} (abis : ∀ im, abiOk im moved = abiOk im target) (fuel : Nat) (index : Nat)
    {r final : Resolver} (some_ : r.images ≠ []) (done : resolve libs target fuel index r = .ok final) :
    resolve libs moved fuel index (r.reorigin origin) = .ok (final.reorigin origin) ∧ final.images ≠ [] := by
  induction fuel generalizing index r final with
  | zero => cases done
  | succ fuel ih =>
    obtain ⟨resolved, loop, rfl⟩ := resolve_iff.mp done
    obtain ⟨place, image⟩ := @reorigin_image origin r index
    have count : ((r.reorigin origin).image index).depCount = (r.image index).depCount := by
      rw [image]
      rfl
    obtain ⟨other, again, rfl, kept⟩ := foldlM_simulation
      (fun _ state state' => state' = state.reorigin origin ∧ state.images ≠ [])
      (resolveDep libs moved (resolve libs moved fuel) index) [] loop ⟨rfl, some_⟩
      fun _ state state' d next _ relates step => by
        obtain ⟨rfl, before⟩ := relates
        have met := (resolveDep_iff.mp step).reorigin (fun i r next some_ ran => ih i some_ ran) abis before
        exact ⟨_, resolveDep_iff.mpr met.1, rfl, met.2⟩
    refine ⟨resolve_iff.mpr ⟨resolved.reorigin origin, ?_, rfl⟩, kept⟩
    rw [count]
    exact again

/-! ## Imports -/

theorem searchExport_at (im : Image) (origin : Word) (name : List Byte) (fuel : Nat) (low high : Word) :
    searchExport (im.at_ origin) name fuel low high = searchExport im name fuel low high := by
  induction fuel generalizing low high with
  | zero => rfl
  | succ fuel ih =>
    unfold searchExport
    simp only [ih]
    rfl

theorem findExport_at (im : Image) (origin : Word) (name : List Byte) : findExport (im.at_ origin) name = findExport im name :=
  searchExport_at im origin name _ _ _

theorem provider_modifyHead (images : List Image) (im : Image) (e : Word) :
    ∃ other, provider (images.modifyHead fun im => im.at_ origin) im e = (provider images im e).at_ other := by
  unfold provider
  cases images with
  | nil => exact ⟨im.origin, rfl⟩
  | cons exe rest =>
    cases im.depImage.getD (im.word e).toNat 0 with
    | zero => exact ⟨origin, rfl⟩
    | succ j => exact ⟨((exe :: rest).getD (j + 1) im).origin, rfl⟩

theorem provider_at (images : List Image) (im : Image) (place : Word) (e : Word) :
    ∃ other, provider images (im.at_ place) e = (provider images im e).at_ other := by
  unfold provider
  change ∃ other, images.getD (im.depImage.getD (im.word e).toNat 0) (im.at_ place) = _
  generalize im.depImage.getD (im.word e).toNat 0 = j
  rw [List.getD_eq_getElem?_getD, List.getD_eq_getElem?_getD]
  cases images[j]? with
  | none => exact ⟨place, rfl⟩
  | some found => exact ⟨found.origin, rfl⟩

/-- An import is checked against its provider, wherever both are. -/
theorem checkImport_at {images moved : List Image} {i : Nat} {im : Image} {place : Word} {k : Word}
    (same : ∀ e, ∃ other, provider moved (im.at_ place) e = (provider images im e).at_ other) :
    checkImport moved i (im.at_ place) k = checkImport images i im k := by
  unfold checkImport
  obtain ⟨other, from_⟩ := same (im.importTable + 24 * k)
  have table : (im.at_ place).importTable = im.importTable := rfl
  simp only [table, from_, findExport_at]
  rfl

theorem checkImport_modifyHead (images : List Image) (origin place : Word) (i : Nat) (im : Image) (k : Word) :
    checkImport (images.modifyHead fun im => im.at_ origin) i (im.at_ place) k = checkImport images i im k := by
  apply checkImport_at
  intro e
  obtain ⟨first, same⟩ := @provider_modifyHead origin images (im.at_ place) e
  obtain ⟨second, again⟩ := provider_at images im place e
  rw [same, again]
  exact ⟨first, rfl⟩

/-- Imports are checked the same wherever the executable goes. -/
theorem checkImports_modifyHead (images : List Image) (origin : Word) :
    checkImports (images.modifyHead fun im => im.at_ origin) = checkImports images := by
  have rest : ∀ (im : Image) (i : Nat), checkImport (images.modifyHead fun im => im.at_ origin) i im =
      checkImport images i im := by
    intro im i
    funext k
    exact checkImport_modifyHead images origin im.origin i im k
  unfold checkImports
  simp only [rest]
  cases images with
  | nil => rfl
  | cons exe others =>
    have first : checkImport (exe :: others) 0 (exe.at_ origin) = checkImport (exe :: others) 0 exe := by
      funext k
      rw [← checkImport_modifyHead (exe :: others) origin origin 0 exe k, rest]
    rw [List.modifyHead_cons, List.zipIdx_cons, List.zipIdx_cons]
    have split : ∀ im : Image, (((im, 0) :: others.zipIdx (0 + 1)).forM fun x : Image × Nat =>
        (indices x.1.importCount).forM (checkImport (exe :: others) x.2 x.1)) =
        ((indices im.importCount).forM (checkImport (exe :: others) 0 im) >>= fun _ =>
          (others.zipIdx (0 + 1)).forM fun x : Image × Nat =>
            (indices x.1.importCount).forM (checkImport (exe :: others) x.2 x.1)) := fun _ => rfl
    rw [split, split, first]
    rfl

end Src32.Wax
