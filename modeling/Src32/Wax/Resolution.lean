import Src32.Lib.Fallible
import Src32.Wax.Accepted
import Src32.Wax.Plan

namespace Src32.Wax

open Fallible

/-!
# What dependency resolution leaves behind

A resolver only grows: images keep their place and everything but the chosen
dependencies, every image added is an accepted library, and every image added
is in the placement order when the resolution succeeds.
-/

/-- `im` is the parsed image with an origin and chosen dependencies. -/
def Dressed (parsed im : Image) : Prop :=
  ∃ origin depImage, im = { parsed with origin := origin, depImage := depImage }

theorem Dressed.refl (im : Image) : Dressed im im := ⟨im.origin, im.depImage, rfl⟩

variable {libs : List File} {final r : Resolver} {target : Target} {index : Nat} {second first : Image}

theorem Dressed.trans {third : Image} (one : Dressed first second) (two : Dressed second third) :
    Dressed first third := by
  obtain ⟨origin, depImage, rfl⟩ := one
  obtain ⟨origin, depImage, rfl⟩ := two
  exact ⟨origin, depImage, rfl⟩

/-- `next` is `im` with other dependencies chosen. -/
def Chosen (im next : Image) : Prop := ∃ depImage, next = { im with depImage := depImage }

theorem Chosen.refl (im : Image) : Chosen im im := ⟨im.depImage, rfl⟩

theorem Chosen.trans {third : Image} (one : Chosen first second) (two : Chosen second third) : Chosen first third := by
  obtain ⟨depImage, rfl⟩ := one
  obtain ⟨depImage, rfl⟩ := two
  exact ⟨depImage, rfl⟩

theorem Chosen.dressed {im next : Image} (chosen : Chosen im next) : Dressed im next := by
  obtain ⟨depImage, rfl⟩ := chosen
  exact ⟨im.origin, depImage, rfl⟩

/-- A library that passed the parser, with an origin and chosen dependencies. -/
def IsLibrary (im : Image) : Prop :=
  ∃ parsed, V3Accepted parsed ∧ parsed.type = typeWal ∧ Dressed parsed im

theorem IsLibrary.dressed (library : IsLibrary first) (same : Dressed first second) : IsLibrary second := by
  obtain ⟨parsed, accepted, kind, dressed⟩ := library
  exact ⟨parsed, accepted, kind, dressed.trans same⟩

/-! ## Provider selection -/

theorem considerProvider_library {id : List Byte} {major : Word} {chosen : Option Image} {lib : File}
    (before : ∀ im ∈ chosen, IsLibrary im) : ∀ im ∈ considerProvider id major chosen lib, IsLibrary im := by
  unfold considerProvider
  split
  · exact before
  · cases parsed : parse lib with
    | error failure => exact before
    | ok candidate =>
      dsimp only
      split
      · exact before
      · next valid =>
          rw [not_or, not_or, not_not, not_not] at valid
          have library : IsLibrary candidate := by
            rcases parse_accepted parsed with ⟨_, _, two⟩ | ⟨_, _, three⟩
            · rw [two.version] at valid
              exact absurd valid.1 (by decide)
            · exact ⟨candidate, three, valid.2.1, Dressed.refl candidate⟩
          cases chosen with
          | none =>
            rintro im ⟨⟩
            exact library
          | some best =>
            dsimp only
            split
            · rintro im ⟨⟩
              exact library
            · exact before

theorem chooseProvider_library {id : List Byte} {major : Word} :
    ∀ im ∈ chooseProvider libs id major, IsLibrary im := by
  unfold chooseProvider
  have general : ∀ (libs : List File) (chosen : Option Image), (∀ im ∈ chosen, IsLibrary im) ->
      ∀ im ∈ libs.foldl (considerProvider id major) chosen, IsLibrary im := by
    intro libs
    induction libs with
    | nil => exact fun _ before => before
    | cons lib rest ih => exact fun chosen before => ih _ (considerProvider_library before)
  exact general libs none (fun im member => by cases member)

/-! ## Growth -/

/-- `after` holds what `before` held, and what it added is ordered. -/
structure Extends (before after : Resolver) : Prop where
  grows : before.images.length ≤ after.images.length
  same : ∀ (j : Nat) im, before.images[j]? = some im -> ∃ next, after.images[j]? = some next ∧ Chosen im next
  fresh : ∀ (j : Nat) im, before.images.length ≤ j -> after.images[j]? = some im -> IsLibrary im
  ordered : ∀ j ∈ before.order, j ∈ after.order
  placed : ∀ j, before.images.length ≤ j -> j < after.images.length -> j ∈ after.order

theorem Extends.refl (r : Resolver) : Extends r r where
  grows := Nat.le_refl _
  same := fun j im found => ⟨im, found, Chosen.refl im⟩
  fresh := fun j im beyond found => by
    rw [List.getElem?_eq_none beyond] at found
    cases found
  ordered := fun j member => member
  placed := fun j beyond inside => by omega

theorem Extends.trans {first second third : Resolver} (one : Extends first second)
    (two : Extends second third) : Extends first third where
  grows := Nat.le_trans one.grows two.grows
  same := by
    intro j im found
    obtain ⟨middle, kept, chosen⟩ := one.same j im found
    obtain ⟨last, keptAgain, chosenAgain⟩ := two.same j middle kept
    exact ⟨last, keptAgain, chosen.trans chosenAgain⟩
  fresh := by
    intro j im beyond found
    by_cases old : j < second.images.length
    · obtain ⟨middle, present⟩ : ∃ middle, second.images[j]? = some middle :=
        ⟨_, List.getElem?_eq_getElem old⟩
      have library := one.fresh j middle beyond present
      obtain ⟨last, kept, same⟩ := two.same j middle present
      cases found.symm.trans kept
      exact library.dressed same.dressed
    · exact two.fresh j im (Nat.le_of_not_lt old) found
  ordered := fun j member => two.ordered j (one.ordered j member)
  placed := by
    intro j beyond inside
    by_cases old : j < second.images.length
    · exact two.ordered j (one.placed j beyond old)
    · exact two.placed j (Nat.le_of_not_lt old) inside

theorem extends_setColor (r : Resolver) (index value : Nat) : Extends r (r.setColor index value) :=
  let kept := Extends.refl r
  ⟨kept.grows, kept.same, kept.fresh, kept.ordered, kept.placed⟩

theorem extends_setDep (r : Resolver) (index j : Nat) : Extends r (r.setDep index j) where
  grows := by
    change r.images.length ≤ (r.images.modify _ _).length
    exact Nat.le_of_eq (List.length_modify ..).symm
  same := by
    intro k im found
    change ∃ next, (r.images.modify _ _)[k]? = some next ∧ _
    rw [List.getElem?_modify, found]
    refine ⟨_, rfl, ?_⟩
    dsimp only
    split
    · exact ⟨im.depImage ++ [j], rfl⟩
    · exact Chosen.refl im
  fresh := by
    intro k im beyond found
    change (r.images.modify _ _)[k]? = some im at found
    rw [List.getElem?_eq_none (by rwa [List.length_modify])] at found
    cases found
  ordered := fun k member => member
  placed := by
    intro k beyond inside
    change k < (r.images.modify _ _).length at inside
    rw [List.length_modify] at inside
    omega

theorem extends_finish (r : Resolver) (index : Nat) : Extends r (r.finish index) :=
  let kept := Extends.refl r
  ⟨kept.grows, kept.same, kept.fresh, fun _ member => List.mem_append_left _ member,
    fun j beyond inside => List.mem_append_left _ (kept.placed j beyond inside)⟩

/-- A library is added and then resolved, which puts it in the order. -/
theorem extends_add {resolved : Resolver} {chosen : Image} (library : IsLibrary chosen)
    (rest : Extends (r.add chosen) resolved) (ordered : r.images.length ∈ resolved.order) :
    Extends r resolved where
  grows := by
    have grown := rest.grows
    simp only [Resolver.add, Resolver.setColor, List.length_append, List.length_singleton] at grown
    omega
  same := by
    intro j im found
    refine rest.same j im ?_
    change (r.images ++ [chosen])[j]? = some im
    have inside : j < r.images.length := (List.getElem?_eq_some_iff.mp found).1
    rw [List.getElem?_append_left inside, found]
  fresh := by
    intro j im beyond found
    have length : (r.add chosen).images.length = r.images.length + 1 := by
      simp only [Resolver.add, Resolver.setColor, List.length_append, List.length_singleton]
    by_cases here : j = r.images.length
    · have present : (r.add chosen).images[j]? = some chosen := by
        change (r.images ++ [chosen])[j]? = some chosen
        rw [here, List.getElem?_concat_length]
      obtain ⟨next, kept, same⟩ := rest.same j chosen present
      cases found.symm.trans kept
      exact library.dressed same.dressed
    · exact rest.fresh j im (by omega) found
  ordered := fun j member => rest.ordered j member
  placed := by
    intro j beyond inside
    have length : (r.add chosen).images.length = r.images.length + 1 := by
      simp only [Resolver.add, Resolver.setColor, List.length_append, List.length_singleton]
    by_cases here : j = r.images.length
    · exact here ▸ ordered
    · exact rest.placed j (by omega) inside

/-- The library that a dependency of an image names. -/
def wanted (im : Image) (d : Word) : List Byte := (str im (im.word (im.depTable + 16 * d))).getD []

/-- The major version that a dependency asks for. -/
def wantedMajor (im : Image) (d : Word) : Word := im.word (im.depTable + 16 * d + 4)

/-- The least minor version that a dependency asks for. -/
def wantedMinor (im : Image) (d : Word) : Word := im.word (im.depTable + 16 * d + 8)

/-- How a dependency is met: by a library of the launch, or by one that is added
and resolved. -/
inductive DepStep (libs : List File) (target : Target) (recurse : Nat -> Resolver -> Except Failure Resolver)
    (index : Nat) (r : Resolver) (d : Word) : Resolver -> Prop where
  | known {j : Nat} (found : r.find (wanted (r.image index) d) = some j) (finished : r.color j ≠ 1)
      (major : (r.image j).abiMajor = wantedMajor (r.image index) d)
      (minor : ¬ (r.image j).abiMinor < wantedMinor (r.image index) d) :
      DepStep libs target recurse index r d (r.setDep index j)
  | added {chosen : Image} {resolved : Resolver} (absent : r.find (wanted (r.image index) d) = none)
      (room : r.images.length ≠ waxMaxImages)
      (provider : chooseProvider libs (wanted (r.image index) d) (wantedMajor (r.image index) d) = some chosen)
      (minor : ¬ chosen.abiMinor < wantedMinor (r.image index) d) (abi : abiOk chosen target = true)
      (ran : recurse r.images.length (r.add chosen) = .ok resolved) :
      DepStep libs target recurse index r d (resolved.setDep index r.images.length)

theorem resolveDep_iff {recurse : Nat -> Resolver -> Except Failure Resolver} {d : Word} :
    resolveDep libs target recurse index r d = .ok final ↔ DepStep libs target recurse index r d final := by
  unfold resolveDep
  dsimp only
  constructor
  · intro done
    cases found : r.find ((str (r.image index) ((r.image index).word ((r.image index).depTable + 16 * d))).getD []) with
    | some j =>
      rw [found] at done
      dsimp only at done
      unfold fail at done
      split_ifs at done with pending major minor
      cases done
      exact DepStep.known found pending (not_not.mp major) minor
    | none =>
      rw [found] at done
      dsimp only at done
      unfold fail at done
      split_ifs at done with full
      cases provider : chooseProvider libs
          ((str (r.image index) ((r.image index).word ((r.image index).depTable + 16 * d))).getD [])
          ((r.image index).word ((r.image index).depTable + 16 * d + 4)) with
      | none =>
        rw [provider] at done
        cases done
      | some chosen =>
        rw [provider] at done
        dsimp only at done
        split_ifs at done with minor abi
        cases ran : recurse r.images.length (r.add chosen) with
        | error failure =>
          rw [ran] at done
          cases done
        | ok resolved =>
          rw [ran] at done
          cases done
          rw [Bool.not_eq_true', Bool.not_eq_false] at abi
          exact DepStep.added found full provider minor abi ran
  · intro step
    cases step with
    | known found pending major minor =>
      unfold wanted at found
      unfold wantedMajor at major
      unfold wantedMinor at minor
      rw [found]
      dsimp only
      rw [if_neg pending, if_neg (not_not.mpr major), if_neg minor]
    | added absent room provider minor abi ran =>
      unfold wanted at absent provider
      unfold wantedMajor at provider
      unfold wantedMinor at minor
      rw [absent]
      dsimp only
      rw [if_neg room, provider]
      dsimp only
      rw [if_neg minor, abi, ran]
      rfl

/-- One dependency, when the recursion extends and orders what it resolves. -/
theorem resolveDep_extends {recurse : Nat -> Resolver -> Except Failure Resolver}
    (sound : ∀ i s t, recurse i s = .ok t -> Extends s t ∧ i ∈ t.order) {d : Word}
    (done : resolveDep libs target recurse index r d = .ok final) : Extends r final := by
  cases resolveDep_iff.mp done with
  | known found _ _ _ => exact extends_setDep r index _
  | added _ _ provider _ _ ran =>
    obtain ⟨rest, ordered⟩ := sound _ _ _ ran
    have library := chooseProvider_library _ provider
    exact (extends_add library rest ordered).trans (extends_setDep _ index _)

theorem resolve_iff {fuel : Nat} :
    resolve libs target (fuel + 1) index r = .ok final ↔
      ∃ resolved, (indices (r.image index).depCount).foldlM (resolveDep libs target (resolve libs target fuel) index)
        (r.setColor index 1) = .ok resolved ∧ final = resolved.finish index := by
  unfold resolve
  cases (indices (r.image index).depCount).foldlM (resolveDep libs target (resolve libs target fuel) index)
      (r.setColor index 1) with
  | error failure =>
    constructor
    · intro done
      cases done
    · rintro ⟨_, done, _⟩
      cases done
  | ok resolved =>
    constructor
    · intro done
      cases done
      exact ⟨resolved, rfl, rfl⟩
    · rintro ⟨_, done, rfl⟩
      cases done
      rfl

/-- A resolution that succeeds extends the resolver and orders its image. -/
theorem resolve_extends (fuel : Nat) (done : resolve libs target fuel index r = .ok final) :
    Extends r final ∧ index ∈ final.order := by
  induction fuel generalizing index r final with
  | zero => cases done
  | succ fuel ih =>
    obtain ⟨resolved, loop, rfl⟩ := resolve_iff.mp done
    have kept := foldlM_invariant (motive := Extends r) loop (extends_setColor r index 1)
      (fun state d next _ before step => before.trans (resolveDep_extends (fun _ _ _ => ih) step))
    exact ⟨kept.trans (extends_finish resolved index),
      List.mem_append_right _ List.mem_cons_self⟩

end Src32.Wax
