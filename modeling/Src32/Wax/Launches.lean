import Src32.Wax.Rebase
import Src32.Wax.Symbols

namespace Src32.Wax

open Fallible PostOrder

/-!
# What a plan loads

A plan that succeeds loads the executable and the libraries it needs, each once
and in an order that puts every image behind its dependencies.  A library that is
needed is the provider of the name and the major version that ask for it.
-/

/-- The images that an executable needs: itself, and the providers of the
dependencies of what it needs. -/
inductive Needed (libs : List File) (exe : Image) : Image -> Prop where
  | self : Needed libs exe exe
  | provider {im pr : Image} {d : Word} (needed : Needed libs exe im) (inside : d < im.depCount)
      (chosen : IsProvider libs (wanted im d) (wantedMajor im d) pr) : Needed libs exe pr

/-- The dependencies of an image of a launch. -/
def depsOf (images : List Image) (j : Nat) : List Nat := (images[j]?.map Image.depImage).getD []

/-- The images of a launch and the order they are placed in. -/
structure Closed (libs : List File) (exe : Image) (images : List Image) (order : List Nat) : Prop where
  executable : ∃ im, images[0]? = some im ∧ Dressed exe im
  needed : ∀ im ∈ images, ∃ parsed, Needed libs exe parsed ∧ Dressed parsed im
  loaded : ∀ parsed, Needed libs exe parsed -> ∃ im ∈ images, Dressed parsed im
  single : ∀ (j k : Nat) one two, 1 ≤ j -> 1 ≤ k -> images[j]? = some one -> images[k]? = some two ->
    str one one.imageId = str two two.imageId -> j = k
  met : ∀ (i : Nat) im, images[i]? = some im -> im.depImage.length = im.depCount.toNat ∧
    ∀ (d j : Nat), im.depImage[d]? = some j -> ∃ pr parsed, images[j]? = some pr ∧
      Meets im pr (BitVec.ofNat 32 d) ∧ Dressed parsed pr ∧
      IsProvider libs (wanted im (BitVec.ofNat 32 d)) (wantedMajor im (BitVec.ofNat 32 d)) parsed
  listed : ∀ j, j ∈ order ↔ j < images.length
  once : order.Nodup
  sorted : Sorted (depsOf images) order
  acyclic : ∀ j, ¬ Relation.TransGen (fun i j => j ∈ depsOf images i) j j
  imports : ∀ (i : Nat) im, images[i]? = some im -> ∀ k ∈ indices im.importCount,
    ∃ j pr m, im.depImage[(im.word (importAt im k)).toNat]? = some j ∧ images[j]? = some pr ∧ Bound im pr k m

variable {libs : List File} {target : Target} {exe im pr : Image} {r : Resolver}

/-! ## Providers -/

/-- A name and a major version have one provider. -/
theorem IsProvider.unique {id : List Byte} {major : Word} (first : IsProvider libs id major im)
    (second : IsProvider libs id major pr) : im = pr := by
  obtain ⟨c, lib, here, provides, best⟩ := first
  obtain ⟨c', lib', there, provides', best'⟩ := second
  have up := best c' lib' pr there provides'
  have down := best' c lib im here provides
  have minors : im.abiMinor.toNat = pr.abiMinor.toNat := Nat.le_antisymm down.1 up.1
  rcases Nat.lt_trichotomy c c' with less | same | less
  · have strict : im.abiMinor.toNat < pr.abiMinor.toNat := down.2 less
    omega
  · rw [same] at here
    cases here.symm.trans there
    cases provides.1.symm.trans provides'.1
    rfl
  · have strict : pr.abiMinor.toNat < im.abiMinor.toNat := up.2 less
    omega

/-- A library that meets a dependency is the provider of what it asks for. -/
theorem Good.provider (good : Good libs r) {i j : Nat} {d : Word} (suits : Suits r i j d) :
    ∃ parsed, IsProvider libs (wanted (r.image i) d) (wantedMajor (r.image i) d) parsed ∧ Chosen parsed (r.image j) := by
  obtain ⟨name, major, parsed, provider, chosen⟩ := good.provided j suits.library suits.inside
  have names : str parsed parsed.imageId = some name ∧ parsed.abiMajor = major := by
    obtain ⟨_, _, _, provides, _⟩ := provider
    exact ⟨provides.2.2.2.2, provides.2.2.2.1⟩
  have met := suits.met
  have same : str parsed parsed.imageId = some (wanted (r.image i) d) ∧ parsed.abiMajor = wantedMajor (r.image i) d := by
    obtain ⟨_, image⟩ := chosen
    rw [image] at met
    exact ⟨met.named, met.major⟩
  have asked : name = wanted (r.image i) d := Option.some.inj (names.1.symm.trans same.1)
  rw [asked, names.2.symm.trans same.2] at provider
  exact ⟨parsed, provider, chosen⟩

/-! ## Resolved images -/

/-- A resolver whose images are all done and reached from the executable. -/
structure Finished (libs : List File) (exe : Image) (r : Resolver) : Prop where
  good : Good libs r
  nonempty : 0 < r.images.length
  finished : ∀ j, j < r.images.length -> r.color j = 2
  executable : Chosen exe (r.image 0)
  reached : ∀ j, j < r.images.length -> Relation.ReflTransGen (Edge r) 0 j

theorem finished_of_resolve (empty : exe.depImage = [])
    (ran : resolve libs target waxMaxImages 0 ⟨[exe], fun _ => 0, []⟩ = .ok r) : Finished libs exe r := by
  obtain ⟨good, first, grown⟩ := resolve_resolves waxMaxImages ran (good_start exe) Nat.one_pos empty
  have start : 1 ≤ r.images.length := grown.grows
  refine ⟨good, start, fun j inside => ?_, grown.chosen, fun j inside => ?_⟩
  · by_cases zero : j = 0
    · rw [zero, first]
    · exact (grown.fresh j (Nat.one_le_iff_ne_zero.mpr zero) inside).1
  · by_cases zero : j = 0
    · cases zero
      exact Relation.ReflTransGen.refl
    · exact (grown.fresh j (Nat.one_le_iff_ne_zero.mpr zero) inside).2

variable {i j : Nat}

theorem Finished.suits (finished : Finished libs exe r) (inside : i < r.images.length) {d : Nat}
    (found : (r.image i).depImage[d]? = some j) : Suits r i j (BitVec.ofNat 32 d) :=
  (finished.good.linked i inside (finished.finished i inside)).suits d j found

theorem Finished.length (finished : Finished libs exe r) (inside : i < r.images.length) :
    (r.image i).depImage.length = (r.image i).depCount.toNat :=
  (finished.good.linked i inside (finished.finished i inside)).length

variable {final : List Image} {parsed : Image}

/-- What an image chose does not change what it asks for. -/
theorem Chosen.asks {im : Image} (chosen : Chosen parsed im) : im.depCount = parsed.depCount ∧
    (∀ d, wanted im d = wanted parsed d) ∧ ∀ d, wantedMajor im d = wantedMajor parsed d := by
  obtain ⟨_, rfl⟩ := chosen
  exact ⟨rfl, fun _ => rfl, fun _ => rfl⟩

/-- Every image that was reached is needed. -/
theorem Finished.needed (finished : Finished libs exe r) (inside : j < r.images.length) :
    ∃ parsed, Needed libs exe parsed ∧ Chosen parsed (r.image j) := by
  have path := finished.reached j inside
  induction path with
  | refl => exact ⟨exe, Needed.self, finished.executable⟩
  | @tail i k _ edge ih =>
    have before := edge.inside
    obtain ⟨im, needed, chosen⟩ := ih before
    obtain ⟨d, found⟩ := List.mem_iff_getElem?.mp edge
    obtain ⟨parsed, provider, chosenToo⟩ := finished.good.provider (finished.suits before found)
    obtain ⟨count, names, majors⟩ := chosen.asks
    rw [names, majors] at provider
    have bound := (List.getElem?_eq_some_iff.mp found).1
    rw [finished.length before, count] at bound
    refine ⟨parsed, Needed.provider needed ?_ provider, chosenToo⟩
    change (BitVec.ofNat 32 d).toNat < im.depCount.toNat
    rw [BitVec.toNat_ofNat]
    exact Nat.lt_of_le_of_lt (Nat.mod_le _ _) bound

/-- Every image that is needed is there. -/
theorem Finished.loaded (finished : Finished libs exe r) (needed : Needed libs exe parsed) :
    ∃ j, j < r.images.length ∧ Chosen parsed (r.image j) := by
  induction needed with
  | self => exact ⟨0, finished.nonempty, finished.executable⟩
  | @provider im pr d _ inside chosen ih =>
    obtain ⟨i, before, image⟩ := ih
    obtain ⟨count, names, majors⟩ := image.asks
    have bound : d.toNat < (r.image i).depImage.length := by
      rw [finished.length before, count]
      exact inside
    have suits := finished.suits before (List.getElem?_eq_getElem bound)
    obtain ⟨parsed, provider, chosenToo⟩ := finished.good.provider suits
    have index : BitVec.ofNat 32 d.toNat = d := BitVec.ofNat_toNat ..
    rw [index, names, majors] at provider
    rw [chosen.unique provider]
    exact ⟨_, suits.inside, chosenToo⟩

/-- The parser of version 3 accepted the image, if it imports anything. -/
def Importing (im : Image) : Prop := ∃ parsed, (parsed.importCount = 0 ∨ V3Accepted parsed) ∧ Dressed parsed im

theorem Finished.accepted (finished : Finished libs exe r) (executable : Importing exe)
    (inside : j < r.images.length) : Importing (r.image j) := by
  by_cases zero : j = 0
  · obtain ⟨parsed, accepted, dressed⟩ := executable
    rw [zero]
    exact ⟨parsed, accepted, dressed.trans finished.executable.dressed⟩
  · obtain ⟨_, _, parsed, ⟨_, _, _, provides, _⟩, chosen⟩ :=
      finished.good.provided j (Nat.one_le_iff_ne_zero.mpr zero) inside
    refine ⟨parsed, Or.inr ?_, chosen.dressed⟩
    rcases parse_accepted provides.1 with ⟨_, _, two⟩ | ⟨_, _, three⟩
    · have version := provides.2.1
      rw [two.version] at version
      exact absurd version (by decide)
    · exact three

theorem getElem?_image (inside : j < r.images.length) : r.images[j]? = some (r.image j) := by
  unfold Resolver.image
  rw [List.getD_eq_getElem?_getD, List.getElem?_eq_getElem inside, Option.getD_some]

/-- The imports of an image are bound to its dependencies. -/
theorem Finished.bound (finished : Finished libs exe r) (executable : Importing exe)
    (checked : checkImports r.images = .ok ()) (inside : i < r.images.length) {k : Word}
    (member : k ∈ indices (r.image i).importCount) : ∃ j m,
      (r.image i).depImage[((r.image i).word (importAt (r.image i) k)).toNat]? = some j ∧ j < r.images.length ∧
        Bound (r.image i) (r.image j) k m := by
  obtain ⟨parsed, accepted, dressed⟩ := finished.accepted executable inside
  have fields : (r.image i).importCount = parsed.importCount ∧ (r.image i).depCount = parsed.depCount ∧
      (r.image i).word (importAt (r.image i) k) = parsed.word (importAt parsed k) ∧
      str (r.image i) ((r.image i).word (importAt (r.image i) k + 4)) = str parsed (parsed.word (importAt parsed k + 4)) := by
    obtain ⟨_, _, same⟩ := dressed
    rw [same]
    exact ⟨rfl, rfl, rfl, rfl⟩
  obtain ⟨imports, count, dependency, symbol⟩ := fields
  rw [imports] at member
  rcases accepted with none | accepted
  · rw [none] at member
    cases member
  · obtain ⟨below, c, rest, named⟩ := accepted.import_ok member
    have bound : ((r.image i).word (importAt (r.image i) k)).toNat < (r.image i).depImage.length := by
      rw [finished.length inside, count, dependency]
      exact below
    have here := List.getElem?_eq_getElem bound
    have suits := finished.suits inside here
    obtain ⟨m, exported⟩ := bound_of_checkImport (symbol.trans named)
      (checkImport_of_checkImports checked (getElem?_image inside) (imports.symm ▸ member))
    refine ⟨_, m, here, suits.inside, ?_⟩
    have from_ : provider r.images (r.image i) (importAt (r.image i) k) =
        r.image (r.image i).depImage[((r.image i).word (importAt (r.image i) k)).toNat] := by
      unfold provider
      rw [List.getD_eq_getElem?_getD, List.getD_eq_getElem?_getD, here, Option.getD_some, getElem?_image suits.inside,
        Option.getD_some]
    rw [from_] at exported
    exact exported

/-! ## Placed images -/

/-- The images at other origins. -/
def Moved (images final : List Image) : Prop :=
  final.length = images.length ∧ ∀ (j : Nat) im, images[j]? = some im -> ∃ origin, final[j]? = some (im.at_ origin)

theorem Moved.refl (images : List Image) : Moved images images := ⟨rfl, fun _ im here => ⟨im.origin, here⟩⟩

/-- A placement only moves images. -/
theorem place_moved {delta : Word} {images : List Image} {order : List Nat}
    (placed : place target delta exe images order = .ok final) : Moved images final := by
  unfold place at placed
  split at placed
  · cases placed
  · cases ran : order.foldlM (placeOne target) ⟨images, exeTaken exe delta⟩ with
    | error failure =>
      rw [ran] at placed
      cases placed
    | ok p =>
      rw [ran] at placed
      cases placed
      have kept := foldlM_invariant (motive := fun p : Placing => Moved images p.images) ran (Moved.refl images)
        fun p index next _ moved step => by
          rcases placeOne_cases step with ⟨_, rfl⟩ | ⟨im, slot, _, here, _, rfl⟩
          · exact moved
          · refine ⟨by rw [List.length_set]; exact moved.1, fun j old found => ?_⟩
            obtain ⟨origin, present⟩ := moved.2 j old found
            by_cases same : index = j
            · subst same
              cases here.symm.trans present
              refine ⟨slot, ?_⟩
              rw [List.getElem?_set_self (List.getElem?_eq_some_iff.mp here).1]
              rfl
            · refine ⟨origin, ?_⟩
              rw [List.getElem?_set_ne same]
              exact present
      exact kept

/-- An image of the launch is one of the resolver, moved. -/
theorem Moved.image (moved : Moved r.images final) (here : final[j]? = some im) :
    j < r.images.length ∧ ∃ origin, im = (r.image j).at_ origin := by
  have inside : j < r.images.length := by
    rw [← moved.1]
    exact (List.getElem?_eq_some_iff.mp here).1
  obtain ⟨origin, present⟩ := moved.2 j _ (getElem?_image inside)
  exact ⟨inside, origin, Option.some.inj (here.symm.trans present)⟩

theorem Moved.depsOf (moved : Moved r.images final) (j : Nat) :
    depsOf final j = (r.image j).depImage := by
  unfold Wax.depsOf
  by_cases inside : j < r.images.length
  · obtain ⟨origin, present⟩ := moved.2 j _ (getElem?_image inside)
    rw [present]
    rfl
  · have beyond := Nat.le_of_not_lt inside
    rw [List.getElem?_eq_none (by rw [moved.1]; exact beyond), image_beyond beyond]
    rfl

theorem Chosen.at_ {im : Image} (chosen : Chosen parsed im) (origin : Word) : Dressed parsed (im.at_ origin) := by
  obtain ⟨depImage, rfl⟩ := chosen
  exact ⟨origin, depImage, rfl⟩

/-- The images of a plan are closed under their dependencies. -/
theorem Finished.closed (finished : Finished libs exe r) (executable : Importing exe)
    (checked : checkImports r.images = .ok ()) (moved : Moved r.images final) :
    Closed libs exe final r.order := by
  have good := finished.good
  have listed : ∀ j, j ∈ r.order ↔ j < final.length := by
    intro j
    rw [good.ordered, moved.1]
    exact ⟨fun both => both.1, fun inside => ⟨inside, finished.finished j inside⟩⟩
  have sorted : Sorted (depsOf final) r.order := good.sorted.congr fun j _ => moved.depsOf j
  constructor
  case executable =>
    obtain ⟨origin, present⟩ := moved.2 0 _ (getElem?_image finished.nonempty)
    exact ⟨_, present, finished.executable.at_ origin⟩
  case needed =>
    intro im member
    obtain ⟨j, here⟩ := List.mem_iff_getElem?.mp member
    obtain ⟨inside, origin, rfl⟩ := moved.image here
    obtain ⟨parsed, needed, chosen⟩ := finished.needed inside
    exact ⟨parsed, needed, chosen.at_ origin⟩
  case loaded =>
    intro parsed needed
    obtain ⟨j, inside, chosen⟩ := finished.loaded needed
    obtain ⟨origin, present⟩ := moved.2 j _ (getElem?_image inside)
    exact ⟨_, List.mem_of_getElem? present, chosen.at_ origin⟩
  case single =>
    intro j k one two first second here there same
    obtain ⟨inside, _, rfl⟩ := moved.image here
    obtain ⟨insideToo, _, rfl⟩ := moved.image there
    exact good.single j k first inside second insideToo same
  case met =>
    intro i im here
    obtain ⟨inside, _, rfl⟩ := moved.image here
    refine ⟨finished.length inside, fun d j found => ?_⟩
    have suits := finished.suits inside found
    obtain ⟨parsed, provider, chosen⟩ := good.provider suits
    obtain ⟨origin, present⟩ := moved.2 j _ (getElem?_image suits.inside)
    exact ⟨_, parsed, present, ⟨suits.met.named, suits.met.major, suits.met.minor⟩, chosen.at_ origin, provider⟩
  case listed => exact listed
  case once => exact good.nodup
  case sorted => exact sorted
  case acyclic =>
    intro j cycle
    -- A cycle starts at an image of the launch, and that is in the order.
    have inside : j < r.images.length := by
      obtain ⟨k, edge, _⟩ := Relation.TransGen.head'_iff.mp cycle
      rw [moved.depsOf] at edge
      exact Edge.inside edge
    exact sorted.acyclic good.nodup ((listed j).mpr (by rw [moved.1]; exact inside)) cycle
  case imports =>
    intro i im here k member
    obtain ⟨inside, _, rfl⟩ := moved.image here
    obtain ⟨j, m, dependency, insideToo, bound⟩ := finished.bound executable checked inside member
    obtain ⟨origin, present⟩ := moved.2 j _ (getElem?_image insideToo)
    exact ⟨j, _, m, dependency, present, bound.inside, bound.named, bound.kind, bound.signature, bound.size⟩

/-! ## The plan -/

variable {data : File} {launch : Launch}

/-- The executable of a plan and the origin chosen for it. -/
theorem waxPlan_from (planned : waxPlan data libs target = .ok launch) : ∃ exe origin delta, parse data = .ok exe ∧
    exe.type = typeWax ∧ planFrom libs target (exe.at_ origin) delta = .ok launch := by
  unfold waxPlan at planned
  cases parsed : parse data with
  | error failure =>
    rw [parsed] at planned
    cases planned
  | ok exe =>
    rw [parsed] at planned
    dsimp only at planned
    split_ifs at planned with kind abi
    cases chosen : loadOrigin exe target with
    | none =>
      rw [chosen] at planned
      cases planned
    | some pair =>
      rw [chosen] at planned
      exact ⟨exe, pair.1, pair.2, rfl, not_not.mp kind, planned⟩

/-- Where the executable goes does not change what it needs. -/
theorem Needed.at_ (needed : Needed libs exe parsed) (origin : Word) :
    parsed = exe ∨ Needed libs (exe.at_ origin) parsed := by
  induction needed with
  | self => exact Or.inl rfl
  | provider _ inside chosen ih =>
    rcases ih with rfl | needed
    · exact Or.inr (Needed.provider Needed.self inside chosen)
    · exact Or.inr (Needed.provider needed inside chosen)

theorem Dressed.of_at_ {origin : Word} (dressed : Dressed (exe.at_ origin) im) : Dressed exe im := by
  obtain ⟨place, depImage, rfl⟩ := dressed
  exact ⟨place, depImage, rfl⟩

theorem Closed.of_at_ {origin : Word} {images : List Image} {order : List Nat}
    (closed : Closed libs (exe.at_ origin) images order) : Closed libs exe images order := by
  obtain ⟨first, here, dressed⟩ := closed.executable
  refine ⟨⟨first, here, dressed.of_at_⟩, fun im member => ?_, fun parsed needed => ?_, closed.single, closed.met,
    closed.listed, closed.once, closed.sorted, closed.acyclic, closed.imports⟩
  · obtain ⟨parsed, needed, same⟩ := closed.needed im member
    rcases needed.at_ exe.origin with rfl | needed
    · exact ⟨exe, Needed.self, same.of_at_⟩
    · exact ⟨parsed, needed, same⟩
  · rcases needed.at_ origin with rfl | needed
    · exact ⟨first, List.mem_of_getElem? here, dressed.of_at_⟩
    · exact closed.loaded parsed needed

/-- Planning ends.  When it succeeds, the images are the executable and the
libraries it needs, one for each library ID; each dependency is met by the first
of the best providers, the order of the placement is a post-order of the acyclic
dependency graph, and every import is an export of its provider. -/
theorem waxPlan_closed (data : File) (libs : List File) (target : Target) : Terminates libs target ∧
    ∀ launch, waxPlan data libs target = .ok launch -> ∃ exe origin delta images order, parse data = .ok exe ∧
      place target delta (exe.at_ origin) images order = .ok launch.images ∧ Closed libs exe launch.images order := by
  refine ⟨plan_terminates libs target, fun launch planned => ?_⟩
  obtain ⟨exe, origin, delta, parsed, kind, made⟩ := waxPlan_from planned
  obtain ⟨r, planning, resolved, checked, placed, _⟩ := planFrom_iff.mp made
  have executable : Importing (exe.at_ origin) := by
    refine ⟨exe, ?_, origin, exe.depImage, rfl⟩
    rcases parse_accepted parsed with ⟨_, _, two⟩ | ⟨_, _, three⟩
    · exact Or.inl two.importCount
    · exact Or.inr three
  have empty : (exe.at_ origin).depImage = [] := by
    change exe.depImage = []
    exact parse_depImage parsed
  have finished := finished_of_resolve empty resolved
  exact ⟨exe, origin, delta, r.images, r.order, parsed, placed,
    (finished.closed executable checked (place_moved placed)).of_at_⟩

/-! ## A library with the name of the executable -/

theorem appFile_closed : ∃ launch exe images order, waxPlan appFile [middleFile, leafFile] vmTarget = .ok launch ∧
    parse appFile = .ok exe ∧ images = launch.images ∧ Closed [middleFile, leafFile] exe images order := by
  obtain ⟨launch, planned, _⟩ := appFile_planned
  obtain ⟨exe, _, _, _, order, parsed, _, closed⟩ :=
    (waxPlan_closed appFile [middleFile, leafFile] vmTarget).2 launch planned
  exact ⟨launch, exe, launch.images, order, planned, parsed, rfl, closed⟩

/-- The executable and a library that it needs have the same image ID. -/
theorem appFile_shares_id : ∃ launch exe library, waxPlan appFile [middleFile, leafFile] vmTarget = .ok launch ∧
    launch.images[0]? = some exe ∧ launch.images[2]? = some library ∧
      str exe exe.imageId = some (ascii "a") ∧ str library library.imageId = some (ascii "a") := by
  obtain ⟨launch, planned, ids⟩ := appFile_planned
  have image : ∀ (j : Nat) id, [some (ascii "a"), some (ascii "b"), some (ascii "a")][j]? = some id ->
      ∃ im, launch.images[j]? = some im ∧ str im im.imageId = id := by
    intro j id here
    rw [← ids, List.getElem?_map, Option.map_eq_some_iff] at here
    exact here
  obtain ⟨exe, first, named⟩ := image 0 _ rfl
  obtain ⟨library, third, namedToo⟩ := image 2 _ rfl
  exact ⟨launch, exe, library, planned, first, third, named, namedToo⟩

end Src32.Wax
