import Src32.Kernel.AddressSpace

namespace Src32.Kernel.Vm

open Function (update update_self update_of_ne)
open Page (down)

/-!
# Mapping pages

What `mm_vm_map` does page by page.  A page needs a frame when it has none, when
its frame is shared and is to be written, and one more when its table is
missing.  With enough frames every page gets mapped and no byte the process had
changes; without, the frames run out.
-/

variable {s t u : Vm} {va page pa : Word} {pte : Pte} {f : Nat}

/-! ## Sound address spaces -/

/-- The pool counts its frames, no entry names a free frame, an owned frame is
one of the pool and in one page only, and copy-on-write pages are owned RAM of
the user. -/
structure Sound (s : Vm) : Prop where
  pool : s.pool.Counted
  aligned : ∀ va pte, s.entry va = some pte -> pte.frame.toNat % 4096 = 0
  taken : ∀ va pte, s.entry va = some pte -> ∀ f < s.pool.frames, s.pool.refs f = 0 -> pte.frame ≠ frameAddr f
  inPool : ∀ va pte, s.entry va = some pte -> pte.owned = true -> ∃ f < s.pool.frames, pte.frame = frameAddr f
  apart : ∀ va vb first second, s.entry va = some first -> s.entry vb = some second -> first.owned = true ->
    second.owned = true -> first.frame = second.frame -> down va = down vb
  eligible : ∀ va pte, s.entry va = some pte -> pte.cow = true -> eligible pte = true

theorem eligible_iff (pte : Pte) :
    Vm.eligible pte = true ↔ pte.user = true ∧ pte.owned = true ∧ pte.cow = true ∧ pte.dev = false := by
  unfold Vm.eligible
  rw [Bool.and_eq_true, Bool.and_eq_true, Bool.and_eq_true, Bool.not_eq_true', and_assoc, and_assoc]

theorem Sound.owned (sound : s.Sound) (found : s.entry va = some pte) (shares : pte.cow = true) : pte.owned = true :=
  ((eligible_iff pte).mp (sound.eligible va pte found shares)).2.1

/-- The same entries over the same pool. -/
theorem Sound.congr (sound : s.Sound) (counted : t.pool.Counted) (frames : t.pool.frames = s.pool.frames)
    (free : ∀ f, t.pool.refs f = 0 -> s.pool.refs f = 0) (entries : ∀ va, t.entry va = s.entry va) : t.Sound := by
  refine ⟨counted, ?_, ?_, ?_, ?_, ?_⟩
  · intro va pte found
    exact sound.aligned va pte ((entries va).symm.trans found)
  · intro va pte found f inside zero
    exact sound.taken va pte ((entries va).symm.trans found) f (frames ▸ inside) (free f zero)
  · intro va pte found
    rw [frames]
    exact sound.inPool va pte ((entries va).symm.trans found)
  · intro va vb first second one two
    exact sound.apart va vb first second ((entries va).symm.trans one) ((entries vb).symm.trans two)
  · intro va pte found
    exact sound.eligible va pte ((entries va).symm.trans found)

/-- A page gets another entry. -/
theorem Sound.setEntry (sound : s.Sound) (present : (s.root (slot page)).isSome = true)
    (aligned : pte.frame.toNat % 4096 = 0)
    (taken : ∀ f < s.pool.frames, s.pool.refs f = 0 -> pte.frame ≠ frameAddr f)
    (inPool : pte.owned = true -> ∃ f < s.pool.frames, pte.frame = frameAddr f)
    (apart : pte.owned = true -> ∀ va other, down va ≠ down page -> s.entry va = some other ->
      other.owned = true -> other.frame ≠ pte.frame)
    (eligible : pte.cow = true -> Vm.eligible pte = true) : (s.setEntry page pte).Sound := by
  have read := entry_setEntry present pte
  refine ⟨sound.pool, ?_, ?_, ?_, ?_, ?_⟩
  · intro va found here
    rw [read va] at here
    split_ifs at here
    · cases here
      exact aligned
    · exact sound.aligned va found here
  · intro va found here
    rw [read va] at here
    split_ifs at here
    · cases here
      exact taken
    · exact sound.taken va found here
  · intro va found here
    rw [read va] at here
    split_ifs at here
    · cases here
      exact inPool
    · exact sound.inPool va found here
  · intro va vb first second one two ownedOne ownedTwo same
    rw [read va] at one
    rw [read vb] at two
    split_ifs at one two with here there there
    · exact here.trans there.symm
    · cases one
      exact absurd same.symm (apart ownedOne vb second there two ownedTwo)
    · cases two
      exact absurd same (apart ownedTwo va first here one ownedOne)
    · exact sound.apart va vb first second one two ownedOne ownedTwo same
  · intro va found here
    rw [read va] at here
    split_ifs at here
    · cases here
      exact eligible
    · exact sound.eligible va found here

/-! ## A frame from the pool -/

/-- The frame is in `[pa, pa + 4096)`. -/
def InFrame (pa a : Word) : Prop := pa.toNat ≤ a.toNat ∧ a.toNat < pa.toNat + 4096

/-- The process before and after it was given frame `f` at `pa`, which no entry
names yet. -/
structure Allocated (s t : Vm) (pa : Word) (f : Nat) : Prop where
  inside : f < s.pool.frames
  address : pa = frameAddr f
  unmapped : ∀ va pte, s.entry va = some pte -> pte.frame ≠ pa
  root : t.root = s.root
  proc : t.proc = s.proc
  counted : t.pool.Counted
  free : t.pool.free + 1 = s.pool.free
  frames : t.pool.frames = s.pool.frames
  wasFree : s.pool.refs f = 0
  refs : t.pool.refs = update s.pool.refs f 1
  clear : ∀ a, InFrame pa a -> t.mem a = 0
  rest : ∀ a, ¬ InFrame pa a -> t.mem a = s.mem a

theorem frameAlloc_some (sound : s.Sound) (done : s.frameAlloc = some (pa, t)) : ∃ f, Allocated s t pa f := by
  unfold Vm.frameAlloc at done
  cases taken : s.pool.frameAlloc with
  | none =>
    rw [taken] at done
    cases done
  | some pair =>
    obtain ⟨f, pool⟩ := pair
    rw [taken] at done
    cases done
    obtain ⟨inside, zero, counted, free, frames, refs⟩ := Pool.frameAlloc_some sound.pool taken
    have wide := sound.pool.wide
    have small : f ≤ maxFrames := by omega
    have start := frameAddr_toNat small
    have stop : (frameAddr f + mmPage).toNat = (frameAddr f).toNat + 4096 := by
      unfold maxFrames at small
      rw [BitVec.toNat_add, start, show mmPage.toNat = 4096 from rfl]
      omega
    have cleared := kmemZero_apply (show (frameAddr f).toNat ≤ (frameAddr f + mmPage).toNat by omega)
      (by rw [stop]; omega) s.mem
    refine ⟨f, inside, rfl, fun va pte found => sound.taken va pte found f inside zero, rfl, rfl, counted, free,
      frames, zero, refs, ?_, ?_⟩
    · intro a within
      dsimp only
      rw [cleared a, if_pos ⟨within.1, by rw [stop]; exact within.2⟩]
    · intro a without
      dsimp only
      rw [cleared a, if_neg fun both => without ⟨both.1, by rw [← stop]; exact both.2⟩]

theorem frameAlloc_none (sound : s.Sound) : s.frameAlloc = none ↔ s.pool.free = 0 := by
  rw [← Pool.frameAlloc_none sound.pool]
  unfold Vm.frameAlloc
  cases s.pool.frameAlloc with
  | none => exact ⟨fun _ => rfl, fun _ => rfl⟩
  | some pair =>
    constructor
    · intro taken
      cases taken
    · intro taken
      cases taken

theorem frameAlloc_of_free (sound : s.Sound) (some_ : s.pool.free ≠ 0) :
    ∃ pa t f, s.frameAlloc = some (pa, t) ∧ Allocated s t pa f := by
  cases taken : s.frameAlloc with
  | none => exact absurd ((frameAlloc_none sound).mp taken) some_
  | some pair =>
    obtain ⟨f, allocated⟩ := frameAlloc_some sound taken
    exact ⟨pair.1, pair.2, f, rfl, allocated⟩

namespace Allocated

variable (allocated : Allocated s t pa f)

include allocated

theorem entry_eq (va : Word) : t.entry va = s.entry va := by
  unfold Vm.entry
  rw [allocated.root]

theorem aligned (sound : s.Sound) : pa.toNat % 4096 = 0 := by
  have inside := allocated.inside
  have wide := sound.pool.wide
  rw [allocated.address, frameAddr_toNat (by omega)]
  omega

/-- A frame that is free afterwards was free before. -/
theorem wasZero {g : Nat} (zero : t.pool.refs g = 0) : s.pool.refs g = 0 ∧ g ≠ f := by
  rw [allocated.refs] at zero
  by_cases here : g = f
  · subst here
    rw [update_self] at zero
    exact absurd zero (by decide)
  · rw [update_of_ne here] at zero
    exact ⟨zero, here⟩

theorem sound (sound : s.Sound) : t.Sound :=
  sound.congr allocated.counted allocated.frames (fun _ zero => (allocated.wasZero zero).1) allocated.entry_eq

/-- Mapped bytes lie in other frames. -/
theorem outside (sound : s.Sound) (found : s.entry va = some pte) (vb : Word) : ¬ InFrame pa (pte.physical vb) := by
  intro within
  have multiple := sound.aligned va pte found
  have address := physical_toNat multiple vb
  have page := allocated.aligned sound
  have different := allocated.unmapped va pte found
  obtain ⟨low, high⟩ := within
  exact different (BitVec.eq_of_toNat_eq (by omega))

theorem byteAt_eq (sound : s.Sound) (va : Word) : t.byteAt va = s.byteAt va := by
  unfold byteAt
  rw [allocated.entry_eq va]
  cases found : s.entry va with
  | none => rfl
  | some pte =>
    rw [Option.map_some, Option.map_some, allocated.rest _ (allocated.outside sound found va)]

end Allocated

/-! ## What a page needs -/

/-- The frames a page needs once its table exists: one of its own where it has
none or shares it. -/
def pageFrames (s : Vm) (page : Word) : Nat :=
  match s.entry page with
  | none => 1
  | some pte => if pte.cow && s.shared pte then 1 else 0

/-- Which level-1 entries have a table. -/
def tables (s : Vm) (k : Word) : Bool := (s.root k).isSome

/-- The frames that pages need one behind the other, tables included, when the
level-1 entries in `present` have a table. -/
def framesFor (s : Vm) : (Word -> Bool) -> List Word -> Nat
  | _, [] => 0
  | present, page :: rest =>
    (if present (slot page) then 0 else 1) + s.pageFrames page +
      framesFor s (fun k => present k || k = slot page) rest

/-- The entry of a page that is mapped already and needs no frame. -/
def settled (pte : Pte) : Pte := { pte with user := true, read := true, write := true, cow := false }

/-- The page needs no frame at all. -/
def ready (s : Vm) (page : Word) : Bool := s.tables (slot page) && s.pageFrames page = 0

/-- After mapping `pages` for the heap: the bytes the process had are as before,
new pages are clear, every page is open to the user. -/
structure Mapped (s t : Vm) (pages : List Word) : Prop where
  sound : t.Sound
  proc : ∃ n, t.proc = { s.proc with vmPages := n }
  bytes : ∀ va b, s.byteAt va = some b -> t.byteAt va = some b
  fresh : ∀ va, down va ∈ pages -> s.entry va = none -> t.byteAt va = some 0
  usable : ∀ va, down va ∈ pages -> ∃ pte, t.entry va = some pte ∧ pte.user = true ∧ pte.read = true ∧
    pte.write = true ∧ pte.dev = ((s.entry va).map Pte.dev).getD false
  others : ∀ va, down va ∉ pages -> t.entry va = s.entry va
  refs : ∀ va pte, down va ∉ pages -> s.entry va = some pte -> pte.owned = true ->
    t.pool.refs (firstPage pte.frame) = s.pool.refs (firstPage pte.frame)

theorem Mapped.trans {first second : List Word} (before : Mapped s t first) (after : Mapped t u second)
    (apart : ∀ page ∈ first, page ∉ second) : Mapped s u (first ++ second) := by
  refine ⟨after.sound, ?_, ?_, ?_, ?_, ?_, ?_⟩
  · obtain ⟨n, here⟩ := before.proc
    obtain ⟨m, there⟩ := after.proc
    exact ⟨m, by rw [there, here]⟩
  · intro va b shown
    exact after.bytes va b (before.bytes va b shown)
  · intro va member none_
    by_cases early : down va ∈ first
    · exact after.bytes va 0 (before.fresh va early none_)
    · have late := (List.mem_append.mp member).resolve_left early
      exact after.fresh va late ((before.others va early).trans none_)
  · intro va member
    by_cases early : down va ∈ first
    · obtain ⟨pte, found, rights⟩ := before.usable va early
      exact ⟨pte, (after.others va (apart _ early)).trans found, rights⟩
    · have late := (List.mem_append.mp member).resolve_left early
      rw [← before.others va early]
      exact after.usable va late
  · intro va without
    rw [List.mem_append, not_or] at without
    exact (after.others va without.2).trans (before.others va without.1)
  · intro va pte without found owned
    rw [List.mem_append, not_or] at without
    rw [after.refs va pte without.2 ((before.others va without.1).trans found) owned,
      before.refs va pte without.1 found owned]

theorem Mapped.refl (sound : s.Sound) : Mapped s s [] :=
  ⟨sound, ⟨s.proc.vmPages, rfl⟩, fun _ _ shown => shown, fun _ member => absurd member List.not_mem_nil,
    fun _ member => absurd member List.not_mem_nil, fun _ _ => rfl, fun _ _ _ _ _ => rfl⟩

variable {pages : List Word}

/-- A page outside the mapped ones needs what it needed. -/
theorem Mapped.pageFrames_eq (mapped : Mapped s t pages) (sound : s.Sound) (without : down page ∉ pages) :
    t.pageFrames page = s.pageFrames page := by
  unfold pageFrames
  rw [mapped.others page without]
  cases found : s.entry page with
  | none => rfl
  | some pte =>
    dsimp only
    cases shares : pte.cow with
    | false => rfl
    | true =>
      unfold shared
      rw [mapped.refs page pte without found (sound.owned found shares)]

theorem byteAt_setEntry (present : (s.root (slot page)).isSome = true) (pte : Pte) (va : Word) :
    (s.setEntry page pte).byteAt va =
      if down va = down page then some (s.mem (pte.physical va)) else s.byteAt va := by
  unfold byteAt
  rw [entry_setEntry present pte va]
  split_ifs
  · rfl
  · rfl

/-- A page gets a frame that no entry names, with the bytes the page had or
clear. -/
theorem mapped_install {old : Vm} (soundOld : old.Sound) (sound : s.Sound)
    (present : (s.root (slot page)).isSome = true) (whole : down page = page)
    (proc : ∃ n, s.proc = { old.proc with vmPages := n }) (entries : ∀ va, s.entry va = old.entry va)
    (bytes : ∀ va, s.byteAt va = old.byteAt va) (inside : f < s.pool.frames) (frame : pte.frame = frameAddr f)
    (held : s.pool.refs f ≠ 0) (unmapped : ∀ va other, old.entry va = some other -> other.frame ≠ pte.frame)
    (refs : ∀ va other, down va ≠ page -> old.entry va = some other -> other.owned = true ->
      s.pool.refs (firstPage other.frame) = old.pool.refs (firstPage other.frame))
    (content : ∀ va, down va = page -> s.mem (pte.physical va) = (old.byteAt va).getD 0)
    (rights : pte.user = true ∧ pte.read = true ∧ pte.write = true) (private_ : pte.cow = false)
    (dev : pte.dev = ((old.entry page).map Pte.dev).getD false) : Mapped old (s.setEntry page pte) [page] := by
  have wide := sound.pool.wide
  have small : f ≤ maxFrames := by omega
  refine ⟨sound.setEntry present ?_ ?_ ?_ ?_ ?_, proc, ?_, ?_, ?_, ?_, ?_⟩
  · rw [frame, frameAddr_toNat small]
    omega
  · intro g range zero same
    have address := congrArg firstPage (frame.symm.trans same)
    rw [firstPage_frameAddr small, firstPage_frameAddr (by omega)] at address
    subst address
    exact held zero
  · exact fun _ => ⟨f, inside, frame⟩
  · intro _ va other _ found _
    exact unmapped va other ((entries va).symm.trans found)
  · intro shares
    rw [private_] at shares
    cases shares
  · intro va b shown
    rw [byteAt_setEntry present, whole]
    split_ifs with here
    · rw [content va here, shown]
      rfl
    · rw [bytes va]
      exact shown
  · intro va member none_
    have here := List.mem_singleton.mp member
    have empty : old.byteAt va = none := by
      unfold byteAt
      rw [none_]
      rfl
    rw [byteAt_setEntry present, whole, if_pos here, content va here, empty]
    rfl
  · intro va member
    have here := List.mem_singleton.mp member
    refine ⟨pte, ?_, rights.1, rights.2.1, rights.2.2, ?_⟩
    · rw [entry_setEntry present, whole, if_pos here]
    · rw [entry_congr (here.trans whole.symm)]
      exact dev
  · intro va without
    rw [entry_setEntry present, whole, if_neg fun here => without (List.mem_singleton.mpr here)]
    exact entries va
  · intro va other without found owned
    exact refs va other (fun here => without (List.mem_singleton.mpr here)) found owned

/-- A mapped page that needs no frame keeps its own. -/
theorem mapped_settled (sound : s.Sound) (present : (s.root (slot page)).isSome = true)
    (whole : down page = page) (found : s.entry page = some pte) :
    Mapped s (s.setEntry page (settled pte)) [page] := by
  refine ⟨sound.setEntry present (sound.aligned page pte found) (sound.taken page pte found)
    (sound.inPool page pte found) ?_ ?_, ⟨s.proc.vmPages, rfl⟩, ?_, ?_, ?_, ?_, ?_⟩
  · intro owned va other apart there held same
    exact apart (sound.apart va page other pte there found held owned same)
  · intro shares
    cases shares
  · intro va b shown
    rw [byteAt_setEntry present, whole]
    split_ifs with here
    · have same : s.byteAt va = some (s.mem (pte.physical va)) := by
        unfold byteAt
        rw [entry_congr (here.trans whole.symm), found]
        rfl
      exact same.symm.trans shown
    · exact shown
  · intro va member none_
    rw [entry_congr ((List.mem_singleton.mp member).trans whole.symm), found] at none_
    cases none_
  · intro va member
    have here := List.mem_singleton.mp member
    refine ⟨settled pte, ?_, rfl, rfl, rfl, ?_⟩
    · rw [entry_setEntry present, whole, if_pos here]
    · rw [entry_congr (here.trans whole.symm), found]
      rfl
  · intro va without
    rw [entry_setEntry present, whole, if_neg fun here => without (List.mem_singleton.mpr here)]
  · intro _ _ _ _ _
    rfl

/-! ## One page -/

theorem gain_heapPerm (pte : Pte) : pte.gain heapPerm = { pte with user := true, read := true, write := true } := by
  have reads : decide (heapPerm &&& permR ≠ 0) = true := by decide
  have writes : decide (heapPerm &&& permW ≠ 0) = true := by decide
  have runs : decide (heapPerm &&& permX ≠ 0) = false := by decide
  unfold Pte.gain
  rw [reads, writes, runs, Bool.or_true, Bool.or_true, Bool.or_false]

theorem gain_resolved (pte : Pte) (frame : Word) :
    (pte.resolved frame).gain heapPerm = settled { pte with frame := frame } := by
  rw [gain_heapPerm]
  rfl

theorem entry_setEntry_self (present : (s.root (slot page)).isSome = true) (pte : Pte) :
    (s.setEntry page pte).entry page = some pte := by
  rw [entry_setEntry present, if_pos rfl]

/-- A mapped page that needs no frame gets the permissions. -/
theorem mapEntry_settled (sound : s.Sound) (present : (s.root (slot page)).isSome = true)
    (found : s.entry page = some pte) (enough : s.pageFrames page = 0) :
    s.mapEntry page heapPerm = (.ok (), s.setEntry page (settled pte)) := by
  unfold pageFrames at enough
  rw [found] at enough
  dsimp only at enough
  unfold mapEntry
  rw [found]
  dsimp only
  cases shares : pte.cow with
  | false =>
    rw [if_neg (by decide), gain_heapPerm]
    unfold settled
    congr 2
    rw [← shares]
  | true =>
    rw [shares, Bool.true_and] at enough
    have alone : s.shared pte = false := by
      cases others : s.shared pte with
      | false => rfl
      | true =>
        rw [others] at enough
        cases enough
    have resolves : s.cow page = (.ok (), s.setEntry page (pte.resolved pte.frame)) := by
      unfold Vm.cow
      rw [found]
      dsimp only
      rw [sound.eligible page pte found shares, alone]
      rfl
    rw [if_pos (by decide), resolves]
    dsimp only
    rw [entry_setEntry_self present, Option.getD_some, gain_resolved, setEntry_twice]

/-- The resolution of a shared page: its bytes lie in a frame of its own. -/
structure Copied (s u : Vm) (pte : Pte) (pa : Word) (f : Nat) : Prop where
  sound : u.Sound
  root : u.root = s.root
  proc : u.proc = s.proc
  bytes : ∀ va, u.byteAt va = s.byteAt va
  inside : f < u.pool.frames
  address : pa = frameAddr f
  held : u.pool.refs f ≠ 0
  unmapped : ∀ va other, s.entry va = some other -> other.frame ≠ pa
  free : u.pool.free + 1 = s.pool.free
  refs : ∀ va other, s.entry va = some other -> other.owned = true -> other.frame ≠ pte.frame ->
    u.pool.refs (firstPage other.frame) = s.pool.refs (firstPage other.frame)
  content : ∀ va, u.mem (pa ||| (va &&& mmPageMask)) = s.mem (pte.physical va)

theorem copied_of_allocated (sound : s.Sound) (allocated : Allocated s t pa f) (found : s.entry page = some pte)
    (owned : pte.owned = true) (shares : s.shared pte = true) (root : u.root = t.root) (proc : u.proc = t.proc)
    (mem : u.mem = kmemCopy pa pte.frame mmPage t.mem) (pool : u.pool = t.pool.frameFree pte.frame) :
    Copied s u pte pa f := by
  obtain ⟨g, range, home⟩ := sound.inPool page pte found owned
  have wide := sound.pool.wide
  have inside := allocated.inside
  have smallF : f ≤ maxFrames := by omega
  have smallG : g ≤ maxFrames := by omega
  have many : 1 < (s.pool.refs g).toNat := by
    have counted := of_decide_eq_true shares
    rw [home, firstPage_frameAddr smallG] at counted
    exact counted
  have different : g ≠ f := by
    intro same
    rw [same, allocated.wasFree] at many
    exact absurd many (by decide)
  have kept : t.pool.refs g = s.pool.refs g := by
    rw [allocated.refs, update_of_ne different]
  have freed : t.pool.frameFree pte.frame =
      { t.pool with refs := update t.pool.refs g (t.pool.refs g - 1) } := by
    rw [home]
    exact Pool.frameFree_shared smallG (allocated.frames ▸ range) (kept.symm ▸ many)
  have stillHeld : t.pool.refs g - 1 ≠ 0 := by
    rw [kept]
    intro zero
    have numbers := congrArg BitVec.toNat zero
    have bound := (s.pool.refs g).isLt
    rw [BitVec.toNat_sub] at numbers
    change (2 ^ 8 - 1 + (s.pool.refs g).toNat) % 2 ^ 8 = 0 at numbers
    omega
  have zeros : ∀ h, update t.pool.refs g (t.pool.refs g - 1) h = 0 ↔ t.pool.refs h = 0 := by
    intro h
    by_cases here : h = g
    · subst here
      rw [update_self]
      constructor
      · intro zero
        exact absurd zero stillHeld
      · intro zero
        rw [kept] at zero
        rw [zero] at many
        exact absurd many (by decide)
    · rw [update_of_ne here]
  have startF := frameAddr_toNat smallF
  have startG := frameAddr_toNat smallG
  have page := allocated.aligned sound
  have low : 0x400000 ≤ pa.toNat ∧ pa.toNat + 4096 ≤ 2 ^ 32 := by
    unfold maxFrames at smallF
    rw [allocated.address, startF]
    omega
  have high : pte.frame.toNat + 4096 ≤ 2 ^ 32 := by
    unfold maxFrames at smallG
    rw [home, startG]
    omega
  have apart : pa.toNat + 4096 ≤ pte.frame.toNat ∨ pte.frame.toNat + 4096 ≤ pa.toNat := by
    rw [allocated.address, home, startF, startG]
    omega
  have copy := copyLoop_apply 4096 t.mem (show pa.toNat + 4096 ≤ 2 ^ 32 from low.2) high apart
  have moved : ∀ a, u.mem a =
      if pa.toNat ≤ a.toNat ∧ a.toNat < pa.toNat + 4096 then t.mem (pte.frame + (a - pa)) else t.mem a := by
    rw [mem]
    exact copy
  have entries : ∀ va, u.entry va = s.entry va := by
    intro va
    rw [← allocated.entry_eq va]
    unfold Vm.entry
    rw [root]
  have refs : u.pool.refs = update t.pool.refs g (t.pool.refs g - 1) := by
    rw [pool, freed]
  have frames : u.pool.frames = s.pool.frames := by
    rw [← allocated.frames, pool, freed]
  have counted : u.pool.Counted := by
    rw [pool, freed]
    exact allocated.counted.refs zeros
  refine ⟨?_, root.trans allocated.root, proc.trans allocated.proc, ?_, ?_, allocated.address, ?_,
    allocated.unmapped, ?_, ?_, ?_⟩
  · refine sound.congr counted frames ?_ entries
    intro h zero
    rw [refs] at zero
    exact (allocated.wasZero ((zeros h).mp zero)).1
  · intro va
    rw [← allocated.byteAt_eq sound va]
    unfold byteAt
    rw [entries va, allocated.entry_eq va]
    cases there : s.entry va with
    | none => rfl
    | some other =>
      have outside := allocated.outside sound there va
      rw [Option.map_some, Option.map_some, moved]
      exact congrArg some (if_neg outside)
  · exact frames ▸ inside
  · rw [refs, update_of_ne different.symm, allocated.refs, update_self]
    decide
  · rw [← allocated.free, pool, freed]
  · intro va other there ownedOther elsewhere
    obtain ⟨h, rangeH, homeH⟩ := sound.inPool va other there ownedOther
    have smallH : h ≤ maxFrames := by omega
    have notG : h ≠ g := fun same => elsewhere (by rw [homeH, home, same])
    have notF : h ≠ f := fun same => allocated.unmapped va other there (by rw [homeH, allocated.address, same])
    rw [refs, homeH, firstPage_frameAddr smallH, update_of_ne notG, allocated.refs, update_of_ne notF]
  · intro va
    have offset := Page.offset_toNat va
    have multiple := sound.aligned _ pte found
    have old := physical_toNat multiple va
    have new : (pa ||| (va &&& mmPageMask)).toNat = pa.toNat + va.toNat % 4096 :=
      physical_toNat (show ({ pte with frame := pa } : Pte).frame.toNat % 4096 = 0 from page) va
    have below := Nat.mod_lt va.toNat (show 0 < 4096 by decide)
    have source : pte.frame + (pa ||| (va &&& mmPageMask)) - pa = pte.physical va := by
      refine BitVec.eq_of_toNat_eq ?_
      rw [old, BitVec.toNat_sub, BitVec.toNat_add, new]
      omega
    have same : pte.frame + ((pa ||| (va &&& mmPageMask)) - pa) = pte.physical va := by
      rw [← source, BitVec.sub_eq_add_neg, BitVec.sub_eq_add_neg, BitVec.add_assoc]
    rw [moved, if_pos (by omega), same, allocated.rest _ (allocated.outside sound found va)]

/-- A shared page gets a frame of its own. -/
theorem mapEntry_shared (sound : s.Sound) (present : (s.root (slot page)).isSome = true)
    (whole : down page = page) (found : s.entry page = some pte) (copies : pte.cow = true)
    (shares : s.shared pte = true) (some_ : s.pool.free ≠ 0) :
    ∃ t, s.mapEntry page heapPerm = (.ok (), t) ∧ Mapped s t [page] ∧ t.pool.free + 1 = s.pool.free ∧
      ∀ k, t.tables k = s.tables k := by
  obtain ⟨pa, a, f, taken, allocated⟩ := frameAlloc_of_free sound some_
  have owned := sound.owned found copies
  obtain ⟨u, same⟩ : ∃ u : Vm, u = { a with mem := kmemCopy pa pte.frame mmPage a.mem, pool := a.pool.frameFree pte.frame } :=
    ⟨_, rfl⟩
  have copied : Copied s u pte pa f := by
    refine copied_of_allocated sound allocated found owned shares ?_ ?_ ?_ ?_ <;> rw [same]
  have resolves : s.cow page = (.ok (), u.setEntry page (pte.resolved pa)) := by
    unfold Vm.cow
    rw [found]
    dsimp only
    rw [sound.eligible page pte found copies, shares, taken, same]
    rfl
  have presentU : (u.root (slot page)).isSome = true := copied.root ▸ present
  have maps : s.mapEntry page heapPerm = (.ok (), u.setEntry page (settled { pte with frame := pa })) := by
    unfold mapEntry
    rw [found]
    dsimp only
    have written : (pte.cow && decide (heapPerm &&& permW ≠ 0)) = true := by
      rw [copies]
      decide
    rw [if_pos written, resolves]
    dsimp only
    rw [entry_setEntry_self presentU, Option.getD_some, gain_resolved, setEntry_twice]
  refine ⟨_, maps, ?_, copied.free, ?_⟩
  · refine mapped_install sound copied.sound presentU whole ⟨s.proc.vmPages, copied.proc⟩ ?_ copied.bytes copied.inside
      copied.address copied.held copied.unmapped ?_ ?_ ⟨rfl, rfl, rfl⟩ rfl ?_
    · intro va
      unfold Vm.entry
      rw [copied.root]
    · intro va other apart there ownedOther
      refine copied.refs va other there ownedOther fun frames => apart ?_
      exact (sound.apart va page other pte there found ownedOther owned frames).trans whole
    · intro va here
      have shown : s.byteAt va = some (s.mem (pte.physical va)) := by
        unfold byteAt
        rw [entry_congr (here.trans whole.symm), found]
        rfl
      rw [shown]
      exact copied.content va
    · rw [found]
      rfl
  · intro k
    unfold tables
    rw [setEntry_present, copied.root]

/-- A page without an entry gets a clear frame. -/
theorem mapEntry_fresh (sound : s.Sound) (present : (s.root (slot page)).isSome = true)
    (whole : down page = page) (none_ : s.entry page = none) (some_ : s.pool.free ≠ 0) :
    ∃ t, s.mapEntry page heapPerm = (.ok (), t) ∧ Mapped s t [page] ∧ t.pool.free + 1 = s.pool.free ∧
      ∀ k, t.tables k = s.tables k := by
  obtain ⟨pa, a, f, taken, allocated⟩ := frameAlloc_of_free sound some_
  obtain ⟨u, same⟩ : ∃ u : Vm, u = { a with proc := { a.proc with vmPages := a.proc.vmPages + 1 } } := ⟨_, rfl⟩
  have root : u.root = s.root := by
    rw [same]
    exact allocated.root
  have pool : u.pool = a.pool := by rw [same]
  have mem : u.mem = a.mem := by rw [same]
  have presentU : (u.root (slot page)).isSome = true := root ▸ present
  have entries : ∀ va, u.entry va = s.entry va := by
    intro va
    unfold Vm.entry
    rw [root]
  have maps : s.mapEntry page heapPerm = (.ok (), u.setEntry page (Pte.fresh pa heapPerm)) := by
    unfold mapEntry
    rw [none_]
    dsimp only
    rw [taken, same]
    rfl
  have freshRights : (Pte.fresh pa heapPerm).read = true ∧ (Pte.fresh pa heapPerm).write = true :=
    (by decide : decide (heapPerm &&& permR ≠ 0) = true ∧ decide (heapPerm &&& permW ≠ 0) = true)
  have soundU : u.Sound := by
    refine sound.congr (pool ▸ allocated.counted) (pool ▸ allocated.frames) ?_ entries
    intro g zero
    exact (allocated.wasZero (pool ▸ zero)).1
  refine ⟨_, maps, ?_, ?_, ?_⟩
  · refine mapped_install sound soundU presentU whole ⟨a.proc.vmPages + 1, ?_⟩ entries ?_ ?_ allocated.address ?_
      allocated.unmapped ?_ ?_ ⟨rfl, freshRights⟩ rfl ?_
    · rw [same, allocated.proc]
    · intro va
      rw [← allocated.byteAt_eq sound va]
      unfold byteAt
      rw [entries va, allocated.entry_eq va, mem]
    · rw [pool, allocated.frames]
      exact allocated.inside
    · rw [pool, allocated.refs, update_self]
      decide
    · intro va other _ there ownedOther
      obtain ⟨h, rangeH, homeH⟩ := sound.inPool va other there ownedOther
      have wide := sound.pool.wide
      have notF : h ≠ f := fun same => allocated.unmapped va other there (by rw [homeH, allocated.address, same])
      rw [pool, allocated.refs, homeH, firstPage_frameAddr (by omega), update_of_ne notF]
    · intro va here
      have empty : s.byteAt va = none := by
        unfold byteAt
        rw [entry_congr (here.trans whole.symm), none_]
        rfl
      have address := physical_toNat (show (Pte.fresh pa heapPerm).frame.toNat % 4096 = 0 from allocated.aligned sound) va
      have below := Nat.mod_lt va.toNat (show 0 < 4096 by decide)
      rw [empty, mem]
      refine allocated.clear _ ⟨?_, ?_⟩
      · rw [address]
        exact Nat.le_add_right ..
      · rw [address]
        exact Nat.add_lt_add_left below _
    · rw [none_]
      rfl
  · rw [← allocated.free]
    exact congrArg (fun pool : Pool => pool.free + 1) pool
  · intro k
    unfold tables
    rw [setEntry_present, root]

/-- With the frame it needs a page gets mapped. -/
theorem mapEntry_ok (sound : s.Sound) (present : (s.root (slot page)).isSome = true) (whole : down page = page)
    (enough : s.pageFrames page ≤ s.pool.free) :
    ∃ t, s.mapEntry page heapPerm = (.ok (), t) ∧ Mapped s t [page] ∧
      t.pool.free + s.pageFrames page = s.pool.free ∧ ∀ k, t.tables k = s.tables k := by
  cases found : s.entry page with
  | none =>
    have one : s.pageFrames page = 1 := by
      unfold pageFrames
      rw [found]
    rw [one] at enough ⊢
    exact mapEntry_fresh sound present whole found (by omega)
  | some pte =>
    have need : s.pageFrames page = if pte.cow && s.shared pte then 1 else 0 := by
      unfold pageFrames
      rw [found]
    cases copies : pte.cow && s.shared pte with
    | true =>
      rw [copies, if_pos rfl] at need
      rw [need] at enough ⊢
      rw [Bool.and_eq_true] at copies
      exact mapEntry_shared sound present whole found copies.1 copies.2 (by omega)
    | false =>
      rw [copies, if_neg (by decide)] at need
      refine ⟨_, mapEntry_settled sound present found need, mapped_settled sound present whole found, ?_, ?_⟩
      · rw [need]
        rfl
      · intro k
        exact setEntry_present s page (settled pte) k

/-- Without it nothing happens. -/
theorem mapEntry_short (sound : s.Sound) (short : s.pool.free < s.pageFrames page) :
    s.mapEntry page heapPerm = (.error .noMemory, s) ∧ s.pool.free = 0 := by
  unfold pageFrames at short
  unfold mapEntry
  cases found : s.entry page with
  | none =>
    rw [found] at short
    have empty : s.pool.free = 0 := Nat.lt_one_iff.mp short
    rw [(frameAlloc_none sound).mpr empty]
    exact ⟨rfl, empty⟩
  | some pte =>
    rw [found] at short
    dsimp only at short ⊢
    split_ifs at short with copies
    · have empty : s.pool.free = 0 := Nat.lt_one_iff.mp short
      rw [Bool.and_eq_true] at copies
      have refuses : s.cow page = (.error .noMemory, s) := by
        unfold Vm.cow
        rw [found]
        dsimp only
        rw [sound.eligible page pte found copies.1, copies.2, (frameAlloc_none sound).mpr empty]
        rfl
      rw [copies.1, if_pos (by decide), refuses]
      exact ⟨rfl, empty⟩
    · exact absurd short (Nat.not_lt_zero _)

/-! ## Its table -/

theorem tableFor_present (present : s.tables (slot page) = true) : s.tableFor page = some s := by
  obtain ⟨table, there⟩ := Option.isSome_iff_exists.mp present
  unfold tableFor
  rw [there]

theorem tableFor_none (sound : s.Sound) (missing : s.tables (slot page) = false) (empty : s.pool.free = 0) :
    s.tableFor page = none := by
  have none_ : s.root (slot page) = none := Option.isNone_iff_eq_none.mp (by
    rw [← Option.not_isSome]
    exact congrArg not missing)
  unfold tableFor
  rw [none_, (frameAlloc_none sound).mpr empty]

/-- A missing table takes a frame and changes no entry. -/
theorem tableFor_missing (sound : s.Sound) (missing : s.tables (slot page) = false) (some_ : s.pool.free ≠ 0) :
    ∃ t, s.tableFor page = some t ∧ Mapped s t [] ∧ t.pool.free + 1 = s.pool.free ∧
      ∀ k, t.tables k = (s.tables k || k = slot page) := by
  obtain ⟨pa, a, f, taken, allocated⟩ := frameAlloc_of_free sound some_
  have none_ : s.root (slot page) = none := Option.isNone_iff_eq_none.mp (by
    rw [← Option.not_isSome]
    exact congrArg not missing)
  obtain ⟨u, same⟩ : ∃ u : Vm, u = { a with root := update a.root (slot page) (some ⟨pa, fun _ => none⟩) } :=
    ⟨_, rfl⟩
  have pool : u.pool = a.pool := by rw [same]
  have mem : u.mem = a.mem := by rw [same]
  have root : u.root = update s.root (slot page) (some ⟨pa, fun _ => none⟩) := by
    rw [same, ← allocated.root]
  have entries : ∀ va, u.entry va = s.entry va := by
    intro va
    unfold Vm.entry
    rw [root]
    by_cases here : slot va = slot page
    · rw [here, update_self, none_]
      rfl
    · rw [update_of_ne here]
  have bytes : ∀ va, u.byteAt va = s.byteAt va := by
    intro va
    rw [← allocated.byteAt_eq sound va]
    unfold byteAt
    rw [entries va, allocated.entry_eq va, mem]
  refine ⟨u, ?_, ⟨?_, ⟨s.proc.vmPages, ?_⟩, ?_, ?_, ?_, ?_, ?_⟩, ?_, ?_⟩
  · unfold tableFor
    rw [none_, taken, same]
  · refine sound.congr (pool ▸ allocated.counted) (pool ▸ allocated.frames) ?_ entries
    intro g zero
    exact (allocated.wasZero (pool ▸ zero)).1
  · rw [same]
    exact allocated.proc
  · intro va b shown
    rw [bytes va]
    exact shown
  · exact fun _ member => absurd member List.not_mem_nil
  · exact fun _ member => absurd member List.not_mem_nil
  · exact fun va _ => entries va
  · intro va other _ there ownedOther
    obtain ⟨h, rangeH, homeH⟩ := sound.inPool va other there ownedOther
    have wide := sound.pool.wide
    have notF : h ≠ f := fun same => allocated.unmapped va other there (by rw [homeH, allocated.address, same])
    rw [pool, allocated.refs, homeH, firstPage_frameAddr (by omega), update_of_ne notF]
  · rw [pool]
    exact allocated.free
  · intro k
    unfold tables
    rw [root]
    by_cases here : k = slot page
    · rw [here, update_self, decide_eq_true rfl, Bool.or_true]
      rfl
    · rw [update_of_ne here, decide_eq_false here, Bool.or_false]

/-! ## The loop body -/

/-- The frames a page needs, its table included. -/
def pageNeed (s : Vm) (page : Word) : Nat := (if s.tables (slot page) then 0 else 1) + s.pageFrames page

theorem mapPage_ok (sound : s.Sound) (whole : down page = page) (enough : s.pageNeed page ≤ s.pool.free) :
    ∃ t, s.mapPage page heapPerm = (.ok (), t) ∧ Mapped s t [page] ∧ t.pool.free + s.pageNeed page = s.pool.free ∧
      ∀ k, t.tables k = (s.tables k || k = slot page) := by
  unfold pageNeed at enough ⊢
  unfold mapPage
  cases present : s.tables (slot page) with
  | true =>
    rw [present, if_pos rfl, Nat.zero_add] at enough
    obtain ⟨t, maps, mapped, free, tables⟩ := mapEntry_ok sound present whole enough
    refine ⟨t, ?_, mapped, ?_, ?_⟩
    · rw [tableFor_present present]
      exact maps
    · rw [if_pos rfl, Nat.zero_add]
      exact free
    · intro k
      rw [tables k]
      by_cases here : k = slot page
      · rw [here, present, Bool.true_or]
      · rw [decide_eq_false here, Bool.or_false]
  | false =>
    rw [present, if_neg (by decide)] at enough
    obtain ⟨a, makes, table, cost, added⟩ := tableFor_missing sound present (by omega)
    have same := table.pageFrames_eq sound (show down page ∉ [] from List.not_mem_nil)
    have presentA : (a.root (slot page)).isSome = true := by
      have here := added (slot page)
      rw [decide_eq_true rfl, Bool.or_true] at here
      exact here
    obtain ⟨t, maps, mapped, free, tables⟩ := mapEntry_ok table.sound presentA whole (by omega)
    refine ⟨t, ?_, table.trans mapped fun _ member => absurd member List.not_mem_nil, ?_, ?_⟩
    · rw [makes]
      exact maps
    · rw [if_neg (by decide)]
      omega
    · intro k
      rw [tables k, added k]

/-- Short of frames the page fails with none left; when there were none before,
nothing changed. -/
theorem mapPage_short (sound : s.Sound) (whole : down page = page) (short : s.pool.free < s.pageNeed page) :
    ∃ t, s.mapPage page heapPerm = (.error .noMemory, t) ∧ t.Sound ∧ t.pool.free = 0 ∧
      (∃ n, t.proc = { s.proc with vmPages := n }) ∧ (s.pool.free = 0 -> t = s) := by
  unfold pageNeed at short
  unfold mapPage
  cases present : s.tables (slot page) with
  | true =>
    rw [present, if_pos rfl, Nat.zero_add] at short
    obtain ⟨fails, empty⟩ := mapEntry_short sound short
    refine ⟨s, ?_, sound, empty, ⟨s.proc.vmPages, rfl⟩, fun _ => rfl⟩
    rw [tableFor_present present]
    exact fails
  | false =>
    by_cases empty : s.pool.free = 0
    · refine ⟨s, ?_, sound, empty, ⟨s.proc.vmPages, rfl⟩, fun _ => rfl⟩
      rw [tableFor_none sound present empty]
    · rw [present, if_neg (by decide)] at short
      obtain ⟨a, makes, table, cost, _⟩ := tableFor_missing sound present empty
      have same := table.pageFrames_eq sound (show down page ∉ [] from List.not_mem_nil)
      obtain ⟨fails, none_⟩ := mapEntry_short table.sound (show a.pool.free < a.pageFrames page by omega)
      refine ⟨a, ?_, table.sound, none_, table.proc, fun empty' => absurd empty' empty⟩
      rw [makes]
      exact fails

/-- A page that needs nothing is settled. -/
theorem mapPage_ready (sound : s.Sound) (prepared : s.ready page = true) : ∃ pte, s.entry page = some pte ∧
    s.mapPage page heapPerm = (.ok (), s.setEntry page (settled pte)) := by
  unfold ready at prepared
  rw [Bool.and_eq_true, decide_eq_true_iff] at prepared
  obtain ⟨present, enough⟩ := prepared
  cases found : s.entry page with
  | none =>
    unfold pageFrames at enough
    rw [found] at enough
    cases enough
  | some pte =>
    refine ⟨pte, rfl, ?_⟩
    unfold mapPage
    rw [tableFor_present present]
    exact mapEntry_settled sound present found enough

theorem ready_of_pageNeed (none_ : s.pageNeed page = 0) : s.ready page = true := by
  unfold pageNeed at none_
  unfold ready
  rw [Bool.and_eq_true, decide_eq_true_iff]
  obtain ⟨table, frames⟩ := Nat.add_eq_zero_iff.mp none_
  refine ⟨?_, frames⟩
  by_contra missing
  rw [if_neg missing] at table
  cases table

/-! ## The loop -/

theorem takeWhile_congr {α : Type} {first second : α -> Bool} {l : List α} (same : ∀ a ∈ l, first a = second a) :
    l.takeWhile first = l.takeWhile second := by
  induction l with
  | nil => rfl
  | cons a l ih =>
    rw [List.takeWhile_cons, List.takeWhile_cons, same a List.mem_cons_self,
      ih fun b member => same b (List.mem_cons_of_mem _ member)]

/-- The cost of pages depends on what each needs and on the tables there are. -/
theorem framesFor_congr {present other : Word -> Bool}
    (same : ∀ page ∈ pages, t.pageFrames page = s.pageFrames page) (tables : ∀ k, other k = present k) :
    t.framesFor other pages = s.framesFor present pages := by
  have equal : other = present := funext tables
  subst equal
  clear tables
  induction pages generalizing other with
  | nil => rfl
  | cons page rest ih =>
    unfold framesFor
    rw [same page List.mem_cons_self, ih fun page member => same page (List.mem_cons_of_mem _ member)]

section Loop

variable {rest : List Word}

/-- The pages behind one that was mapped need what they needed before. -/
theorem Mapped.framesFor_eq (mapped : Mapped s t [page]) (sound : s.Sound) (fresh : page ∉ rest)
    (whole : ∀ q ∈ rest, down q = q) (tables : ∀ k, t.tables k = (s.tables k || k = slot page)) :
    t.framesFor t.tables rest = s.framesFor (fun k => s.tables k || k = slot page) rest := by
  refine framesFor_congr ?_ tables
  intro q member
  refine mapped.pageFrames_eq sound ?_
  rw [whole q member, List.mem_singleton]
  intro same
  exact fresh (same ▸ member)

end Loop

/-- With the frames they need all pages get mapped. -/
theorem mapPages_ok (sound : s.Sound) (distinct : pages.Nodup) (whole : ∀ page ∈ pages, down page = page)
    (enough : s.framesFor s.tables pages ≤ s.pool.free) :
    ∃ t, s.mapPages heapPerm pages = (.ok (), t) ∧ Mapped s t pages := by
  induction pages generalizing s with
  | nil => exact ⟨s, rfl, Mapped.refl sound⟩
  | cons page rest ih =>
    have cost : s.framesFor s.tables (page :: rest) =
        s.pageNeed page + s.framesFor (fun k => s.tables k || k = slot page) rest := rfl
    have fresh := (List.nodup_cons.mp distinct).1
    have wholeRest : ∀ q ∈ rest, down q = q := fun q member => whole q (List.mem_cons_of_mem _ member)
    obtain ⟨t, maps, mapped, free, tables⟩ := mapPage_ok sound (whole page List.mem_cons_self) (by omega)
    have later := mapped.framesFor_eq sound fresh wholeRest tables
    obtain ⟨u, mapsRest, mappedRest⟩ := ih mapped.sound (List.nodup_cons.mp distinct).2 wholeRest (by omega)
    refine ⟨u, ?_, mapped.trans mappedRest fun q member => ?_⟩
    · unfold mapPages
      rw [maps]
      exact mapsRest
    · rw [List.mem_singleton.mp member]
      exact fresh

/-- The entry of an address after the loop stopped without a frame to take. -/
def stalledEntry (s : Vm) (pages : List Word) (va : Word) : Option Pte :=
  if down va ∈ pages.takeWhile s.ready then (s.entry va).map settled else s.entry va

/-- Short of frames the loop fails with none left; when there were none before,
the pages in front of the one that failed are settled and nothing else changed. -/
theorem mapPages_short (sound : s.Sound) (distinct : pages.Nodup) (whole : ∀ page ∈ pages, down page = page)
    (short : s.pool.free < s.framesFor s.tables pages) :
    ∃ t, s.mapPages heapPerm pages = (.error .noMemory, t) ∧ t.Sound ∧ t.pool.free = 0 ∧
      (∃ n, t.proc = { s.proc with vmPages := n }) ∧
      (s.pool.free = 0 -> ∀ va, t.entry va = s.stalledEntry pages va) := by
  induction pages generalizing s with
  | nil => exact absurd short (Nat.not_lt_zero _)
  | cons page rest ih =>
    have cost : s.framesFor s.tables (page :: rest) =
        s.pageNeed page + s.framesFor (fun k => s.tables k || k = slot page) rest := rfl
    have fresh := (List.nodup_cons.mp distinct).1
    have wholePage := whole page List.mem_cons_self
    have wholeRest : ∀ q ∈ rest, down q = q := fun q member => whole q (List.mem_cons_of_mem _ member)
    by_cases fails : s.pool.free < s.pageNeed page
    · obtain ⟨t, maps, soundT, none_, proc, same⟩ := mapPage_short sound wholePage fails
      refine ⟨t, ?_, soundT, none_, proc, fun empty va => ?_⟩
      · unfold mapPages
        rw [maps]
      · have unready : ¬ s.ready page = true := by
          intro prepared
          obtain ⟨pte, _, settles⟩ := mapPage_ready sound prepared
          rw [settles] at maps
          cases maps
        unfold stalledEntry
        rw [same empty, List.takeWhile_cons_of_neg unready, if_neg List.not_mem_nil]
    · obtain ⟨t, maps, mapped, free, tables⟩ := mapPage_ok sound wholePage (Nat.le_of_not_lt fails)
      have later := mapped.framesFor_eq sound fresh wholeRest tables
      obtain ⟨u, mapsRest, soundU, none_, ⟨n, proc⟩, stalls⟩ :=
        ih mapped.sound (List.nodup_cons.mp distinct).2 wholeRest (by omega)
      refine ⟨u, ?_, soundU, none_, ⟨n, ?_⟩, fun empty va => ?_⟩
      · unfold mapPages
        rw [maps]
        exact mapsRest
      · obtain ⟨m, early⟩ := mapped.proc
        rw [proc, early]
      · have prepared : s.ready page = true := ready_of_pageNeed (by omega)
        obtain ⟨pte, found, settles⟩ := mapPage_ready sound prepared
        rw [settles] at maps
        cases maps
        have same : rest.takeWhile (s.setEntry page (settled pte)).ready = rest.takeWhile s.ready := by
          refine takeWhile_congr fun q member => ?_
          have apart : down q ∉ [page] := by
            rw [wholeRest q member, List.mem_singleton]
            intro equal
            exact fresh (equal ▸ member)
          unfold ready
          rw [mapped.pageFrames_eq sound apart]
          unfold Vm.tables
          rw [setEntry_present]
        have present : (s.root (slot page)).isSome = true := (Bool.and_eq_true_iff.mp prepared).1
        rw [stalls (by omega) va]
        unfold stalledEntry
        rw [same, List.takeWhile_cons_of_pos prepared, entry_setEntry present, wholePage]
        by_cases here : down va = page
        · have notLater : down va ∉ rest.takeWhile s.ready := by
            rw [here]
            exact fun member => fresh ((List.takeWhile_sublist _).subset member)
          rw [if_neg notLater, if_pos here, if_pos (List.mem_cons.mpr (Or.inl here)), entry_congr (here.trans wholePage.symm), found]
          rfl
        · rw [if_neg here]
          by_cases member : down va ∈ rest.takeWhile s.ready
          · rw [if_pos member, if_pos (List.mem_cons.mpr (Or.inr member))]
          · rw [if_neg member, if_neg (mt List.mem_cons.mp (not_or.mpr ⟨here, member⟩))]

end Src32.Kernel.Vm
