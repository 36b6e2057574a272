import Src32.Kernel.Isolation
import Src32.Kernel.Mapping

namespace Src32.Kernel

/-!
# Growing the heap

What `proc_mem_grow` promises on either backend: it takes everything or nothing,
hands out zeros and leaves what the process had.  The theorem at the end says
exactly when it keeps that.
-/

/-! ## The promise -/

/-- What a call that fails must leave as it was. -/
structure Holdings where
  pages : Word -> Option Pte
  regions : List ProcRegion
  arenaLo : Word
  arenaHi : Word
  heapStart : Word
  heapEnd : Word
  heapLimit : Word
  freeFrames : Nat

/-- A process as it sees its memory. -/
structure MemoryView where
  holdings : Holdings
  /-- The process may read and write there. -/
  reaches : Word -> Prop
  byteAt : Word -> Option Byte

/-- `mem_grow` did all of it or nothing. -/
def AllOrNothing (delta : Word) (before after : MemoryView) : Except FndError Word -> Prop
  | .error _ => after.holdings = before.holdings
  | .ok old =>
    old = before.holdings.heapEnd ∧ after.holdings.heapEnd = old + delta ∧
      (∀ va : Word, old.toNat ≤ va.toNat -> va.toNat < old.toNat + delta.toNat ->
        after.reaches va ∧ after.byteAt va = some 0) ∧
      ∀ (va : Word) (b : Byte), va.toNat < old.toNat -> before.byteAt va = some b -> after.byteAt va = some b

/-- The argument is one that `proc_mem_grow` acts on, and the process has a heap. -/
def Proc.Asks (proc : Proc) (delta : Word) : Prop :=
  delta &&& 7 = 0 ∧ delta.msb = false ∧ delta ≠ 0 ∧ proc.heapLimit ≠ 0 ∧ proc.heapEnd ≤ proc.heapLimit

theorem allOrNothing_idle {delta : Word} {view : MemoryView} {result : Except FndError Word}
    (idle : ∀ old, result = .ok old -> old = view.holdings.heapEnd ∧ delta = 0) :
    AllOrNothing delta view view result := by
  cases result with
  | error error => rfl
  | ok old =>
    obtain ⟨same, none_⟩ := idle old rfl
    subst none_
    refine ⟨same, ?_, ?_, fun _ _ _ shown => shown⟩
    · rw [same]
      exact (BitVec.add_zero _).symm
    · intro va above below
      change va.toNat < old.toNat + 0 at below
      omega

/-! ## With address translation -/

namespace Vm

variable {s : Vm} {delta : Word}

def holdings (s : Vm) : Holdings where
  pages := s.entry
  regions := s.proc.regions
  arenaLo := s.proc.arenaLo
  arenaHi := s.proc.arenaHi
  heapStart := s.proc.heapStart
  heapEnd := s.proc.heapEnd
  heapLimit := s.proc.heapLimit
  freeFrames := s.pool.free

/-- A page of the user that is no device and may be read and, once copied, be
written. -/
def reaches (s : Vm) (va : Word) : Prop :=
  ∃ pte, s.entry va = some pte ∧ pte.user = true ∧ pte.dev = false ∧ pte.read = true ∧
    (pte.write = true ∨ pte.cow = true)

def view (s : Vm) : MemoryView := ⟨s.holdings, s.reaches, s.byteAt⟩

/-- The pages that the new range touches. -/
def newPages (s : Vm) (delta : Word) : List Word := pagesOf s.proc.heapEnd (s.proc.heapEnd + delta)

/-- The frames they need. -/
def need (s : Vm) (delta : Word) : Nat := s.framesFor s.tables (s.newPages delta)

/-- When `proc_mem_grow` keeps its promise: the free frames suffice and what is
mapped of the new range already is clear and no device, or no frame is free at
all and the pages in front of the first one that needs a frame have the heap's
permissions. -/
structure GrowsWhole (s : Vm) (delta : Word) : Prop where
  clear : s.need delta ≤ s.pool.free -> ∀ va pte, s.entry va = some pte -> s.proc.heapEnd.toNat ≤ va.toNat ->
    va.toNat < s.proc.heapEnd.toNat + delta.toNat -> pte.dev = false ∧ s.mem (pte.physical va) = 0
  refused : s.pool.free < s.need delta -> s.pool.free = 0 ∧
    ∀ page ∈ (s.newPages delta).takeWhile s.ready, ∀ pte, s.entry page = some pte -> settled pte = pte

/-- The call gets as far as mapping pages. -/
def Maps (s : Vm) (delta : Word) : Prop := s.proc.Asks delta ∧ delta ≤ s.proc.heapLimit - s.proc.heapEnd

variable {start stop : Word} {t : Vm}

theorem pagesOf_toNat {i : Nat} (inside : i < (stop.toNat - (Page.down start).toNat + 4095) / 4096) :
    (Page.down start + BitVec.ofNat 32 i * mmPage).toNat = (Page.down start).toNat + 4096 * i ∧
      (Page.down start).toNat + 4096 * i < stop.toNat := by
  have bound := stop.isLt
  have below : (Page.down start).toNat + 4096 * i < stop.toNat := by omega
  refine ⟨?_, below⟩
  rw [BitVec.toNat_add, BitVec.toNat_mul, BitVec.toNat_ofNat, show mmPage.toNat = 4096 from rfl]
  omega

theorem pagesOf_whole {page : Word} (member : page ∈ pagesOf start stop) : Page.down page = page := by
  obtain ⟨i, inside, rfl⟩ := List.mem_map.mp member
  obtain ⟨address, _⟩ := pagesOf_toNat (List.mem_range.mp inside)
  have base := Page.down_aligned start
  have whole := Page.down_toNat (Page.down start + BitVec.ofNat 32 i * mmPage)
  exact BitVec.eq_of_toNat_eq (by omega)

theorem pagesOf_nodup (start stop : Word) : (pagesOf start stop).Nodup := by
  refine List.Nodup.map_on ?_ List.nodup_range
  intro i first j second same
  have one := (pagesOf_toNat (List.mem_range.mp first)).1
  have two := (pagesOf_toNat (List.mem_range.mp second)).1
  rw [same] at one
  omega

/-- The loop passes the page of every address of the range. -/
theorem mem_pagesOf {va : Word} (above : start.toNat ≤ va.toNat) (below : va.toNat < stop.toNat) :
    Page.down va ∈ pagesOf start stop := by
  have base := Page.down_toNat start
  have here := Page.down_toNat va
  have bound := va.isLt
  have inside : ((Page.down va).toNat - (Page.down start).toNat) / 4096 <
      (stop.toNat - (Page.down start).toNat + 4095) / 4096 := by omega
  refine List.mem_map.mpr ⟨_, List.mem_range.mpr inside, BitVec.eq_of_toNat_eq ?_⟩
  rw [(pagesOf_toNat inside).1]
  omega

/-- The new range stays below the limit. -/
theorem Maps.room (maps : s.Maps delta) :
    (s.proc.heapEnd + delta).toNat = s.proc.heapEnd.toNat + delta.toNat := by
  obtain ⟨⟨_, _, _, _, below⟩, fits⟩ := maps
  have limit := s.proc.heapLimit.isLt
  have order : s.proc.heapEnd.toNat ≤ s.proc.heapLimit.toNat := below
  have room : delta.toNat ≤ (s.proc.heapLimit - s.proc.heapEnd).toNat := fits
  rw [BitVec.toNat_sub_of_le below] at room
  rw [BitVec.toNat_add]
  omega

theorem Maps.memGrow_eq (maps : s.Maps delta) {result : Except FndError Unit}
    (done : s.mapPages heapPerm (s.newPages delta) = (result, t)) :
    (result = .ok () -> s.memGrow delta =
      (.ok s.proc.heapEnd, { t with proc := { t.proc with heapEnd := s.proc.heapEnd + delta } })) ∧
    ∀ error, result = .error error -> s.memGrow delta = (.error error, t) := by
  obtain ⟨⟨multiple, small, some_, heap, below⟩, fits⟩ := maps
  have valid : ¬ (delta &&& 7 ≠ 0 ∨ delta.msb = true) := by
    rw [small, multiple]
    decide
  have usable : ¬ (s.proc.heapLimit = 0 ∨ s.proc.heapEnd > s.proc.heapLimit) :=
    not_or.mpr ⟨heap, BitVec.not_lt.mpr below⟩
  have mapping : s.map s.proc.heapEnd (s.proc.heapEnd + delta) heapPerm = (result, t) := done
  unfold memGrow
  dsimp only
  rw [if_neg valid, if_neg some_, if_neg usable, if_neg (BitVec.not_lt.mpr fits), mapping]
  constructor
  · rintro rfl
    rfl
  · rintro error rfl
    rfl

/-- A call that does not get to mapping changes nothing. -/
theorem memGrow_idle (idle : ¬ s.Maps delta) : (s.memGrow delta).2 = s ∧
    ∀ old, (s.memGrow delta).1 = .ok old -> old = s.proc.heapEnd ∧ delta = 0 := by
  unfold memGrow
  dsimp only
  split_ifs with invalid none_ unusable full
  · exact ⟨rfl, fun _ same => by cases same⟩
  · exact ⟨rfl, fun _ same => by cases same; exact ⟨rfl, none_⟩⟩
  · exact ⟨rfl, fun _ same => by cases same⟩
  · exact ⟨rfl, fun _ same => by cases same⟩
  · rw [not_or, not_not, Bool.not_eq_true] at invalid
    rw [not_or] at unusable
    exact absurd ⟨⟨invalid.1, invalid.2, none_, unusable.1, BitVec.not_lt.mp unusable.2⟩, BitVec.not_lt.mp full⟩ idle

/-- The heap grew: what was mapped of the range decides. -/
theorem grown_iff {u : Vm} (maps : s.Maps delta) (mapped : Mapped s t (s.newPages delta)) (root : u.root = t.root)
    (mem : u.mem = t.mem) (ends : u.proc.heapEnd = s.proc.heapEnd + delta) :
    AllOrNothing delta s.view u.view (.ok s.proc.heapEnd) ↔
      ∀ va pte, s.entry va = some pte -> s.proc.heapEnd.toNat ≤ va.toNat ->
        va.toNat < s.proc.heapEnd.toNat + delta.toNat -> pte.dev = false ∧ s.mem (pte.physical va) = 0 := by
  have room := maps.room
  have entries : ∀ va, u.entry va = t.entry va := by
    intro va
    unfold Vm.entry
    rw [root]
  have bytes : ∀ va, u.byteAt va = t.byteAt va := by
    intro va
    unfold byteAt
    rw [entries va, mem]
  have touched : ∀ va : Word, s.proc.heapEnd.toNat ≤ va.toNat -> va.toNat < s.proc.heapEnd.toNat + delta.toNat ->
      Page.down va ∈ s.newPages delta := fun va above below => mem_pagesOf above (by omega)
  constructor
  · rintro ⟨_, _, range, _⟩ va pte found above below
    obtain ⟨⟨after, there, _, ram, _, _⟩, zero⟩ := range va above below
    obtain ⟨same, here, _, _, _, dev⟩ := mapped.usable va (touched va above below)
    rw [entries va, here] at there
    cases there
    refine ⟨?_, ?_⟩
    · rw [ram, found] at dev
      exact dev.symm
    · have shown : s.byteAt va = some (s.mem (pte.physical va)) := by
        unfold byteAt
        rw [found]
        rfl
      have kept := mapped.bytes va _ shown
      change u.byteAt va = some 0 at zero
      rw [bytes va, kept] at zero
      exact Option.some.inj zero
  · intro clear
    refine ⟨rfl, ends, ?_, ?_⟩
    · intro va above below
      obtain ⟨after, here, user, read, write, dev⟩ := mapped.usable va (touched va above below)
      change u.reaches va ∧ u.byteAt va = some 0
      rw [bytes va]
      cases found : s.entry va with
      | none =>
        rw [found] at dev
        exact ⟨⟨after, (entries va).trans here, user, dev, read, Or.inl write⟩,
          mapped.fresh va (touched va above below) found⟩
      | some pte =>
        obtain ⟨ram, zero⟩ := clear va pte found above below
        rw [found] at dev
        refine ⟨⟨after, (entries va).trans here, user, dev.trans ram, read, Or.inl write⟩, ?_⟩
        refine mapped.bytes va 0 ?_
        unfold byteAt
        rw [found, Option.map_some, zero]
    · intro va b _ shown
      change u.byteAt va = some b
      rw [bytes va]
      exact mapped.bytes va b shown

/-- The frames ran out: whether nothing was taken before decides. -/
theorem stalled_iff (free : t.pool.free = 0) (proc : ∃ n, t.proc = { s.proc with vmPages := n })
    (whole : ∀ page ∈ s.newPages delta, Page.down page = page)
    (stalls : s.pool.free = 0 -> ∀ va, t.entry va = s.stalledEntry (s.newPages delta) va) :
    AllOrNothing delta s.view t.view (.error .noMemory) ↔ s.pool.free = 0 ∧
      ∀ page ∈ (s.newPages delta).takeWhile s.ready, ∀ pte, s.entry page = some pte -> settled pte = pte := by
  constructor
  · intro same
    have holdings : t.holdings = s.holdings := same
    have empty : s.pool.free = 0 := by
      rw [← free]
      exact (congrArg Holdings.freeFrames holdings).symm
    refine ⟨empty, fun page member pte found => ?_⟩
    have here := stalls empty page
    have pages : t.entry page = s.entry page := congrFun (congrArg Holdings.pages holdings) page
    unfold stalledEntry at here
    rw [whole page ((List.takeWhile_sublist _).subset member), if_pos member, pages, found] at here
    exact (Option.some.inj here).symm
  · rintro ⟨empty, open_⟩
    change t.holdings = s.holdings
    have pages : t.entry = s.entry := by
      funext va
      rw [stalls empty va]
      unfold stalledEntry
      split_ifs with member
      · cases found : s.entry va with
        | none => rfl
        | some pte =>
          have inside := (List.takeWhile_sublist _).subset member
          have same : s.entry (Page.down va) = some pte := (entry_congr (whole _ inside)).trans found
          rw [Option.map_some, open_ _ member pte same]
      · rfl
    obtain ⟨n, proc⟩ := proc
    unfold holdings
    rw [pages, proc, free, empty]

/-- `proc_mem_grow` with address translation keeps its promise exactly when the
condition holds. -/
theorem memGrow_iff (sound : s.Sound) (delta : Word) :
    AllOrNothing delta s.view (s.memGrow delta).2.view (s.memGrow delta).1 ↔ (s.Maps delta -> s.GrowsWhole delta) := by
  by_cases maps : s.Maps delta
  · have whole : ∀ page ∈ s.newPages delta, Page.down page = page := fun page member => pagesOf_whole member
    have distinct : (s.newPages delta).Nodup := pagesOf_nodup _ _
    by_cases enough : s.need delta ≤ s.pool.free
    · obtain ⟨t, done, mapped⟩ := mapPages_ok sound distinct whole enough
      have grown := grown_iff (u := { t with proc := { t.proc with heapEnd := s.proc.heapEnd + delta } })
        maps mapped rfl rfl rfl
      rw [(maps.memGrow_eq done).1 rfl]
      refine grown.trans ?_
      exact ⟨fun clear _ => ⟨fun _ => clear, fun short => absurd enough (Nat.not_le.mpr short)⟩,
        fun holds => (holds maps).clear enough⟩
    · have short := Nat.lt_of_not_le enough
      obtain ⟨t, done, _, free, proc, stalls⟩ := mapPages_short sound distinct whole short
      rw [(maps.memGrow_eq done).2 _ rfl]
      dsimp only
      rw [stalled_iff free proc whole stalls]
      exact ⟨fun refused _ => ⟨fun fits => absurd fits enough, fun _ => refused⟩,
        fun holds => (holds maps).refused short⟩
  · obtain ⟨same, idle⟩ := memGrow_idle maps
    rw [same]
    exact ⟨fun _ holds => absurd holds maps, fun _ => allOrNothing_idle idle⟩

/-- Growing keeps the address space sound. -/
theorem memGrow_sound (sound : s.Sound) (delta : Word) : (s.memGrow delta).2.Sound := by
  by_cases maps : s.Maps delta
  · have whole : ∀ page ∈ s.newPages delta, Page.down page = page := fun page member => pagesOf_whole member
    have distinct : (s.newPages delta).Nodup := pagesOf_nodup _ _
    by_cases enough : s.need delta ≤ s.pool.free
    · obtain ⟨t, done, mapped⟩ := mapPages_ok sound distinct whole enough
      rw [(maps.memGrow_eq done).1 rfl]
      exact mapped.sound.congr mapped.sound.pool rfl (fun _ zero => zero) fun _ => rfl
    · obtain ⟨t, done, soundT, _⟩ := mapPages_short sound distinct whole (Nat.lt_of_not_le enough)
      rw [(maps.memGrow_eq done).2 _ rfl]
      exact soundT
  · rw [(memGrow_idle maps).1]
    exact sound

end Vm

/-! ## Without address translation -/

/-- The heap of a process that has one: its end is a multiple of 8, and its
region, once there is one, is memory to read and write that ends less than 8
bytes below. -/
structure HeapSound (proc : Proc) : Prop where
  aligned : proc.heapEnd.toNat % 8 = 0
  few : proc.regions.length ≤ fndRegions
  region : proc.heapRegion ≠ fndProcRegions -> ∃ r, proc.regions[proc.heapRegion]? = some r ∧
    r.flags = permR ||| permW ∧ r.mmio = false ∧ r.start.toNat ≤ r.stop.toNat ∧
    r.stop.toNat ≤ proc.heapEnd.toNat ∧ proc.heapEnd.toNat < r.stop.toNat + 8

namespace Nommu

variable {s : Nommu} {p : ProcId} {delta : Word}

def holdings (s : Nommu) (p : ProcId) : Holdings where
  pages := fun _ => none
  regions := (s.procs p).regions
  arenaLo := (s.procs p).arenaLo
  arenaHi := (s.procs p).arenaHi
  heapStart := (s.procs p).heapStart
  heapEnd := (s.procs p).heapEnd
  heapLimit := (s.procs p).heapLimit
  freeFrames := s.pool.free

/-- A region of RAM that may be read and written. -/
def reaches (s : Nommu) (p : ProcId) (va : Word) : Prop :=
  ∃ r ∈ (s.procs p).regions, r.mmio = false ∧ r.flags &&& (permR ||| permW) = permR ||| permW ∧
    r.start.toNat ≤ va.toNat ∧ va.toNat < r.stop.toNat

def view (s : Nommu) (p : ProcId) : MemoryView := ⟨s.holdings p, s.reaches p, fun va => some (s.mem va)⟩

/-- The new end lies behind the limit of the heap. -/
def Outgrows (proc : Proc) (delta : Word) : Prop := delta > proc.heapLimit - proc.heapEnd

/-- Where the arena has to reach then. -/
def want (proc : Proc) (delta : Word) : Word := Page.up (proc.heapEnd + delta)

/-- The heap ends the arena and the pages above are free. -/
def MayExtend (pool : Pool) (proc : Proc) (delta : Word) : Prop :=
  proc.heapLimit = proc.arenaHi ∧ proc.heapEnd ≤ want proc delta ∧
    pool.rangeFree proc.arenaHi (want proc delta) = true

/-- The heap needs a region of its own and all are in use. -/
def NoRegion (proc : Proc) : Prop := proc.heapRegion = fndProcRegions ∧ proc.regions.length = fndRegions

/-- When `proc_mem_grow` keeps its promise: it does not extend the arena only to
find no region, and the bytes that join the heap below its old end are clear. -/
structure GrowsWhole (s : Nommu) (p : ProcId) (delta : Word) : Prop where
  region : Outgrows (s.procs p) delta -> MayExtend s.pool (s.procs p) delta -> ¬ NoRegion (s.procs p)
  tail : (Outgrows (s.procs p) delta -> MayExtend s.pool (s.procs p) delta) ->
    ∀ r, (s.procs p).regions[(s.procs p).heapRegion]? = some r ->
      ∀ a : Word, r.stop.toNat ≤ a.toNat -> a.toNat < (s.procs p).heapEnd.toNat -> s.mem a = 0

variable {proc roomy : Proc} {pool : Pool}

theorem arenaExtend_of_free {hi newHi : Word} (free : pool.rangeFree hi newHi = true) :
    pool.arenaExtend hi newHi = some (pool.rangeTake hi newHi) := by
  obtain ⟨arena, _⟩ := rangeFree_spec free
  have fits : ¬ (newHi ≤ hi ∨ (hi ||| newHi) &&& mmPageMask ≠ 0 ∨ (!pool.rangeFree hi newHi) = true) := by
    rintro (low | ragged | busy)
    · exact absurd arena.nonempty (Nat.not_lt.mpr low)
    · unfold Pool.rangeFree at free
      rw [decide_eq_true ragged, Bool.or_true, Bool.not_true, Bool.false_and] at free
      cases free
    · rw [free] at busy
      cases busy
  exact if_neg fits

theorem arenaExtend_of_busy {hi newHi : Word} (busy : ¬ pool.rangeFree hi newHi = true) :
    pool.arenaExtend hi newHi = none := by
  rw [Bool.not_eq_true] at busy
  unfold Pool.arenaExtend
  rw [busy]
  exact if_pos (Or.inr (Or.inr rfl))

/-! The room of a call: what the heap has, or an extended arena. -/

theorem growRoom_fits (fits : ¬ Outgrows proc delta) :
    growRoom pool proc delta = some (pool, proc) := by
  unfold Outgrows at fits
  unfold growRoom
  rw [if_neg fits]

theorem growRoom_extends (outgrows : Outgrows proc delta) (may : MayExtend pool proc delta) : growRoom pool proc delta =
      some (pool.rangeTake proc.arenaHi (want proc delta),
        { proc with arenaHi := want proc delta, heapLimit := want proc delta }) := by
  obtain ⟨atEnd, above, free⟩ := may
  have extends_ := arenaExtend_of_free free
  have open_ : ¬ (proc.heapLimit ≠ proc.arenaHi ∨ want proc delta < proc.heapEnd) :=
    not_or.mpr ⟨fun differs => differs atEnd, BitVec.not_lt.mpr above⟩
  unfold Outgrows at outgrows
  unfold want at open_ extends_ ⊢
  unfold growRoom
  dsimp only
  rw [if_pos outgrows, if_neg open_, extends_]

theorem growRoom_refused (outgrows : Outgrows proc delta) (cannot : ¬ MayExtend pool proc delta) :
    growRoom pool proc delta = none := by
  unfold Outgrows at outgrows
  unfold MayExtend want at cannot
  unfold growRoom
  dsimp only
  rw [if_pos outgrows]
  split_ifs with closed
  · rfl
  · rw [not_or, not_not, BitVec.not_lt] at closed
    rw [arenaExtend_of_busy fun free => cannot ⟨closed.1, closed.2, free⟩]

/-- After making room the new end lies below the limit. -/
theorem growRoom_room {next : Pool} (below : proc.heapEnd ≤ proc.heapLimit) (small : delta.msb = false)
    (done : growRoom pool proc delta = some (next, roomy)) :
    roomy.heapEnd.toNat + delta.toNat ≤ roomy.heapLimit.toNat := by
  have half : delta.toNat < 2 ^ 31 := by
    rw [BitVec.msb_eq_false_iff_two_mul_lt] at small
    omega
  have order : proc.heapEnd.toNat ≤ proc.heapLimit.toNat := below
  by_cases outgrows : Outgrows proc delta
  · by_cases may : MayExtend pool proc delta
    · rw [growRoom_extends outgrows may] at done
      cases done
      have above : proc.heapEnd.toNat ≤ (want proc delta).toNat := may.2.1
      change proc.heapEnd.toNat + delta.toNat ≤ (want proc delta).toNat
      have bound := proc.heapEnd.isLt
      have sum : (proc.heapEnd + delta).toNat = (proc.heapEnd.toNat + delta.toNat) % 2 ^ 32 := BitVec.toNat_add ..
      have positive : delta ≠ 0 := by
        rintro rfl
        exact absurd outgrows (BitVec.not_lt_zero)
      have some_ : delta.toNat ≠ 0 := fun zero => positive (BitVec.eq_of_toNat_eq zero)
      unfold want at above ⊢
      by_cases wraps : 0xFFFFF000 < (proc.heapEnd + delta).toNat
      · rw [Page.up_wraps wraps] at above ⊢
        change proc.heapEnd.toNat ≤ 0 at above
        omega
      · have near := Page.up_toNat (Nat.le_of_not_lt wraps)
        omega
    · rw [growRoom_refused outgrows may] at done
      cases done
  · rw [growRoom_fits outgrows] at done
    cases done
    have fits : delta.toNat ≤ (proc.heapLimit - proc.heapEnd).toNat := BitVec.not_lt.mp outgrows
    rw [BitVec.toNat_sub_of_le below] at fits
    omega

/-- The bytes a growing heap clears: from the end of its region on. -/
theorem cleared_apply {from_ old : Word} (low : from_.toNat ≤ old.toNat) (near : old.toNat < from_.toNat + 8)
    (aligned : old.toNat % 8 = 0) (multiple : delta.toNat % 8 = 0) (room : old.toNat + delta.toNat < 2 ^ 32)
    (mem : Wax.Memory) (a : Word) :
    kmemZero (zeroToWord 3 from_ mem).1 (old + delta) (zeroToWord 3 from_ mem).2 a =
      if from_.toNat ≤ a.toNat ∧ a.toNat < old.toNat + delta.toNat then 0 else mem a := by
  have bound := old.isLt
  have sum : (old + delta).toNat = old.toNat + delta.toNat := by
    rw [BitVec.toNat_add]
    omega
  obtain ⟨stop, bytes⟩ := zeroToWord_apply 3 mem
    (show from_.toNat ≤ (from_.toNat + 3) / 4 * 4 by omega) (by omega) (by omega) (by omega) (by omega)
  rw [kmemZero_apply (by omega) (by omega), bytes a, stop, sum]
  split_ifs <;> first
    | rfl
    | omega

/-- Making room touches the bounds only. -/
theorem growRoom_same {next : Pool} (done : growRoom pool proc delta = some (next, roomy)) :
    ∃ hi limit, roomy = { proc with arenaHi := hi, heapLimit := limit } := by
  by_cases outgrows : Outgrows proc delta
  · by_cases may : MayExtend pool proc delta
    · rw [growRoom_extends outgrows may] at done
      cases done
      exact ⟨_, _, rfl⟩
    · rw [growRoom_refused outgrows may] at done
      cases done
  · rw [growRoom_fits outgrows] at done
    cases done
    exact ⟨proc.arenaHi, proc.heapLimit, rfl⟩

theorem heapRegionOf_none : heapRegionOf proc = none ↔ NoRegion proc := by
  unfold heapRegionOf NoRegion
  split_ifs with missing full
  · exact ⟨fun _ => ⟨missing, full⟩, fun _ => rfl⟩
  · exact ⟨fun none_ => (by cases none_), fun both => absurd both.2 full⟩
  · exact ⟨fun none_ => (by cases none_), fun both => absurd both.1 missing⟩

/-- The heap is sound with any bounds. -/
theorem heapSound_roomy (sound : HeapSound proc) (end_ : roomy.heapEnd = proc.heapEnd)
    (regions : roomy.regions = proc.regions) (region : roomy.heapRegion = proc.heapRegion) : HeapSound roomy := by
  refine ⟨end_ ▸ sound.aligned, regions ▸ sound.few, ?_⟩
  rw [end_, regions, region]
  exact sound.region

/-- The region the heap grows: the one it has, or a new empty one at its end. -/
theorem heapRegionOf_grows {next : Proc} (sound : HeapSound proc) (done : heapRegionOf proc = some next) :
    next.heapEnd = proc.heapEnd ∧ ∃ r, next.regions[next.heapRegion]? = some r ∧ r.flags = permR ||| permW ∧
      r.mmio = false ∧ r.start.toNat ≤ r.stop.toNat ∧ r.stop.toNat ≤ proc.heapEnd.toNat ∧
      proc.heapEnd.toNat < r.stop.toNat + 8 ∧
      (proc.regions[proc.heapRegion]? = some r ∨ r.stop = proc.heapEnd ∧ proc.regions[proc.heapRegion]? = none) := by
  unfold heapRegionOf at done
  split_ifs at done with missing full
  · cases done
    have few := sound.few
    refine ⟨rfl, ⟨proc.heapEnd, proc.heapEnd, permR ||| permW, true, false⟩, ?_, rfl, rfl, Nat.le_refl _,
      Nat.le_refl _, Nat.lt_add_of_pos_right (by decide), Or.inr ⟨rfl, ?_⟩⟩
    · rw [List.getElem?_append_right (Nat.le_refl _), Nat.sub_self]
      rfl
    · rw [List.getElem?_eq_none_iff, missing]
      exact Nat.le_trans few (by decide)
  · cases done
    obtain ⟨r, found, flags, ram, ordered, low, near⟩ := sound.region missing
    exact ⟨rfl, r, found, flags, ram, ordered, low, near, Or.inl found⟩

theorem guards_of_asks (asks : proc.Asks delta) :
    ¬ (delta &&& 7 ≠ 0 ∨ delta.msb = true) ∧ delta ≠ 0 ∧ ¬ (proc.heapLimit = 0 ∨ proc.heapEnd > proc.heapLimit) := by
  obtain ⟨multiple, small, some_, heap, below⟩ := asks
  refine ⟨?_, some_, not_or.mpr ⟨heap, BitVec.not_lt.mpr below⟩⟩
  rw [small, multiple]
  decide

theorem memGrow_idle (idle : ¬ (s.procs p).Asks delta) : (s.memGrow p delta).2 = s ∧
    ∀ old, (s.memGrow p delta).1 = .ok old -> old = (s.procs p).heapEnd ∧ delta = 0 := by
  unfold memGrow
  dsimp only
  split_ifs with invalid none_ unusable
  · exact ⟨rfl, fun _ same => by cases same⟩
  · exact ⟨rfl, fun _ same => by cases same; exact ⟨rfl, none_⟩⟩
  · exact ⟨rfl, fun _ same => by cases same⟩
  · rw [not_or, not_not, Bool.not_eq_true] at invalid
    rw [not_or] at unusable
    exact absurd ⟨invalid.1, invalid.2, none_, unusable.1, BitVec.not_lt.mp unusable.2⟩ idle

theorem memGrow_full (asks : (s.procs p).Asks delta) (full : growRoom s.pool (s.procs p) delta = none) :
    s.memGrow p delta = (.error .noMemory, s) := by
  obtain ⟨valid, some_, usable⟩ := guards_of_asks asks
  unfold memGrow
  dsimp only
  rw [if_neg valid, if_neg some_, if_neg usable, full]

/-- The process with its room, and with the region its heap then has. -/
theorem memGrow_roomy (asks : (s.procs p).Asks delta)
    (room : growRoom s.pool (s.procs p) delta = some (pool, roomy)) :
    (heapRegionOf roomy = none -> s.memGrow p delta = (.error .regionLimit, { s.setProc p roomy with pool := pool })) ∧
    ∀ proc, heapRegionOf roomy = some proc -> s.memGrow p delta = (.ok proc.heapEnd,
      { ({ s.setProc p roomy with pool := pool } : Nommu).setProc p (heapGrown proc (proc.heapEnd + delta)) with
        mem := kmemZero (zeroToWord 3 (heapFrom proc) s.mem).1 (proc.heapEnd + delta)
          (zeroToWord 3 (heapFrom proc) s.mem).2 }) := by
  obtain ⟨valid, some_, usable⟩ := guards_of_asks asks
  unfold memGrow
  dsimp only
  rw [if_neg valid, if_neg some_, if_neg usable, room]
  dsimp only
  constructor
  · intro none_
    rw [none_]
  · intro proc found
    rw [found]
    rfl

/-- The heap grew: the bytes that join it below its old end decide. -/
theorem grown_iff {u : Nommu} {r : ProcRegion} {old : Word} (aligned : old.toNat % 8 = 0)
    (multiple : delta.toNat % 8 = 0) (room : old.toNat + delta.toNat < 2 ^ 32) (start : (s.procs p).heapEnd = old)
    (found : proc.regions[proc.heapRegion]? = some r) (flags : r.flags = permR ||| permW) (ram : r.mmio = false)
    (ordered : r.start.toNat ≤ r.stop.toNat) (low : r.stop.toNat ≤ old.toNat) (near : old.toNat < r.stop.toNat + 8)
    (record : u.procs p = heapGrown proc (old + delta))
    (mem : u.mem = kmemZero (zeroToWord 3 r.stop s.mem).1 (old + delta) (zeroToWord 3 r.stop s.mem).2) :
    AllOrNothing delta (s.view p) (u.view p) (.ok old) ↔
      ∀ a : Word, r.stop.toNat ≤ a.toNat -> a.toNat < old.toNat -> s.mem a = 0 := by
  have bytes : ∀ a : Word, u.mem a =
      if r.stop.toNat ≤ a.toNat ∧ a.toNat < old.toNat + delta.toNat then 0 else s.mem a := by
    rw [mem]
    exact cleared_apply low near aligned multiple room s.mem
  constructor
  · rintro ⟨_, _, _, kept⟩ a above below
    have same : some (u.mem a) = some (s.mem a) := kept a (s.mem a) below rfl
    rw [bytes a, if_pos ⟨above, by omega⟩] at same
    exact (Option.some.inj same).symm
  · intro clear
    refine ⟨start.symm, ?_, ?_, ?_⟩
    · change (u.procs p).heapEnd = old + delta
      rw [record]
      rfl
    · intro va above below
      refine ⟨⟨{ r with stop := old + delta }, ?_, ram, ?_, ?_, ?_⟩, ?_⟩
      · rw [record]
        refine List.mem_of_getElem? (i := proc.heapRegion) ?_
        unfold heapGrown
        dsimp only
        rw [List.getElem?_modify_eq, found]
        rfl
      · dsimp only
        rw [flags]
        decide
      · dsimp only
        omega
      · dsimp only
        rw [BitVec.toNat_add]
        omega
      · change some (u.mem va) = some 0
        rw [bytes va, if_pos ⟨by omega, below⟩]
    · intro va b below shown
      change some (u.mem va) = some b
      rw [← shown, bytes va]
      split_ifs with inside
      · exact congrArg some (clear va inside.1 below).symm
      · rfl

/-- `proc_mem_grow` without address translation keeps its promise exactly when
the condition holds. -/
theorem memGrow_iff (sound : (s.procs p).heapLimit ≠ 0 -> HeapSound (s.procs p)) (delta : Word) :
    AllOrNothing delta (s.view p) ((s.memGrow p delta).2.view p) (s.memGrow p delta).1 ↔
      ((s.procs p).Asks delta -> s.GrowsWhole p delta) := by
  by_cases asks : (s.procs p).Asks delta
  · have sound := sound asks.2.2.2.1
    by_cases closed : Outgrows (s.procs p) delta ∧ ¬ MayExtend s.pool (s.procs p) delta
    · rw [memGrow_full asks (growRoom_refused closed.1 closed.2)]
      exact ⟨fun _ _ => ⟨fun _ may => absurd may closed.2, fun open_ => absurd (open_ closed.1) closed.2⟩, fun _ => rfl⟩
    · rw [not_and, not_not] at closed
      obtain ⟨pool, roomy, room⟩ : ∃ pool roomy, growRoom s.pool (s.procs p) delta = some (pool, roomy) := by
        by_cases outgrows : Outgrows (s.procs p) delta
        · exact ⟨_, _, growRoom_extends outgrows (closed outgrows)⟩
        · exact ⟨_, _, growRoom_fits outgrows⟩
      obtain ⟨hi, limit, same⟩ := growRoom_same room
      have below := growRoom_room asks.2.2.2.2 asks.2.1 room
      have soundRoomy : HeapSound roomy := by
        rw [same]
        exact heapSound_roomy sound rfl rfl rfl
      cases region : heapRegionOf roomy with
      | none =>
        rw [(memGrow_roomy asks room).1 region]
        have missing : NoRegion (s.procs p) := by
          have none_ := heapRegionOf_none.mp region
          rw [same] at none_
          exact none_
        by_cases outgrows : Outgrows (s.procs p) delta
        · have may := closed outgrows
          constructor
          · intro kept
            have holdings := congrArg Holdings.arenaHi kept
            change (Function.update s.procs p roomy p).arenaHi = (s.procs p).arenaHi at holdings
            rw [growRoom_extends outgrows may] at room
            cases room
            rw [Function.update_self] at holdings
            obtain ⟨arena, _⟩ := rangeFree_spec may.2.2
            have grew := arena.nonempty
            change want (s.procs p) delta = (s.procs p).arenaHi at holdings
            rw [holdings] at grew
            exact absurd grew (Nat.lt_irrefl _)
          · intro holds
            exact absurd missing ((holds asks).region outgrows may)
        · rw [growRoom_fits outgrows] at room
          cases room
          have unchanged : ({ s.setProc p (s.procs p) with pool := s.pool } : Nommu) = s := by
            unfold setProc
            rw [Function.update_eq_self]
          rw [unchanged]
          refine ⟨fun _ _ => ⟨fun outgrown => absurd outgrown outgrows, fun _ r found => ?_⟩, fun _ => rfl⟩
          have outside : (s.procs p).regions[(s.procs p).heapRegion]? = none := by
            rw [List.getElem?_eq_none_iff, missing.1]
            exact Nat.le_trans sound.few (by decide)
          rw [outside] at found
          cases found
      | some proc =>
        obtain ⟨ends, r, found, flags, ram, ordered, low, near, origin⟩ := heapRegionOf_grows soundRoomy region
        have start : (s.procs p).heapEnd = proc.heapEnd := by
          rw [ends, same]
        have regions : roomy.regions[roomy.heapRegion]? = (s.procs p).regions[(s.procs p).heapRegion]? := by
          rw [same]
        have from_ : heapFrom proc = r.stop := by
          unfold heapFrom
          rw [found]
          rfl
        have bound := roomy.heapLimit.isLt
        rw [(memGrow_roomy asks room).2 proc region, from_]
        dsimp only
        have decides := grown_iff (u := { ({ s.setProc p roomy with pool := pool } : Nommu).setProc p
          (heapGrown proc (proc.heapEnd + delta)) with
          mem := kmemZero (zeroToWord 3 r.stop s.mem).1 (proc.heapEnd + delta) (zeroToWord 3 r.stop s.mem).2 })
          (start ▸ sound.aligned) ((Word.and_low_eq_zero delta 3).mp asks.1) (by rw [ends]; omega) start found flags ram ordered (ends ▸ low)
          (ends ▸ near) (Function.update_self ..) rfl
        refine decides.trans ⟨fun clear _ => ⟨fun _ _ missing => ?_, fun _ q listed => ?_⟩, fun holds => ?_⟩
        · have none_ : heapRegionOf roomy = none := by
            rw [heapRegionOf_none, same]
            exact missing
          rw [region] at none_
          cases none_
        · rw [regions] at origin
          rcases origin with old | ⟨_, none_⟩
          · rw [old] at listed
            cases listed
            rw [start]
            exact clear
          · rw [none_] at listed
            cases listed
        · intro a above under
          rw [regions] at origin
          rcases origin with old | ⟨empty, _⟩
          · exact (holds asks).tail closed r old a above (start ▸ under)
          · rw [empty] at above
            rw [ends] at under
            omega
  · obtain ⟨same, idle⟩ := memGrow_idle asks
    rw [same]
    exact ⟨fun _ holds => absurd holds asks, fun _ => allOrNothing_idle idle⟩

/-- The heap is sound after it grew. -/
theorem heapSound_grown {next : Proc} (sound : HeapSound proc) (done : heapRegionOf proc = some next)
    (multiple : delta.toNat % 8 = 0) (room : proc.heapEnd.toNat + delta.toNat < 2 ^ 32) :
    HeapSound (heapGrown next (next.heapEnd + delta)) := by
  obtain ⟨ends, r, found, flags, ram, ordered, low, near, _⟩ := heapRegionOf_grows sound done
  have sum : (next.heapEnd + delta).toNat = proc.heapEnd.toNat + delta.toNat := by
    rw [ends, BitVec.toNat_add]
    omega
  have aligned := sound.aligned
  refine ⟨?_, ?_, fun _ => ⟨{ r with stop := next.heapEnd + delta }, ?_, flags, ram, ?_, ?_, ?_⟩⟩
  · change (next.heapEnd + delta).toNat % 8 = 0
    omega
  · change (next.regions.modify next.heapRegion _).length ≤ fndRegions
    rw [List.length_modify]
    have few := sound.few
    unfold heapRegionOf at done
    split_ifs at done with missing full
    · cases done
      change (proc.regions ++ [_]).length ≤ fndRegions
      rw [List.length_append]
      change proc.regions.length + 1 ≤ fndRegions
      omega
    · cases done
      exact few
  · change (next.regions.modify next.heapRegion _)[next.heapRegion]? = _
    rw [List.getElem?_modify_eq, found]
    rfl
  · change r.start.toNat ≤ (next.heapEnd + delta).toNat
    omega
  · exact Nat.le_refl _
  · exact Nat.lt_add_of_pos_right (by decide)

/-- Growing keeps the heap sound. -/
theorem memGrow_sound (sound : (s.procs p).heapLimit ≠ 0 -> HeapSound (s.procs p)) (delta : Word) :
    ((s.memGrow p delta).2.procs p).heapLimit ≠ 0 -> HeapSound ((s.memGrow p delta).2.procs p) := by
  by_cases asks : (s.procs p).Asks delta
  · have sound := sound asks.2.2.2.1
    cases room : growRoom s.pool (s.procs p) delta with
    | none =>
      rw [memGrow_full asks room]
      exact fun _ => sound
    | some pair =>
      obtain ⟨pool, roomy⟩ := pair
      obtain ⟨hi, limit, same⟩ := growRoom_same room
      have below := growRoom_room asks.2.2.2.2 asks.2.1 room
      have bound := roomy.heapLimit.isLt
      have soundRoomy : HeapSound roomy := by
        rw [same]
        exact heapSound_roomy sound rfl rfl rfl
      intro _
      cases region : heapRegionOf roomy with
      | none =>
        rw [(memGrow_roomy asks room).1 region]
        change HeapSound (Function.update s.procs p roomy p)
        rw [Function.update_self]
        exact soundRoomy
      | some proc =>
        rw [(memGrow_roomy asks room).2 proc region]
        change HeapSound (Function.update (Function.update s.procs p roomy) p _ p)
        rw [Function.update_self]
        exact heapSound_grown soundRoomy region ((Word.and_low_eq_zero delta 3).mp asks.1) (by omega)
  · rw [(memGrow_idle asks).1]
    exact sound

end Nommu

/-! ## Both backends -/

/-- A process on either backend whose memory is in order. -/
inductive HeapOwner where
  | nommu (s : Nommu) (p : ProcId) (sound : (s.procs p).heapLimit ≠ 0 -> HeapSound (s.procs p))
  | vm (s : Vm) (sound : s.Sound)

namespace HeapOwner

def view : HeapOwner -> MemoryView
  | .nommu s p _ => s.view p
  | .vm s _ => s.view

/-- `proc_mem_grow`. -/
def memGrow : HeapOwner -> Word -> Except FndError Word × HeapOwner
  | .nommu s p sound, delta => ((s.memGrow p delta).1, .nommu (s.memGrow p delta).2 p (Nommu.memGrow_sound sound delta))
  | .vm s sound, delta => ((s.memGrow delta).1, .vm (s.memGrow delta).2 (Vm.memGrow_sound sound delta))

/-- When the call keeps its promise.  A call that is refused at once always does. -/
def GrowsWhole : HeapOwner -> Word -> Prop
  | .nommu s p _, delta => (s.procs p).Asks delta -> s.GrowsWhole p delta
  | .vm s _, delta => s.Maps delta -> s.GrowsWhole delta

end HeapOwner

/-- Code at address 0x1000. -/
def codePage : Pte := ⟨0x00412000, true, false, true, true, false, true, false⟩

/-- Where the code is mapped. -/
def codeEntries (k : Word) : Option Pte := if k = 1 then some codePage else none

def codeRoot (k : Word) : Option PageTable := if k = 0 then some ⟨0x00411000, codeEntries⟩ else none

/-- A process of one page of code with its tables in frames 16 and 17, behind
the bounce buffer.  Frame 19 is the last free one. -/
def lastFrame : Vm where
  pool := { frames := 20, free := 1, nextHint := 19, refs := fun f => if f < 19 then 1 else 0 }
  proc := { Proc.zero with
    state := .live, pid := 1, ptRoot := 0x00410000, vmPages := 1, heapStart := 0x2000, heapEnd := 0x2000,
    heapLimit := 0x80000000, heapRegion := 16 }
  root := codeRoot
  mem := fun _ => 0

theorem lastFrame_entry {va : Word} {pte : Pte} (found : lastFrame.entry va = some pte) :
    pte = codePage ∧ Vm.slot va = 0 ∧ Vm.index va = 1 := by
  have root : lastFrame.root = codeRoot := rfl
  unfold Vm.entry at found
  rw [root] at found
  unfold codeRoot at found
  split_ifs at found with slots
  · rw [Option.bind_some] at found
    dsimp only at found
    unfold codeEntries at found
    split_ifs at found with indices
    · exact ⟨(Option.some.inj found).symm, slots, indices⟩
  · cases found

theorem lastFrame_sound : lastFrame.Sound := by
  refine ⟨⟨by decide, by decide, by decide +kernel⟩, ?_, ?_, ?_, ?_, ?_⟩
  · intro va pte found
    rw [(lastFrame_entry found).1]
    decide
  · intro va pte found
    rw [(lastFrame_entry found).1]
    decide +kernel
  · intro va pte found _
    rw [(lastFrame_entry found).1]
    exact ⟨18, by decide, by decide⟩
  · intro va vb first second one two _ _ _
    refine (Vm.same_page va vb).mp ⟨?_, ?_⟩
    · exact (lastFrame_entry one).2.1.trans (lastFrame_entry two).2.1.symm
    · exact (lastFrame_entry one).2.2.trans (lastFrame_entry two).2.2.symm
  · intro va pte found shares
    rw [(lastFrame_entry found).1] at shares
    cases shares

end Src32.Kernel
