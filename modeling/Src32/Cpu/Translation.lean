import Src32.Cpu.Privilege
import Src32.Lib.FirstMatch

namespace Src32.Cpu

open FirstMatch
open BitVec (ofNat)
open SystemState (checkPages pageEntry permits)

/-!
# What a validated user access reaches

`checkAccess` walks the pages of an access and may fill the TLB for each of
them; the data path then looks the pages up again through `physical`.  The two
agree unless the fill for the second page overwrites the slot of the first.
This module states what the data path should reach, the frames of leaves that
permit the access, and proves exactly when it does.
-/

/-! ## Leaves of a virtual page -/

/-- `entry` translates the page of `va`: a valid TLB entry for it, or the leaf a
walk of the page table in memory finds. -/
def IsLeaf (vm : Vm) (bus : Bus) (va : Word) (entry : TlbEntry) : Prop :=
  (∃ slot : Fin 16, vm.tlb[slot] = entry ∧ entry.hits (va >>> 12) = true) ∨
    vm.walk va bus.readPte = .ok (some entry)

/-- After the check, byte `va` of the access lies in the frame of a leaf of its
page that permits the access. -/
def ByteConfined (before : SystemState) (bus : Bus) (after : SystemState) (access : Access)
    (va : Word) : Prop :=
  ∃ entry, IsLeaf before.vm bus va entry ∧ permits entry access = true ∧
    after.physical va = entry.ppn <<< 12 ||| (va &&& pageMask)

/-- Every byte of the access is confined. -/
def Confined (before : SystemState) (bus : Bus) (after : SystemState) (addr : Word) (len : Nat)
    (access : Access) : Prop :=
  ∀ i < len, ByteConfined before bus after access (addr + ofNat 32 i)

/-- Page of the last byte of an access. -/
def lastPage (addr : Word) (len : Nat) : Word := (addr + ofNat 32 (len - 1)) >>> 12

/-- The check overwrites the slot the first page is served from: the access
crosses into a second page that is not cached while the first page is cached
in the slot the next fill goes to. -/
def EvictsFirst (vm : Vm) (addr : Word) (len : Nat) : Prop :=
  addr >>> 12 ≠ lastPage addr len ∧ vm.lookup (lastPage addr len) = none ∧
    IsFirst (TlbEntry.hits (addr >>> 12)) vm.tlb vm.nextVictim

instance (vm : Vm) (addr : Word) (len : Nat) : Decidable (EvictsFirst vm addr len) :=
  inferInstanceAs (Decidable (_ ∧ _ ∧ _))

/-- Frame that `physical` answers for the first page once its slot is
overwritten: another entry for the page, else frame 0. -/
def leftFrame (vm : Vm) (addr : Word) : Word :=
  (((vm.fill default).lookup (addr >>> 12)).map TlbEntry.ppn).getD 0 <<< 12

/-- The condition under which the data path stays inside the leaves the check
saw: the first page is not evicted, or the frame left for it is one a leaf of
the page permits anyway. -/
def KeepsFirst (vm : Vm) (bus : Bus) (addr : Word) (len : Nat) (access : Access) : Prop :=
  EvictsFirst vm addr len ->
    ∃ entry, IsLeaf vm bus addr entry ∧ permits entry access = true ∧
      entry.ppn <<< 12 = leftFrame vm addr

/-- No virtual page has two valid TLB entries. -/
def UniqueEntries (vm : Vm) : Prop := ∀ vpn, AtMostOne (TlbEntry.hits vpn) vm.tlb

/-! ## The walk depends on the page only -/

theorem shift_22 (va : Word) : va >>> 22 = (va >>> 12) >>> 10 := by
  rw [← BitVec.shiftRight_add]

variable {entry : TlbEntry} {access : Access} {page fault va addr other : Word} {bus : Bus} {vm after : Vm}
  {s : SystemState} {len : Nat}

theorem walk_congr (vm : Vm) (read : Word -> Option Word) (same : va >>> 12 = other >>> 12) :
    vm.walk va read = vm.walk other read := by
  unfold Vm.walk
  rw [shift_22 va, shift_22 other, same]

theorem IsLeaf.congr (leaf : IsLeaf vm bus va entry) (same : va >>> 12 = other >>> 12) : IsLeaf vm bus other entry := by
  rcases leaf with ⟨slot, stored, hit⟩ | walked
  · exact Or.inl ⟨slot, stored, same ▸ hit⟩
  · exact Or.inr (walk_congr vm bus.readPte same ▸ walked)

/-- A walked leaf is a valid entry for the page walked. -/
theorem hits_of_walk {read : Word -> Option Word} (walked : vm.walk va read = .ok (some entry)) :
    entry.hits (va >>> 12) = true := by
  unfold Vm.walk at walked
  split at walked
  · cases walked
  · split at walked
    · cases walked
    · split at walked
      · cases walked
      · split at walked
        · cases walked
          simp [TlbEntry.hits]
        · cases walked

theorem misses_of_hits (hit : entry.hits page = true) (different : page ≠ other) : entry.hits other = false := by
  simp only [TlbEntry.hits, Bool.and_eq_true, beq_iff_eq] at hit
  simp [TlbEntry.hits, hit.2, different]

theorem default_misses (page : Word) : (default : TlbEntry).hits page = false := rfl

theorem lookup_isLeaf (cached : vm.lookup (va >>> 12) = some entry) : IsLeaf vm bus va entry := by
  obtain ⟨⟨slot, stored⟩, hit⟩ := exists_slot_of_find? cached
  exact Or.inl ⟨slot, stored, hit⟩

/-! ## One page of the check -/

/-- What `pageEntry` does when it succeeds: a cached entry leaves the TLB
alone, a walked leaf is filled in. -/
theorem pageEntry_cases (found : pageEntry vm bus page fault access = .ok (entry, after)) :
    (vm.lookup page = some entry ∧ after = vm) ∨
      (vm.lookup page = none ∧ vm.walk fault bus.readPte = .ok (some entry) ∧ after = vm.fill entry) := by
  unfold pageEntry at found
  split at found
  · next cached =>
      cases found
      exact Or.inl ⟨cached, rfl⟩
  · next missing =>
      split at found
      · cases found
      · cases found
      · next walked =>
          cases found
          exact Or.inr ⟨missing, walked, rfl⟩

/-- The entry the check used is a leaf of the page in the state before. -/
theorem pageEntry_isLeaf (aligned : fault >>> 12 = page)
    (found : pageEntry vm bus page fault access = .ok (entry, after)) :
    IsLeaf vm bus fault entry := by
  rcases pageEntry_cases found with ⟨cached, _⟩ | ⟨_, walked, _⟩
  · exact lookup_isLeaf (aligned ▸ cached)
  · exact Or.inr walked

/-- After the step for a page its entry is the one a lookup finds. -/
theorem pageEntry_lookup (aligned : fault >>> 12 = page)
    (found : pageEntry vm bus page fault access = .ok (entry, after)) :
    after.lookup page = some entry := by
  rcases pageEntry_cases found with ⟨cached, rfl⟩ | ⟨missing, walked, rfl⟩
  · exact cached
  · exact find?_set_of_none vm.nextVictim.isLt missing (aligned ▸ hits_of_walk walked)

theorem pageEntry_unique (aligned : fault >>> 12 = page) (unique : UniqueEntries vm)
    (found : pageEntry vm bus page fault access = .ok (entry, after)) :
    UniqueEntries after := by
  rcases pageEntry_cases found with ⟨_, rfl⟩ | ⟨missing, walked, rfl⟩
  · exact unique
  · intro vpn
    refine AtMostOne.set (unique vpn) (fun hit => ?_)
    by_cases same : page = vpn
    · exact same ▸ missing
    · have miss := misses_of_hits (aligned ▸ hits_of_walk walked) same
      rw [miss] at hit
      cases hit

theorem pageEntry_enabled (found : pageEntry vm bus page fault access = .ok (entry, after)) :
    after.enabled = vm.enabled := by
  rcases pageEntry_cases found with ⟨_, rfl⟩ | ⟨_, _, rfl⟩ <;> rfl

theorem pageEntry_walk (found : pageEntry vm bus page fault access = .ok (entry, after)) (va : Word) :
    after.walk va bus.readPte = vm.walk va bus.readPte := by
  rcases pageEntry_cases found with ⟨_, rfl⟩ | ⟨_, _, rfl⟩ <;> rfl

/-! ## The page loop -/

/-- A page number of 20 bits shifts back to itself. -/
theorem page_round_trip (small : page.toNat < 0x100000) :
    (page <<< 12) >>> 12 = page := by
  bv_omega

/-- The loop keeps what every resolved page keeps. -/
theorem checkPages_induction {motive : Vm -> Prop} (bus : Bus) (addr last : Word) (access : Access)
    (step : ∀ (vm : Vm) (entry : TlbEntry) (after : Vm) (page fault : Word), fault >>> 12 = page ->
      motive vm -> pageEntry vm bus page fault access = .ok (entry, after) -> motive after) (fuel : Nat)
    (small : page.toNat < 0x100000) (holds : motive vm) :
    motive (checkPages bus addr last access fuel page vm).2 := by
  induction fuel generalizing page vm with
  | zero => exact holds
  | succ fuel ih =>
    unfold checkPages
    dsimp only
    by_cases reserved : page <<< 12 ≥ cpuReserved
    · rw [if_pos reserved]
      exact holds
    · rw [if_neg reserved]
      have next : (page + 1).toNat < 0x100000 := by
        unfold cpuReserved at reserved
        bv_omega
      have aligned : (if page = addr >>> 12 then addr else page <<< 12) >>> 12 = page := by
        by_cases first : page = addr >>> 12
        · rw [if_pos first, first]
        · rw [if_neg first]
          exact page_round_trip small
      generalize (if page = addr >>> 12 then addr else page <<< 12) = fault at aligned ⊢
      cases found : pageEntry vm bus page fault access with
      | error raised => exact holds
      | ok pair =>
        have resolved := step vm pair.1 pair.2 page fault aligned holds found
        dsimp only
        split
        · exact resolved
        · split
          · exact resolved
          · exact ih next resolved

theorem firstPage_small (addr : Word) : (addr >>> 12).toNat < 0x100000 := by
  bv_omega

/-- A check leaves the mode alone. -/
theorem checkAccess_translating (s : SystemState) (bus : Bus) (addr : Word) (len : Nat) (access : Access) :
    (s.checkAccess bus addr len access).2.translating = s.translating := by
  unfold SystemState.checkAccess
  split
  · rfl
  · have enabled := checkPages_induction (motive := fun after => after.enabled = s.vm.enabled) bus
      addr (addr + ofNat 32 (len - 1)) access
      (fun _ _ _ _ _ _ old found => (pageEntry_enabled found).trans old) len (firstPage_small addr) rfl
    simp only [SystemState.translating, enabled]

/-- A check never gives a virtual page a second valid entry. -/
theorem checkAccess_unique (unique : UniqueEntries s.vm) (bus : Bus) (addr : Word) (len : Nat) (access : Access) :
    UniqueEntries (s.checkAccess bus addr len access).2.vm := by
  unfold SystemState.checkAccess
  split
  · exact unique
  · exact checkPages_induction (motive := UniqueEntries) bus addr _ access
      (fun _ _ _ _ _ aligned old found => pageEntry_unique aligned old found) len
      (firstPage_small addr) unique

/-! ## The two pages of an access -/

/-- What a successful translated check of at most four bytes did: it resolved
one page, or the first page and then the one behind it. -/
inductive Checked (vm : Vm) (bus : Bus) (addr : Word) (len : Nat) (access : Access) (after : Vm) : Prop
  | one (entry : TlbEntry) (same : addr >>> 12 = lastPage addr len)
      (found : pageEntry vm bus (addr >>> 12) addr access = .ok (entry, after))
      (permitted : permits entry access = true)
  | two (entry next : TlbEntry) (middle : Vm) (different : addr >>> 12 ≠ lastPage addr len)
      (found : pageEntry vm bus (addr >>> 12) addr access = .ok (entry, middle))
      (permitted : permits entry access = true)
      (foundNext : pageEntry middle bus (lastPage addr len) (lastPage addr len <<< 12)
        access = .ok (next, after))
      (permittedNext : permits next access = true)

theorem step_of_checkPages {last : Word} {fuel : Nat}
    (done : checkPages bus addr last access (fuel + 1) page vm = (.ok (), after)) :
    page <<< 12 < cpuReserved ∧
      ∃ entry middle,
        pageEntry vm bus page (if page = addr >>> 12 then addr else page <<< 12) access =
          .ok (entry, middle) ∧
        permits entry access = true ∧
        ((page = last >>> 12 ∨ page + 1 = 0) ∧ after = middle ∨
          ¬ (page = last >>> 12 ∨ page + 1 = 0) ∧
            checkPages bus addr last access fuel (page + 1) middle = (.ok (), after)) := by
  unfold checkPages at done
  dsimp only at done
  generalize (if page = addr >>> 12 then addr else page <<< 12) = fault at done ⊢
  by_cases reserved : page <<< 12 ≥ cpuReserved
  · rw [if_pos reserved] at done
    cases done
  · rw [if_neg reserved] at done
    refine ⟨by bv_omega, ?_⟩
    cases found : pageEntry vm bus page fault access with
    | error raised =>
      rw [found] at done
      cases done
    | ok pair =>
      obtain ⟨entry, middle⟩ := pair
      rw [found] at done
      dsimp only at done
      by_cases permitted : permits entry access = true
      · rw [permitted, Bool.not_true, if_neg Bool.false_ne_true] at done
        refine ⟨entry, middle, rfl, permitted, ?_⟩
        by_cases stop : page = last >>> 12 ∨ page + 1 = 0
        · rw [if_pos stop] at done
          cases done
          exact Or.inl ⟨stop, rfl⟩
        · rw [if_neg stop] at done
          exact Or.inr ⟨stop, done⟩
      · rw [Bool.not_eq_true] at permitted
        rw [permitted, Bool.not_false, if_pos rfl] at done
        cases done

/-- At most four bytes from below the reserved area end in the page of the
first byte or the one behind it. -/
theorem lastPage_cases (positive : 1 ≤ len) (small : len ≤ 4) (below : (addr >>> 12) <<< 12 < cpuReserved) :
    lastPage addr len = addr >>> 12 ∨ lastPage addr len = addr >>> 12 + 1 := by
  unfold lastPage
  unfold cpuReserved at below
  have bound : (ofNat 32 (len - 1)).toNat ≤ 3 := by
    rw [BitVec.toNat_ofNat]
    omega
  generalize ofNat 32 (len - 1) = span at bound ⊢
  bv_omega

theorem checked_of_checkAccess (positive : 1 ≤ len) (small : len ≤ 4) (translated : s.translating = true)
    (done : (s.checkAccess bus addr len access).1 = .ok ()) :
    Checked s.vm bus addr len access (s.checkAccess bus addr len access).2.vm := by
  simp only [SystemState.checkAccess, translated, Bool.not_true, Bool.false_eq_true, if_false] at done ⊢
  generalize outcome : checkPages bus addr (addr + ofNat 32 (len - 1)) access len
    (addr >>> 12) s.vm = result at done ⊢
  obtain ⟨status, after⟩ := result
  subst done
  obtain ⟨rest, rfl⟩ : ∃ rest, len = rest + 1 := ⟨len - 1, by omega⟩
  obtain ⟨below, entry, middle, found, permitted, ending⟩ := step_of_checkPages outcome
  rw [if_pos rfl] at found
  have pages := lastPage_cases positive small below
  have bounded : (addr >>> 12).toNat < 0x100000 := by bv_omega
  rcases ending with ⟨stop, rfl⟩ | ⟨more, continued⟩
  · refine .one entry ?_ found permitted
    rcases stop with last | wrapped
    · exact last
    · exfalso
      bv_omega
  · have different : addr >>> 12 ≠ lastPage addr (rest + 1) := fun same => more (Or.inl same)
    have second : lastPage addr (rest + 1) = addr >>> 12 + 1 := pages.resolve_left (Ne.symm different)
    cases rest with
    | zero =>
      exact absurd (by simp [lastPage]) different
    | succ rest =>
      obtain ⟨_, next, final, foundNext, permittedNext, endingNext⟩ := step_of_checkPages continued
      rw [← second, if_neg (Ne.symm different)] at foundNext
      rcases endingNext with ⟨_, rfl⟩ | ⟨more, _⟩
      · exact .two entry next middle different found permitted foundNext permittedNext
      · exact absurd (Or.inl second.symm) more

/-! ## The data path after the check -/

theorem physical_of_lookup (translated : s.translating = true) (cached : s.vm.lookup (va >>> 12) = some entry) :
    s.physical va = entry.ppn <<< 12 ||| (va &&& pageMask) := by
  simp [SystemState.physical, translated, cached]

theorem frame_of_physical {frame : Word}
    (same : frame <<< 12 ||| (va &&& pageMask) = other <<< 12 ||| (va &&& pageMask)) :
    frame <<< 12 = other <<< 12 := by
  have offset : (va &&& pageMask) >>> 12 = 0#32 := by
    rw [BitVec.ushiftRight_and_distrib]
    exact BitVec.and_zero
  have shifted := congrArg (fun word : Word => word >>> 12) same
  simp only [BitVec.ushiftRight_or_distrib, offset, BitVec.or_zero] at shifted
  bv_omega

/-- A byte of an access of at most four bytes lies in its first or its last
page. -/
theorem byte_page {i : Nat} (small : len ≤ 4) (inside : i < len) :
    (addr + ofNat 32 i) >>> 12 = addr >>> 12 ∨
      (addr + ofNat 32 i) >>> 12 = lastPage addr len := by
  unfold lastPage
  have first : (ofNat 32 i).toNat = i := by
    rw [BitVec.toNat_ofNat]
    omega
  have last : (ofNat 32 (len - 1)).toNat = len - 1 := by
    rw [BitVec.toNat_ofNat]
    omega
  have order : (ofNat 32 i).toNat ≤ (ofNat 32 (len - 1)).toNat := by omega
  have bound : (ofNat 32 (len - 1)).toNat ≤ 3 := by omega
  clear first last
  generalize ofNat 32 (len - 1) = span at order bound ⊢
  generalize ofNat 32 i = offset at order ⊢
  bv_omega

theorem byteConfined_of_lookup {before after : SystemState} (translated : after.translating = true)
    (cached : after.vm.lookup (va >>> 12) = some entry) (leaf : IsLeaf before.vm bus va entry)
    (permitted : permits entry access = true) :
    ByteConfined before bus after access va :=
  ⟨entry, leaf, permitted, physical_of_lookup translated cached⟩

/-- A leaf of another page than the one just resolved was a leaf before. -/
theorem IsLeaf.of_pageEntry {middle : Vm} {leaf : TlbEntry} (aligned : fault >>> 12 = page)
    (different : page ≠ va >>> 12) (found : pageEntry vm bus page fault access = .ok (entry, middle))
    (isLeaf : IsLeaf middle bus va leaf) : IsLeaf vm bus va leaf := by
  rcases isLeaf with ⟨slot, stored, hit⟩ | walked
  · rcases pageEntry_cases found with ⟨_, rfl⟩ | ⟨_, walkedFirst, rfl⟩
    · exact Or.inl ⟨slot, stored, hit⟩
    · refine Or.inl ⟨slot, ?_, hit⟩
      by_cases same : vm.nextVictim.val = slot.val
      · have fresh : leaf = entry := by
          rw [← stored]
          simp [Vm.fill, same]
        rw [fresh, misses_of_hits (aligned ▸ hits_of_walk walkedFirst) different] at hit
        cases hit
      · rw [← stored]
        exact (Vector.getElem_set_ne vm.nextVictim.isLt slot.isLt same).symm
  · exact Or.inr (pageEntry_walk found va ▸ walked)

/-- Resolving the second page keeps the entry of the first one, unless the fill
goes to its slot. -/
theorem first_survives {middle : Vm} {first second : Word} {next : TlbEntry} (different : first ≠ second)
    (aligned : fault >>> 12 = second) (cached : middle.lookup first = some entry)
    (kept : middle.lookup second = none -> ¬ IsFirst (TlbEntry.hits first) middle.tlb middle.nextVictim)
    (foundNext : pageEntry middle bus second fault access = .ok (next, after)) :
    after.lookup first = some entry := by
  rcases pageEntry_cases foundNext with ⟨_, rfl⟩ | ⟨missing, walked, rfl⟩
  · exact cached
  · have miss := misses_of_hits (aligned ▸ hits_of_walk walked) (Ne.symm different)
    exact (find?_set_of_not_isFirst miss (kept missing)).trans cached

/-- The slot after the one just filled is not the first match of the page just
filled. -/
theorem not_isFirst_after_fill (missing : vm.lookup page = none) :
    ¬ IsFirst (TlbEntry.hits page) (vm.fill entry).tlb (vm.fill entry).nextVictim := by
  rintro ⟨hit, _⟩
  have apart : vm.nextVictim.val ≠ (vm.nextVictim + 1).val := by
    have range := vm.nextVictim.isLt
    change _ ≠ (vm.nextVictim.val + 1) % 16
    omega
  have old : (vm.fill entry).tlb[(vm.fill entry).nextVictim] = vm.tlb[vm.nextVictim + 1] :=
    Vector.getElem_set_ne vm.nextVictim.isLt (vm.nextVictim + 1).isLt apart
  rw [old] at hit
  exact Vector.find?_eq_none.mp missing _ (Vector.getElem_mem (vm.nextVictim + 1).isLt) hit

/-! ## The data path against the check -/

section Data

variable {s after : SystemState} {bus : Bus} {addr : Word} {len : Nat} {access : Access}

variable {entry next : TlbEntry} {middle : Vm} {va : Word}

theorem confined_of_one_page (small : len ≤ 4) (translated : after.translating = true)
    (same : addr >>> 12 = lastPage addr len)
    (found : pageEntry s.vm bus (addr >>> 12) addr access = .ok (entry, after.vm))
    (permitted : permits entry access = true) : Confined s bus after addr len access := by
  intro i inside
  have page := (byte_page small inside).elim id (fun last => last.trans same.symm)
  exact byteConfined_of_lookup translated (page ▸ pageEntry_lookup rfl found)
    ((pageEntry_isLeaf rfl found).congr page.symm) permitted

/-- The bytes in the second page are always confined: its entry was resolved
last. -/
theorem second_page_confined (translated : after.translating = true) (different : addr >>> 12 ≠ lastPage addr len)
    (found : pageEntry s.vm bus (addr >>> 12) addr access = .ok (entry, middle))
    (foundNext : pageEntry middle bus (lastPage addr len) (lastPage addr len <<< 12)
      access = .ok (next, after.vm)) (permittedNext : permits next access = true)
    (page : va >>> 12 = lastPage addr len) : ByteConfined s bus after access va := by
  have aligned : (lastPage addr len <<< 12) >>> 12 = lastPage addr len :=
    page_round_trip (firstPage_small _)
  have cached := pageEntry_lookup aligned foundNext
  have leaf := (pageEntry_isLeaf aligned foundNext).congr (aligned.trans page.symm)
  have apart : addr >>> 12 ≠ va >>> 12 := fun same => different (same.trans page)
  exact byteConfined_of_lookup translated (page ▸ cached) (leaf.of_pageEntry rfl apart found)
    permittedNext

/-- Without an eviction the entry of the first page is still there. -/
theorem first_page_confined (translated : after.translating = true) (different : addr >>> 12 ≠ lastPage addr len)
    (found : pageEntry s.vm bus (addr >>> 12) addr access = .ok (entry, middle))
    (permitted : permits entry access = true)
    (foundNext : pageEntry middle bus (lastPage addr len) (lastPage addr len <<< 12)
      access = .ok (next, after.vm)) (kept : ¬ EvictsFirst s.vm addr len) (page : va >>> 12 = addr >>> 12) :
    ByteConfined s bus after access va := by
  have survives : middle.lookup (lastPage addr len) = none ->
      ¬ IsFirst (TlbEntry.hits (addr >>> 12)) middle.tlb middle.nextVictim := by
    intro missing isFirst
    rcases pageEntry_cases found with ⟨_, rfl⟩ | ⟨missingFirst, _, rfl⟩
    · exact kept ⟨different, missing, isFirst⟩
    · exact not_isFirst_after_fill missingFirst isFirst
  have cached := first_survives different (page_round_trip (firstPage_small _))
    (pageEntry_lookup rfl found) survives foundNext
  exact byteConfined_of_lookup translated (page ▸ cached) ((pageEntry_isLeaf rfl found).congr page.symm)
    permitted

/-- After an eviction the first page is served from what is left of it. -/
theorem physical_of_evicted (translated : after.translating = true) (evicts : EvictsFirst s.vm addr len)
    (found : pageEntry s.vm bus (addr >>> 12) addr access = .ok (entry, middle))
    (foundNext : pageEntry middle bus (lastPage addr len) (lastPage addr len <<< 12)
      access = .ok (next, after.vm)) (page : va >>> 12 = addr >>> 12) :
    after.physical va = leftFrame s.vm addr ||| (va &&& pageMask) := by
  obtain ⟨different, missing, isFirst⟩ := evicts
  rcases pageEntry_cases found with ⟨_, rfl⟩ | ⟨missingFirst, _, _⟩
  · rcases pageEntry_cases foundNext with ⟨cached, _⟩ | ⟨_, walked, filled⟩
    · rw [missing] at cached
      cases cached
    · have aligned := page_round_trip (firstPage_small (addr + ofNat 32 (len - 1)))
      have miss := misses_of_hits (aligned ▸ hits_of_walk walked) (Ne.symm different)
      have lookup : after.vm.lookup (addr >>> 12) = (s.vm.fill default).lookup (addr >>> 12) := by
        rw [filled]
        exact find?_set_congr s.vm.nextVictim.isLt miss (default_misses (addr >>> 12))
      simp only [SystemState.physical, translated, Bool.not_true, Bool.false_eq_true, if_false, page,
        lookup, leftFrame]
  · exact absurd isFirst.1 (Vector.find?_eq_none.mp missingFirst _
      (Vector.getElem_mem s.vm.nextVictim.isLt))

end Data

/-- Exactly when the data path of a validated access stays inside the frames of
leaves that permit it. -/
theorem confined_iff_keepsFirst (positive : 1 ≤ len) (small : len ≤ 4) (translated : s.translating = true)
    (done : (s.checkAccess bus addr len access).1 = .ok ()) :
    Confined s bus (s.checkAccess bus addr len access).2 addr len access ↔
      KeepsFirst s.vm bus addr len access := by
  have checked := checked_of_checkAccess positive small translated done
  have after := (checkAccess_translating s bus addr len access).trans translated
  cases checked with
  | one entry same found permitted =>
    constructor
    · intro _ evicts
      exact absurd same evicts.1
    · intro _
      exact confined_of_one_page small after same found permitted
  | two entry next middle different found permitted foundNext permittedNext =>
    by_cases evicts : EvictsFirst s.vm addr len
    · constructor
      · intro confined _
        obtain ⟨leaf, isLeaf, leafPermits, reached⟩ := confined 0 positive
        rw [BitVec.add_zero] at isLeaf reached
        have left := physical_of_evicted after evicts found foundNext rfl
        exact ⟨leaf, isLeaf, leafPermits, frame_of_physical (reached.symm.trans left)⟩
      · intro keeps i inside
        obtain ⟨leaf, isLeaf, leafPermits, frame⟩ := keeps evicts
        rcases byte_page small inside with page | page
        · exact ⟨leaf, isLeaf.congr page.symm, leafPermits,
            frame ▸ physical_of_evicted after evicts found foundNext page⟩
        · exact second_page_confined after different found foundNext permittedNext page
    · constructor
      · intro _ impossible
        exact absurd impossible evicts
      · intro _ i inside
        rcases byte_page small inside with page | page
        · exact first_page_confined after different found permitted foundNext evicts page
        · exact second_page_confined after different found foundNext permittedNext page

end Src32.Cpu
