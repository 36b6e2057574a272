import Mathlib.Data.Nat.Bitwise
import Src32.Cpu.Translation
import Src32.Lib.Runs

namespace Src32.Cpu

open FirstMatch

/-!
# The privilege state over whole runs, and its data path

The emulator changes the privilege state through checked accesses, system
register writes, trap entry and IRET.  No run of these gives a virtual page two
valid TLB entries.  The loads and stores that follow a check touch the bytes
`physical` names and nothing else, so the confinement of `Translation` is a
statement about the memory they read and write.
-/

/-! ## Runs -/

/-- What the interpreter does to its privilege state. -/
inductive Operation where
  | checkAccess (bus : Bus) (addr : Word) (len : Nat) (access : Access)
  | writeSr (sr : Nat) (value : Word) (reg : Registers)
  | enterException (vfault : Option Word) (reg : Registers) (epc cause : Word) (mode : InstructionMode)
  | leaveTrap (reg : Registers)

/-- `enter_exception` records the address of a page fault before the trap. -/
def SystemState.recordFault (s : SystemState) (vfault : Option Word) : SystemState :=
  { s with vm := { s.vm with vfault := vfault.getD s.vm.vfault } }

/-- The state after one operation.  A write to an unknown register changes
nothing. -/
def SystemState.after (s : SystemState) : Operation -> SystemState
  | .checkAccess bus addr len access => (s.checkAccess bus addr len access).2
  | .writeSr sr value reg => ((s.writeSr sr value reg).map Prod.fst).getD s
  | .enterException vfault reg epc cause mode => ((s.recordFault vfault).enterTrap reg epc cause mode).1
  | .leaveTrap reg => (s.leaveTrap reg).1

/-- The privilege state from reset. -/
def privilege : System SystemState Operation where
  initial := fun s => s = SystemState.initial
  step := fun s operation next => next = s.after operation

theorem uniqueEntries_flush (vm : Vm) : UniqueEntries vm.flush := by
  intro vpn
  refine AtMostOne.of_misses (fun slot => ?_)
  rw [Fin.getElem_fin]
  exact (congrArg (TlbEntry.hits vpn) (Vector.getElem_replicate slot.isLt)).trans (default_misses vpn)

theorem uniqueEntries_invalidate {vm : Vm} (unique : UniqueEntries vm) (va : Word) :
    UniqueEntries (vm.invalidate va) := by
  intro vpn
  refine (unique vpn).map (fun entry hit => ?_)
  by_cases named : entry.vpn = va >>> 12
  · rw [if_pos named] at hit
    cases hit
  · rwa [if_neg named] at hit

theorem enterTrap_vm (s : SystemState) (reg : Registers) (epc cause : Word) (mode : InstructionMode) :
    (s.enterTrap reg epc cause mode).1.vm = s.vm := by
  unfold SystemState.enterTrap
  dsimp only
  split <;> rfl

theorem leaveTrap_vm (s : SystemState) (reg : Registers) : (s.leaveTrap reg).1.vm = s.vm := by
  unfold SystemState.leaveTrap
  dsimp only
  split <;> rfl

/-- What a system register write may do to the TLB: keep it, flush it or
invalidate one page. -/
def TlbWritten (s : SystemState) (value : Word) (next : SystemState) : Prop :=
  next.vm.tlb = s.vm.tlb ∨ next.vm.tlb = s.vm.flush.tlb ∨ next.vm.tlb = (s.vm.invalidate value).tlb

theorem writeSr_tlb (s : SystemState) (sr : Nat) (value : Word) (reg : Registers) :
    ∀ written ∈ s.writeSr sr value reg, TlbWritten s value written.1 := by
  have keeps : ∀ (next : SystemState) (reg : Registers), next.vm.tlb = s.vm.tlb ->
      ∀ written ∈ some (next, reg), TlbWritten s value written.1 := by
    rintro next reg same _ ⟨⟩
    exact Or.inl same
  have flushes : ∀ (next : SystemState) (reg : Registers), next.vm.tlb = s.vm.flush.tlb ->
      ∀ written ∈ some (next, reg), TlbWritten s value written.1 := by
    rintro next reg same _ ⟨⟩
    exact Or.inr (Or.inl same)
  have invalidates : ∀ (next : SystemState) (reg : Registers), next.vm.tlb = (s.vm.invalidate value).tlb ->
      ∀ written ∈ some (next, reg), TlbWritten s value written.1 := by
    rintro next reg same _ ⟨⟩
    exact Or.inr (Or.inr same)
  unfold SystemState.writeSr
  -- one branch a register, in the order of the source
  by_cases status : sr = srStatus
  · rw [if_pos status]; exact keeps _ _ rfl
  rw [if_neg status]
  by_cases epc : sr = srEpc
  · rw [if_pos epc]; exact keeps _ _ rfl
  rw [if_neg epc]
  by_cases cause : sr = srCause
  · rw [if_pos cause]; exact keeps _ _ rfl
  rw [if_neg cause]
  by_cases bank : srUsp ≤ sr ∧ sr ≤ srUgp
  · rw [dif_pos bank]
    by_cases current : s.user = true
    · rw [if_pos current]; exact keeps _ _ rfl
    · rw [if_neg current]; exact keeps _ _ rfl
  rw [dif_neg bank]
  by_cases vctl : sr = srVctl
  · rw [if_pos vctl]; exact keeps _ _ rfl
  rw [if_neg vctl]
  by_cases ptbr : sr = srPtbr
  · rw [if_pos ptbr]; exact flushes _ _ rfl
  rw [if_neg ptbr]
  by_cases vfault : sr = srVfault
  · rw [if_pos vfault]; exact keeps _ _ rfl
  rw [if_neg vfault]
  by_cases flush : sr = srTlbflush
  · rw [if_pos flush]; exact flushes _ _ rfl
  rw [if_neg flush]
  by_cases invalidate : sr = srTlbinv
  · rw [if_pos invalidate]; exact invalidates _ _ rfl
  rw [if_neg invalidate]
  cases SystemState.regionField sr with
  | none => rintro _ ⟨⟩
  | some named => exact keeps _ _ rfl

variable {s : SystemState} {bus : Bus} {va pa addr : Word} {size : Nat}

theorem uniqueEntries_after (unique : UniqueEntries s.vm) (operation : Operation) :
    UniqueEntries (s.after operation).vm := by
  cases operation with
  | checkAccess bus addr len access => exact checkAccess_unique unique bus addr len access
  | writeSr sr value reg =>
    cases written : s.writeSr sr value reg with
    | none =>
      rw [SystemState.after, written]
      exact unique
    | some pair =>
      have tlb := writeSr_tlb s sr value reg pair written
      simp only [SystemState.after, written, Option.map_some, Option.getD_some]
      intro vpn
      rcases tlb with kept | flushed | invalidated
      · exact kept ▸ unique vpn
      · exact flushed ▸ uniqueEntries_flush s.vm vpn
      · exact invalidated ▸ uniqueEntries_invalidate unique value vpn
  | enterException vfault reg epc cause mode =>
    rw [SystemState.after, enterTrap_vm]
    exact fun vpn => unique vpn
  | leaveTrap reg => simpa only [SystemState.after, leaveTrap_vm] using unique

/-- In every run from reset no virtual page has two valid TLB entries. -/
theorem uniqueEntries_of_reachable (reached : privilege.Reachable s) :
    UniqueEntries s.vm := by
  refine reached.invariant (motive := fun s => UniqueEntries s.vm) ?_ ?_
  · rintro start rfl
    exact uniqueEntries_flush Vm.initial
  · rintro first operation second unique rfl
    exact uniqueEntries_after unique operation

/-! ## The data path -/

/-- A physical address the data path of an access of `size` bytes names. -/
def Reaches (s : SystemState) (va : Word) (size : Nat) (pa : Word) : Prop :=
  ∃ i < size, pa = s.physical (va + BitVec.ofNat 32 i)

theorem pageOffset_toNat (va : Word) : (va &&& pageMask).toNat = va.toNat % 4096 := by
  rw [BitVec.toNat_and]
  exact Nat.and_two_pow_sub_one_eq_mod va.toNat 12

theorem frame_or_offset (frame va : Word) :
    frame <<< 12 ||| (va &&& pageMask) = frame <<< 12 + (va &&& pageMask) := by
  refine (BitVec.add_eq_or_of_and_eq_zero _ _ ?_).symm
  have low : frame <<< 12 &&& pageMask = 0#32 := by
    apply BitVec.eq_of_toNat_eq
    rw [pageOffset_toNat]
    simp [Nat.shiftLeft_eq]
  rw [BitVec.and_comm va, ← BitVec.and_assoc, low, BitVec.zero_and]

/-- Inside one page, or untranslated, the physical addresses of an access are
consecutive. -/
theorem physical_add {k : Nat} (small : k < 4) (inPage : s.translating = false ∨ va &&& pageMask ≤ 4096 - 4) :
    s.physical (va + BitVec.ofNat 32 k) = s.physical va + BitVec.ofNat 32 k := by
  by_cases translated : s.translating = true
  · have offset := inPage.resolve_left (by rw [translated]; exact Bool.noConfusion)
    have step : (BitVec.ofNat 32 k).toNat ≤ 3 := by
      rw [BitVec.toNat_ofNat]
      omega
    have bound : va.toNat % 4096 ≤ 4092 := by
      rw [← pageOffset_toNat]
      exact offset
    generalize BitVec.ofNat 32 k = delta at step ⊢
    have page : (va + delta) >>> 12 = va >>> 12 := by bv_omega
    have within : (va + delta) &&& pageMask = (va &&& pageMask) + delta := by
      apply BitVec.eq_of_toNat_eq
      rw [pageOffset_toNat, BitVec.toNat_add, BitVec.toNat_add, pageOffset_toNat]
      omega
    simp only [SystemState.physical, translated, Bool.not_true, Bool.false_eq_true, if_false, page,
      within]
    rw [← within, frame_or_offset _ (va + delta), within, frame_or_offset _ va, BitVec.add_assoc]
  · rw [Bool.not_eq_true] at translated
    simp only [SystemState.physical, translated, Bool.not_false, if_true]

theorem fastPath_inPage (fast : size = 4 ∧ (!s.translating ∨ va &&& pageMask ≤ 4096 - 4)) :
    s.translating = false ∨ va &&& pageMask ≤ 4096 - 4 := by
  rcases fast.2 with identity | offset
  · exact Or.inl (by simpa using identity)
  · exact Or.inr offset

/-- The word access of the fast path names the same four addresses as the byte
loop. -/
theorem reaches_of_fastPath (fast : size = 4 ∧ (!s.translating ∨ va &&& pageMask ≤ 4096 - 4)) {k : Nat}
    (small : k < 4) :
    Reaches s va size (s.physical va + BitVec.ofNat 32 k) :=
  ⟨k, fast.1 ▸ small, (physical_add small (fastPath_inPage fast)).symm⟩

/-- A load depends on the bytes it reaches only. -/
theorem readData_congr {other : Bus} (same : ∀ pa, Reaches s va size pa -> bus.byte pa = other.byte pa) :
    s.readData bus va size = s.readData other va size := by
  unfold SystemState.readData
  by_cases fast : size = 4 ∧ (!s.translating ∨ va &&& pageMask ≤ 4096 - 4)
  · rw [if_pos fast, if_pos fast]
    have zero := same _ (reaches_of_fastPath fast (k := 0) (by omega))
    rw [BitVec.add_zero] at zero
    have one : bus.byte (s.physical va + 1) = other.byte (s.physical va + 1) :=
      same _ (reaches_of_fastPath fast (k := 1) (by omega))
    have two : bus.byte (s.physical va + 2) = other.byte (s.physical va + 2) :=
      same _ (reaches_of_fastPath fast (k := 2) (by omega))
    have three : bus.byte (s.physical va + 3) = other.byte (s.physical va + 3) :=
      same _ (reaches_of_fastPath fast (k := 3) (by omega))
    unfold Bus.readU32Be
    rw [zero, one, two, three]
  · rw [if_neg fast, if_neg fast]
    refine List.foldl_ext _ _ _ (fun acc i inside => ?_)
    rw [Bus.readU8, Bus.readU8, same _ ⟨i, List.mem_range.mp inside, rfl⟩]

theorem writeU8_of_ne {value : Byte} (different : pa ≠ addr) :
    (bus.writeU8 addr value).byte pa = bus.byte pa := if_neg different

theorem foldl_writeU8 {target : Nat -> Word} {value : Nat -> Byte} (indices : List Nat)
    (outside : ∀ i ∈ indices, pa ≠ target i) (bus : Bus) :
    (indices.foldl (fun bus i => bus.writeU8 (target i) (value i)) bus).byte pa = bus.byte pa := by
  induction indices generalizing bus with
  | nil => rfl
  | cons i rest ih =>
    rw [List.foldl_cons, ih (fun j member => outside j (List.mem_cons_of_mem i member))]
    exact writeU8_of_ne (outside i List.mem_cons_self)

/-- A store changes the bytes it reaches only. -/
theorem writeData_frame {value : Word} (outside : ¬ Reaches s va size pa) :
    (s.writeData bus va size value).byte pa = bus.byte pa := by
  unfold SystemState.writeData
  by_cases fast : size = 4 ∧ (!s.translating ∨ va &&& pageMask ≤ 4096 - 4)
  · rw [if_pos fast]
    have apart : ∀ k < 4, pa ≠ s.physical va + BitVec.ofNat 32 k := by
      rintro k small rfl
      exact outside (reaches_of_fastPath fast small)
    have zero := apart 0 (by omega)
    rw [BitVec.add_zero] at zero
    have one : pa ≠ s.physical va + 1 := apart 1 (by omega)
    have two : pa ≠ s.physical va + 2 := apart 2 (by omega)
    have three : pa ≠ s.physical va + 3 := apart 3 (by omega)
    unfold Bus.writeU32Be
    rw [writeU8_of_ne three, writeU8_of_ne two, writeU8_of_ne one, writeU8_of_ne zero]
  · rw [if_neg fast]
    refine foldl_writeU8 _ (fun i inside => ?_) bus
    rintro rfl
    exact outside ⟨i, List.mem_range.mp inside, rfl⟩

/-! ## Confinement of loads and stores -/

/-- A physical address the page tables and the TLB give the access: the byte's
own offset in the frame of a leaf of its page that permits the access. -/
def Named (s : SystemState) (bus : Bus) (addr : Word) (len : Nat) (access : Access) (pa : Word) : Prop :=
  ∃ i < len, ∃ entry, IsLeaf s.vm bus (addr + BitVec.ofNat 32 i) entry ∧
    SystemState.permits entry access = true ∧
    pa = entry.ppn <<< 12 ||| ((addr + BitVec.ofNat 32 i) &&& pageMask)

/-- What a validated access from `before` may do in the state `after` the
check: each byte goes to the frame of a leaf that permits it, a load depends on
named bytes only and a store changes named bytes only. -/
structure UserSafe (before : SystemState) (bus : Bus) (after : SystemState) (addr : Word) (len : Nat)
    (access : Access) : Prop where
  confined : Confined before bus after addr len access
  loads : ∀ other : Bus, (∀ pa, Named before bus addr len access pa -> bus.byte pa = other.byte pa) ->
    after.readData bus addr len = after.readData other addr len
  stores : ∀ value pa, (after.writeData bus addr len value).byte pa ≠ bus.byte pa ->
    Named before bus addr len access pa

theorem Confined.named {before after : SystemState} {len : Nat} {access : Access}
    (confined : Confined before bus after addr len access) (reached : Reaches after addr len pa) :
    Named before bus addr len access pa := by
  obtain ⟨i, inside, rfl⟩ := reached
  obtain ⟨entry, leaf, permitted, reached⟩ := confined i inside
  exact ⟨i, inside, entry, leaf, permitted, reached⟩

theorem userSafe_of_confined {before after : SystemState} {len : Nat} {access : Access}
    (confined : Confined before bus after addr len access) :
    UserSafe before bus after addr len access where
  confined := confined
  loads := fun _ same => readData_congr fun pa reached => same pa (confined.named reached)
  stores := by
    intro value pa changed
    refine confined.named ?_
    by_contra outside
    exact changed (writeData_frame outside)

/-- A translated user access that passes its check is safe exactly when the
check does not evict the first page, or leaves it a frame that a leaf of the
page permits; and no run gives a page two valid TLB entries. -/
theorem userSafe_iff_keepsFirst {s : SystemState} {bus : Bus} {addr : Word} {len : Nat}
    {access : Access} (positive : 1 ≤ len) (small : len ≤ 4) (translated : s.translating = true)
    (done : (s.checkAccess bus addr len access).1 = .ok ()) :
    (UserSafe s bus (s.checkAccess bus addr len access).2 addr len access ↔
      KeepsFirst s.vm bus addr len access) ∧
    ∀ reached, privilege.Reachable reached -> UniqueEntries reached.vm := by
  have exactly := confined_iff_keepsFirst positive small translated done
  refine ⟨⟨fun safe => exactly.mp safe.confined, fun keeps => ?_⟩, fun _ => uniqueEntries_of_reachable⟩
  exact userSafe_of_confined (exactly.mpr keeps)

/-- Page 1 is cached in slot 0 and mapped at 0x500000, page 2 is mapped at
0x600000 and not cached. -/
def crossing (nextVictim : Fin 16) : SystemState :=
  { SystemState.initial with
    user := true
    vm :=
      { Vm.initial with
        enabled := true
        ptbr := 0x10000
        tlb := Vm.initial.tlb.set 0 ⟨true, 1, 0x500, 0x16⟩
        nextVictim := nextVictim } }

/-- The page table of `crossing`. -/
def crossingTable : Bus :=
  (((⟨fun _ => 0, fun _ => false⟩ : Bus).writeU32Be 0x10000 0x00011001).writeU32Be
    0x11004 0x00500017).writeU32Be 0x11008 0x00600017

theorem userSafe_crossing_one :
    UserSafe (crossing 1) crossingTable ((crossing 1).checkAccess crossingTable 0x1FFE 4 .write).2
      0x1FFE 4 .write :=
  (userSafe_iff_keepsFirst (by decide) (by decide) rfl rfl).1.mpr
    (fun evicts => absurd evicts (by decide))

/-- With the victim pointer at slot 0 the store to 0x1FFE passes its check and
goes to frame 0. -/
theorem crossing_zero_unsafe :
    (crossing 0).translating = true ∧
      ((crossing 0).checkAccess crossingTable 0x1FFE 4 .write).1 = .ok () ∧
      ¬ UserSafe (crossing 0) crossingTable ((crossing 0).checkAccess crossingTable 0x1FFE 4 .write).2
        0x1FFE 4 .write := by
  refine ⟨rfl, rfl, fun safe => ?_⟩
  obtain ⟨entry, leaf, _, reached⟩ := safe.confined 0 (by decide)
  have low : entry.ppn <<< 12 = 0#32 <<< 12 :=
    frame_of_physical (reached.symm.trans (by rfl : _ = 0#32 <<< 12 ||| (0x1FFE#32 &&& pageMask)))
  rcases leaf with ⟨slot, rfl, hit⟩ | walked
  · revert low hit
    revert slot
    decide
  · have frame : (crossing 0).vm.walk 0x1FFE crossingTable.readPte = .ok (some ⟨true, 1, 0x500, 0x16⟩) := rfl
    cases Except.ok.inj (walked.symm.trans frame)
    exact absurd low (by decide)

end Src32.Cpu
