import Src32.Kernel.Frames

namespace Src32.Kernel

/-!
# Address spaces

The backend with address translation: a page table for each process and frames
of the pool behind it.  A table lies in a frame of its own that no entry names,
so it is kept here as a value and not as the words of that frame.  A function
that may fail returns what happened beside the state it leaves.
-/

/-- A level-2 entry with `PTE_V`. -/
structure Pte where
  frame : Word
  read : Bool
  write : Bool
  exec : Bool
  user : Bool
  /-- `PTE_DEV`. -/
  dev : Bool
  /-- `PTE_OWNED`: the frame goes with the process. -/
  owned : Bool
  /-- `PTE_COW`: shared until a write. -/
  cow : Bool
  deriving DecidableEq, Repr

/-- A level-2 table with the frame it lies in. -/
structure PageTable where
  frame : Word
  entries : Word -> Option Pte

/-- A process with its tables, the pool and the RAM. -/
structure Vm where
  pool : Pool
  proc : Proc
  /-- The level-1 table: the entries with `PTE_V`. -/
  root : Word -> Option PageTable
  mem : Wax.Memory

/-- The permissions of the heap. -/
def heapPerm : Word := permR ||| permW

/-- A new entry of an owned frame. -/
def Pte.fresh (frame perm : Word) : Pte where
  frame := frame
  read := perm &&& permR ≠ 0
  write := perm &&& permW ≠ 0
  exec := perm &&& permX ≠ 0
  user := true
  dev := false
  owned := true
  cow := false

/-- An entry gains permissions. -/
def Pte.gain (pte : Pte) (perm : Word) : Pte :=
  { pte with
    user := true
    read := pte.read || perm &&& permR ≠ 0
    write := pte.write || perm &&& permW ≠ 0
    exec := pte.exec || perm &&& permX ≠ 0 }

/-- The end of `mm_vm_cow`: the entry is written to from now on. -/
def Pte.resolved (pte : Pte) (frame : Word) : Pte := { pte with frame := frame, cow := false, write := true }

/-- Where an address of the page lies in memory. -/
def Pte.physical (pte : Pte) (va : Word) : Word := pte.frame ||| (va &&& mmPageMask)

namespace Vm

/-- The level-1 index. -/
def slot (va : Word) : Word := va >>> 22

/-- The level-2 index. -/
def index (va : Word) : Word := (va >>> 12) &&& 0x3FF

/-- `l2_entry` without `create`, as far as the entry is valid. -/
def entry (s : Vm) (va : Word) : Option Pte := (s.root (slot va)).bind fun table => table.entries (index va)

/-- The entry of an address whose table exists is written. -/
def setEntry (s : Vm) (va : Word) (pte : Pte) : Vm :=
  { s with
    root := Function.update s.root (slot va)
      ((s.root (slot va)).map fun table => { table with entries := Function.update table.entries (index va) (some pte) }) }

/-- `frame_alloc`: a free frame, cleared. -/
def frameAlloc (s : Vm) : Option (Word × Vm) :=
  match s.pool.frameAlloc with
  | none => none
  | some (f, pool) =>
    some (frameAddr f, { s with pool := pool, mem := kmemZero (frameAddr f) (frameAddr f + mmPage) s.mem })

/-- `l2_entry` with `create`: the table exists afterwards. -/
def tableFor (s : Vm) (va : Word) : Option Vm :=
  match s.root (slot va) with
  | some _ => some s
  | none =>
    match s.frameAlloc with
    | none => none
    | some (frame, s) => some { s with root := Function.update s.root (slot va) (some ⟨frame, fun _ => none⟩) }

/-- Whether an entry may be resolved: an owned copy-on-write page of the user. -/
def eligible (pte : Pte) : Bool := pte.user && pte.owned && pte.cow && !pte.dev

/-- Whether others hold the frame as well. -/
def shared (s : Vm) (pte : Pte) : Bool := 1 < (s.pool.refs (firstPage pte.frame)).toNat

/-- `mm_vm_cow`. -/
def cow (s : Vm) (va : Word) : Except FndError Unit × Vm :=
  match s.entry va with
  | none => (.error .access, s)
  | some pte =>
    if !eligible pte then (.error .access, s)
    else if s.shared pte then
      match s.frameAlloc with
      | none => (.error .noMemory, s)
      | some (copy, s) =>
        let s := { s with mem := kmemCopy copy pte.frame mmPage s.mem, pool := s.pool.frameFree pte.frame }
        (.ok (), s.setEntry va (pte.resolved copy))
    else (.ok (), s.setEntry va (pte.resolved pte.frame))

/-- The body of the loop of `mm_vm_map` once the table exists. -/
def mapEntry (s : Vm) (page perm : Word) : Except FndError Unit × Vm :=
  match s.entry page with
  | some pte =>
    if pte.cow && perm &&& permW ≠ 0 then
      match s.cow page with
      | (.error error, s) => (.error error, s)
      | (.ok (), s) => (.ok (), s.setEntry page (((s.entry page).getD pte).gain perm))
    else (.ok (), s.setEntry page (pte.gain perm))
  | none =>
    match s.frameAlloc with
    | none => (.error .noMemory, s)
    | some (frame, s) =>
      (.ok (), { s.setEntry page (Pte.fresh frame perm) with proc := { s.proc with vmPages := s.proc.vmPages + 1 } })

/-- The body of the loop of `mm_vm_map`. -/
def mapPage (s : Vm) (page perm : Word) : Except FndError Unit × Vm :=
  match s.tableFor page with
  | none => (.error .noMemory, s)
  | some s => s.mapEntry page perm

/-- The loop of `mm_vm_map` over its pages.  What it mapped stays when a page
fails. -/
def mapPages (s : Vm) (perm : Word) : List Word -> Except FndError Unit × Vm
  | [] => (.ok (), s)
  | page :: rest =>
    match s.mapPage page perm with
    | (.error error, s) => (.error error, s)
    | (.ok (), s) => mapPages s perm rest

/-- The pages of that loop: from the page of `start` on, below `stop`. -/
def pagesOf (start stop : Word) : List Word :=
  (List.range ((stop.toNat - (Page.down start).toNat + 4095) / 4096)).map fun i =>
    Page.down start + BitVec.ofNat 32 i * mmPage

/-- `mm_vm_map`. -/
def map (s : Vm) (start stop perm : Word) : Except FndError Unit × Vm := s.mapPages perm (pagesOf start stop)

/-- `proc_mem_grow` of a process with a page table: the old end of the heap. -/
def memGrow (s : Vm) (delta : Word) : Except FndError Word × Vm :=
  let old := s.proc.heapEnd
  if delta &&& 7 ≠ 0 ∨ delta.msb then (.error .badArg, s)
  else if delta = 0 then (.ok old, s)
  else if s.proc.heapLimit = 0 ∨ old > s.proc.heapLimit then (.error .noMemory, s)
  else if delta > s.proc.heapLimit - old then (.error .noMemory, s)
  else
    match s.map old (old + delta) heapPerm with
    | (.error error, s) => (.error error, s)
    | (.ok (), s) => (.ok old, { s with proc := { s.proc with heapEnd := old + delta } })

/-! ## What the process sees -/

/-- The byte at an address, where a page is mapped. -/
def byteAt (s : Vm) (va : Word) : Option Byte := (s.entry va).map fun pte => s.mem (pte.physical va)

variable {s t u : Vm} {va page : Word} {pte : Pte}

theorem slot_toNat (va : Word) : (slot va).toNat = va.toNat / 4194304 := by
  unfold slot
  rw [BitVec.toNat_ushiftRight, Nat.shiftRight_eq_div_pow]

theorem index_toNat (va : Word) : (index va).toNat = va.toNat / 4096 % 1024 := by
  unfold index
  rw [BitVec.toNat_and, BitVec.toNat_ushiftRight, Nat.shiftRight_eq_div_pow]
  exact Nat.and_two_pow_sub_one_eq_mod (va.toNat / 2 ^ 12) 10

/-- Two addresses have the same entry exactly when they lie on one page. -/
theorem same_page (va vb : Word) : slot va = slot vb ∧ index va = index vb ↔ Page.down va = Page.down vb := by
  rw [← BitVec.toNat_inj, ← BitVec.toNat_inj, ← BitVec.toNat_inj, slot_toNat, slot_toNat, index_toNat, index_toNat]
  have first := Page.down_toNat va
  have second := Page.down_toNat vb
  omega

theorem entry_congr {vb : Word} (same : Page.down va = Page.down vb) : s.entry va = s.entry vb := by
  obtain ⟨slots, indices⟩ := (same_page va vb).mpr same
  unfold entry
  rw [slots, indices]

theorem entry_setEntry (present : (s.root (slot page)).isSome = true) (pte : Pte) (va : Word) :
    (s.setEntry page pte).entry va = if Page.down va = Page.down page then some pte else s.entry va := by
  obtain ⟨table, there⟩ := Option.isSome_iff_exists.mp present
  unfold entry setEntry
  dsimp only
  rw [there, Option.map_some]
  by_cases slots : slot va = slot page
  · rw [slots, Function.update_self, there, Option.bind_some, Option.bind_some]
    by_cases indices : index va = index page
    · rw [if_pos ((same_page va page).mp ⟨slots, indices⟩), indices]
      exact Function.update_self ..
    · rw [if_neg fun same => indices ((same_page va page).mpr same).2]
      exact Function.update_of_ne indices ..
  · rw [if_neg fun same => slots ((same_page va page).mpr same).1, Function.update_of_ne slots]

theorem setEntry_present (s : Vm) (page : Word) (pte : Pte) (k : Word) :
    ((s.setEntry page pte).root k).isSome = (s.root k).isSome := by
  unfold setEntry
  dsimp only
  by_cases here : k = slot page
  · rw [here, Function.update_self, Option.isSome_map]
  · rw [Function.update_of_ne here]

theorem setEntry_twice (s : Vm) (page : Word) (first second : Pte) :
    (s.setEntry page first).setEntry page second = s.setEntry page second := by
  unfold setEntry
  dsimp only
  rw [Function.update_self, Function.update_idem, Option.map_map]
  congr 2
  congr 1
  funext table
  dsimp only [Function.comp]
  rw [Function.update_idem]

/-- A mapped address lies in its frame, as far in as in its page. -/
theorem physical_toNat (aligned : pte.frame.toNat % 4096 = 0) (va : Word) :
    (pte.physical va).toNat = pte.frame.toNat + va.toNat % 4096 := by
  have low : pte.frame &&& mmPageMask = 0 := (Page.aligned_iff pte.frame).mpr aligned
  have apart : pte.frame &&& (va &&& mmPageMask) = 0#32 := by
    rw [BitVec.and_comm va, ← BitVec.and_assoc, low]
    exact BitVec.zero_and
  unfold Pte.physical
  rw [← BitVec.add_eq_or_of_and_eq_zero _ _ apart, BitVec.toNat_add_of_and_eq_zero apart, Page.offset_toNat]

end Vm
end Src32.Kernel
