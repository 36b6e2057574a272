import Src32.Machine.Word

namespace Src32.Cpu

/-!
# Privilege state and user-mode translation

The state of `cpu_privilege.rs` that decides a memory access: the privilege
mode, the protection regions of Extension P and the page-table walk with its
16-entry FIFO TLB of Extension V.  Each definition follows the method of the
same name; a method that takes `&mut self` returns the new state beside its
result.  The trap registers are kept because system-register writes and trap
entry are the only other operations that reach the TLB or the mode.
-/

def statusIE : Word := 1
def statusPIE : Word := 2
def statusU : Word := 4
def statusPU : Word := 8
def statusPSM : Word := 16

def srStatus : Nat := 0x00
def srEpc : Nat := 0x01
def srCause : Nat := 0x02
def srUsp : Nat := 0x08
def srUgp : Nat := 0x0A
def srRegionBase : Nat := 0x10
def regionCount : Nat := 8
def srVctl : Nat := 0x40
def srPtbr : Nat := 0x41
def srVfault : Nat := 0x42
def srTlbflush : Nat := 0x43
def srTlbinv : Nat := 0x44

/-- Pages are 4 KiB. -/
def pageMask : Word := 0xFFF

def pteV : Word := 1
def pteR : Word := 2
def pteW : Word := 4
def pteX : Word := 8
def pteU : Word := 16
def pteReserved : Word := 0xC0
def pteRwx : Word := pteR ||| pteW ||| pteX

/-- Instruction encoding the CPU resumes in. -/
inductive InstructionMode where
  | normal
  | short
  deriving DecidableEq

/-- Kind of user-mode memory access. -/
inductive Access where
  | read
  | write
  | fetch
  deriving DecidableEq

namespace Access

/-- The region FLAGS bit of the access. -/
def flag : Access -> Word
  | read => 1
  | write => 2
  | fetch => 4

end Access

/-- What a denied access raises. -/
inductive Exception where
  | busError
  | protectionFault (access : Access)
  | pageFault (access : Access) (protection : Bool) (addr : Word)
  deriving DecidableEq

/-- The physical memory a table walk and a data access see.  `fault` marks the
words whose read raises a bus error. -/
structure Bus where
  byte : Word -> Byte
  fault : Word -> Bool

namespace Bus

def readU8 (bus : Bus) (addr : Word) : Byte := bus.byte addr

def readU32Be (bus : Bus) (addr : Word) : Word :=
  Word.ofBytes (bus.byte addr) (bus.byte (addr + 1)) (bus.byte (addr + 2)) (bus.byte (addr + 3))

def writeU8 (bus : Bus) (addr : Word) (value : Byte) : Bus :=
  { bus with byte := fun at_ => if at_ = addr then value else bus.byte at_ }

def writeU32Be (bus : Bus) (addr value : Word) : Bus :=
  (((bus.writeU8 addr ((value >>> 24).setWidth 8)).writeU8 (addr + 1) ((value >>> 16).setWidth 8)).writeU8
    (addr + 2) ((value >>> 8).setWidth 8)).writeU8 (addr + 3) (value.setWidth 8)

/-- One big-endian word of physical memory for the table walk, `none` on a bus
error. -/
def readPte (bus : Bus) (addr : Word) : Option Word :=
  if bus.fault addr then none else some (bus.readU32Be addr)

end Bus

structure TlbEntry where
  valid : Bool
  vpn : Word
  ppn : Word
  /-- `R`, `W`, `X` and `U` bits of the leaf PTE. -/
  flags : Word
  deriving DecidableEq

instance : Inhabited TlbEntry := ⟨⟨false, 0, 0, 0⟩⟩

namespace TlbEntry

/-- The entry translates this virtual page. -/
def hits (vpn : Word) (entry : TlbEntry) : Bool := entry.valid && entry.vpn == vpn

end TlbEntry

/-- Extension V state: control registers and the TLB. -/
structure Vm where
  enabled : Bool
  ptbr : Word
  vfault : Word
  tlb : Vector TlbEntry 16
  nextVictim : Fin 16

namespace Vm

def initial : Vm where
  enabled := false
  ptbr := 0
  vfault := 0
  tlb := Vector.replicate 16 default
  nextVictim := 0

def flush (vm : Vm) : Vm := { vm with tlb := Vector.replicate 16 default, nextVictim := 0 }

def invalidate (vm : Vm) (va : Word) : Vm :=
  { vm with tlb := vm.tlb.map fun entry =>
      if entry.vpn = va >>> 12 then { entry with valid := false } else entry }

def lookup (vm : Vm) (vpn : Word) : Option TlbEntry := vm.tlb.find? (TlbEntry.hits vpn)

def fill (vm : Vm) (entry : TlbEntry) : Vm :=
  { vm with tlb := vm.tlb.set vm.nextVictim entry, nextVictim := vm.nextVictim + 1 }

/-- Hardware table walk.  `ok none` is a missing translation, `error ()` a bus
error while reading a PTE. -/
def walk (vm : Vm) (va : Word) (readWord : Word -> Option Word) : Except Unit (Option TlbEntry) :=
  match readWord ((vm.ptbr &&& ~~~pageMask) + (va >>> 22) * 4) with
  | none => .error ()
  | some l1 =>
    if l1 &&& pteV = 0 ∨ l1 &&& pteReserved ≠ 0 ∨ l1 &&& pteRwx ≠ 0 then .ok none
    else
      match readWord ((l1 &&& ~~~pageMask) + ((va >>> 12) &&& 0x3FF) * 4) with
      | none => .error ()
      | some l2 =>
        if l2 &&& pteV ≠ 0 ∧ l2 &&& pteReserved = 0 ∧ l2 &&& pteRwx ≠ 0 ∧
            (l2 &&& pteW = 0 ∨ l2 &&& pteR ≠ 0) then
          .ok (some ⟨true, va >>> 12, l2 >>> 12, l2 &&& (pteRwx ||| pteU)⟩)
        else .ok none

end Vm

/-- One protection region of Extension P; `stop` is exclusive. -/
structure Region where
  start : Word
  stop : Word
  flags : Word
  deriving DecidableEq

namespace Region

def grants (region : Region) (addr : Word) (access : Access) : Bool :=
  region.flags &&& access.flag ≠ 0 && region.start ≤ addr && addr < region.stop

end Region

/-- Trap and privilege state. -/
structure SystemState where
  ie : Bool
  pie : Bool
  /-- The current mode is User. -/
  user : Bool
  pu : Bool
  psm : InstructionMode
  epc : Word
  cause : Word
  /-- R28..R30 of the mode that is not current. -/
  otherBank : Vector Word 3
  regions : Vector Region 8
  vm : Vm

/-- The register file. -/
abbrev Registers := Vector Word 32

namespace SystemState

def initial : SystemState where
  ie := true
  pie := true
  user := false
  pu := false
  psm := .normal
  epc := 0
  cause := 0
  otherBank := Vector.replicate 3 0
  regions := Vector.replicate 8 ⟨0, 0, 0⟩
  vm := Vm.initial

/-- STATUS write; `U` is read-only. -/
def setStatus (s : SystemState) (value : Word) : SystemState :=
  { s with
    ie := value &&& statusIE ≠ 0
    pie := value &&& statusPIE ≠ 0
    pu := value &&& statusPU ≠ 0
    psm := if value &&& statusPSM ≠ 0 then .short else .normal }

/-- Exchanges R28..R30 with the bank of the other mode. -/
def swapBank (s : SystemState) (reg : Registers) : SystemState × Registers :=
  ({ s with otherBank := Vector.ofFn fun index : Fin 3 => reg[28 + index.val] },
    ((reg.set 28 s.otherBank[0]).set 29 s.otherBank[1]).set 30 s.otherBank[2])

/-- Common entry for IRQs and exceptions. -/
def enterTrap (s : SystemState) (reg : Registers) (epc cause : Word) (mode : InstructionMode) :
    SystemState × Registers :=
  let entered := { s with epc := epc, cause := cause, pie := s.ie, ie := false, pu := s.user, psm := mode }
  if entered.user then
    let (swapped, reg) := entered.swapBank reg
    ({ swapped with user := false }, reg)
  else (entered, reg)

/-- IRET: the new state and the PC and instruction mode to resume. -/
def leaveTrap (s : SystemState) (reg : Registers) :
    SystemState × Registers × Word × InstructionMode :=
  let left := { s with ie := s.pie }
  if left.pu && !left.user then
    let (swapped, reg) := left.swapBank reg
    ({ swapped with user := true }, reg, swapped.epc, swapped.psm)
  else (left, reg, left.epc, left.psm)

/-- Region and field a region SR number names. -/
def regionField (sr : Nat) : Option (Fin 8 × Fin 3) :=
  if sr < srRegionBase then none
  else
    let offset := sr - srRegionBase
    if inRange : offset / 4 < 8 ∧ offset % 4 < 3 then
      some (⟨offset / 4, inRange.1⟩, ⟨offset % 4, inRange.2⟩)
    else none

/-- `MTSR`; `none` for an unknown SR number. -/
def writeSr (s : SystemState) (sr : Nat) (value : Word) (reg : Registers) :
    Option (SystemState × Registers) :=
  if sr = srStatus then some (s.setStatus value, reg)
  else if sr = srEpc then some ({ s with epc := value }, reg)
  else if sr = srCause then some ({ s with cause := value }, reg)
  else if bank : srUsp ≤ sr ∧ sr ≤ srUgp then
    have index : sr - srUsp < 3 := by unfold srUsp srUgp at *; omega
    if s.user then some (s, reg.set (28 + (sr - srUsp)) value)
    else some ({ s with otherBank := s.otherBank.set (sr - srUsp) value }, reg)
  else if sr = srVctl then some ({ s with vm := { s.vm with enabled := value &&& 1 ≠ 0 } }, reg)
  else if sr = srPtbr then
    some ({ s with vm := { s.vm with ptbr := value &&& ~~~pageMask }.flush }, reg)
  else if sr = srVfault then some ({ s with vm := { s.vm with vfault := value } }, reg)
  else if sr = srTlbflush then some ({ s with vm := s.vm.flush }, reg)
  else if sr = srTlbinv then some ({ s with vm := s.vm.invalidate value }, reg)
  else
    match regionField sr with
    | none => none
    | some (region, field) =>
      let old := s.regions[region]
      let new :=
        if field = 0 then { old with start := value }
        else if field = 1 then { old with stop := value }
        else { old with flags := value &&& 7 }
      some ({ s with regions := s.regions.set region new }, reg)

/-- Whether U-mode accesses are translated. -/
def translating (s : SystemState) : Bool := s.user && s.vm.enabled

/-- Region check of an untranslated access.  S mode is never checked. -/
def allows (s : SystemState) (addr : Word) (len : Nat) (access : Access) : Bool :=
  !s.user || (List.range len).all fun index =>
    let byte := addr + BitVec.ofNat 32 index
    byte < cpuReserved && s.regions.any fun region => region.grants byte access

def pteBit : Access -> Word
  | .read => pteR
  | .write => pteW
  | .fetch => pteX

/-- The TLB entry `checkAccess` uses for a page, cached or freshly walked and
filled in. -/
def pageEntry (vm : Vm) (bus : Bus) (page faultAddr : Word) (access : Access) :
    Except Exception (TlbEntry × Vm) :=
  match vm.lookup page with
  | some entry => .ok (entry, vm)
  | none =>
    match vm.walk faultAddr bus.readPte with
    | .error () => .error .busError
    | .ok none => .error (.pageFault access false faultAddr)
    | .ok (some entry) => .ok (entry, vm.fill entry)

/-- The flag test of `checkAccess` on one entry. -/
def permits (entry : TlbEntry) (access : Access) : Bool :=
  !(entry.flags &&& pteU = 0 || entry.flags &&& pteBit access = 0 || entry.ppn <<< 12 ≥ cpuReserved)

/-- The page loop of `checkAccess`.  An access of `len` bytes reaches at most
`len` pages, which is the fuel `checkAccess` gives it. -/
def checkPages (bus : Bus) (addr last : Word) (access : Access) :
    Nat -> Word -> Vm -> Except Exception Unit × Vm
  | 0, _, vm => (.error .busError, vm)
  | fuel + 1, page, vm =>
    let faultAddr := if page = addr >>> 12 then addr else page <<< 12
    if page <<< 12 ≥ cpuReserved then (.error (.pageFault access true faultAddr), vm)
    else
      match pageEntry vm bus page faultAddr access with
      | .error raised => (.error raised, vm)
      | .ok (entry, vm) =>
        if !permits entry access then (.error (.pageFault access true faultAddr), vm)
        else if page = last >>> 12 ∨ page + 1 = 0 then (.ok (), vm)
        else checkPages bus addr last access fuel (page + 1) vm

/-- Whether the current mode may perform this access. -/
def checkAccess (s : SystemState) (bus : Bus) (addr : Word) (len : Nat) (access : Access) :
    Except Exception Unit × SystemState :=
  if !s.translating then
    (if s.allows addr len access then .ok () else .error (.protectionFault access), s)
  else
    let checked := checkPages bus addr (addr + BitVec.ofNat 32 (len - 1)) access len (addr >>> 12) s.vm
    (checked.1, { s with vm := checked.2 })

/-- Physical address of a byte that `checkAccess` just validated. -/
def physical (s : SystemState) (va : Word) : Word :=
  if !s.translating then va
  else
    let ppn := ((s.vm.lookup (va >>> 12)).map TlbEntry.ppn).getD 0
    ppn <<< 12 ||| (va &&& pageMask)

/-- Big-endian load of 1, 2 or 4 bytes after a successful `checkAccess`. -/
def readData (s : SystemState) (bus : Bus) (va : Word) (size : Nat) : Word :=
  if size = 4 ∧ (!s.translating ∨ va &&& pageMask ≤ 4096 - 4) then bus.readU32Be (s.physical va)
  else
    (List.range size).foldl
      (fun acc index => acc <<< 8 ||| (bus.readU8 (s.physical (va + BitVec.ofNat 32 index))).zeroExtend 32) 0

/-- Big-endian store of 1, 2 or 4 bytes after a successful `checkAccess`. -/
def writeData (s : SystemState) (bus : Bus) (va : Word) (size : Nat) (value : Word) : Bus :=
  if size = 4 ∧ (!s.translating ∨ va &&& pageMask ≤ 4096 - 4) then bus.writeU32Be (s.physical va) value
  else
    (List.range size).foldl
      (fun bus index => bus.writeU8 (s.physical (va + BitVec.ofNat 32 index))
        ((value >>> (8 * (size - 1 - index))).setWidth 8)) bus

end SystemState
end Src32.Cpu
