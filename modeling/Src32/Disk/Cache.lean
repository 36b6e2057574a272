import Src32.Kernel.Status

namespace Src32.Disk

open Kernel (FndError fndOk)

/-!
# The sector cache of the disk service

`cache.c`: four windows of up to 128 sectors.  The drive is read through a
function that is called twice at most during one request; both calls are
parameters, so that a drive may fail in any pattern.
-/

/-- DISK_CACHE_SECTORS. -/
def diskCacheSectors : Word := 128

/-- DISK_CACHE_ALL. -/
def diskCacheAll : Word := 0xFFFFFFFF

/-- An entry of `windows` (DISK_CACHE_WINDOWS of them). -/
abbrev WindowIx := Fin 4

/-- The bytes of a buffer. -/
abbrev Buffer := Nat -> Byte

/-- `window`.  It holds something if its count is not 0. -/
structure Window where
  drive : Word
  lba : Word
  count : Word
  age : Nat
  data : Buffer

abbrev Cache := WindowIx -> Window

/-- `disk_read_fn`: the status, and what the buffer holds then. -/
abbrev DiskReadFn := Word -> Word -> Word -> Buffer -> Word × Buffer

/-- `forget`. -/
def forget (cache : Cache) (w : WindowIx) : Cache :=
  if (cache w).count ≠ 0 then
    let aged : Cache := fun i =>
      if (cache i).count ≠ 0 ∧ (cache i).age > (cache w).age then { cache i with age := (cache i).age - 1 }
      else cache i
    Function.update aged w { aged w with count := 0 }
  else cache

/-- The loops over windows that forget some of them. -/
def forgetAll (gone : Window -> Bool) (cache : Cache) : Cache :=
  (List.finRange 4).foldl (fun cache i => if gone (cache i) then forget cache i else cache) cache

/-- `disk_cache_drop`. -/
def diskCacheDrop (cache : Cache) (drive : Word) : Cache :=
  forgetAll (fun w => drive = diskCacheAll || w.drive = drive) cache

/-- A write of these sectors meets those of the window. -/
def Window.meets (w : Window) (drive lba count : Word) : Bool :=
  count ≠ 0 && w.count ≠ 0 && w.drive = drive && if w.lba ≤ lba then lba - w.lba < w.count else w.lba - lba < count

/-- `disk_cache_write`. -/
def diskCacheWrite (cache : Cache) (drive lba count : Word) : Cache :=
  forgetAll (fun w => w.meets drive lba count) cache

/-- `touch`. -/
def touch (cache : Cache) (w : WindowIx) : Cache :=
  let aged : Cache := fun i =>
    if (cache i).count ≠ 0 ∧ (cache i).age < (cache w).age then { cache i with age := (cache i).age + 1 }
    else cache i
  Function.update aged w { aged w with age := 0 }

/-- The window has all of these sectors. -/
def Window.serves (w : Window) (drive lba count : Word) : Bool :=
  w.count ≠ 0 && w.drive = drive && w.lba ≤ lba && count ≤ w.count && lba - w.lba ≤ w.count - count

/-- A window that holds nothing, or the oldest. -/
def victimVisit (cache : Cache) (victim i : WindowIx) : WindowIx :=
  if (cache i).count = 0 ∨ ((cache victim).count ≠ 0 ∧ (cache i).age > (cache victim).age) then i else victim

/-- The window a read that misses replaces. -/
def victim (cache : Cache) : WindowIx := (List.finRange 4).foldl (victimVisit cache) ⟨0, by decide⟩

/-- What `disk_cache_read` answers: a status and where the bytes are. -/
structure Answer where
  status : Word
  /-- `*out`: a window and an index of its data. -/
  out : Option (WindowIx × Nat)

/-- The bytes of a window are read from the drive. -/
def fill (cache : Cache) (w : WindowIx) (data : Buffer) : Cache :=
  Function.update cache w { cache w with data := data }

/-- How many sectors a read that misses asks for: what the capacity leaves, up
to a whole window. -/
def prefetch (lba capacity : Word) : Word :=
  let left := if lba < capacity then capacity - lba else 0
  if left > diskCacheSectors then diskCacheSectors else left

/-- `disk_cache_read` once no window has the sectors.  The failed or partial
read of a victim is never published. -/
def readMissed (first again : DiskReadFn) (cache : Cache) (v : WindowIx) (drive lba count capacity : Word) :
    Answer × Cache :=
  let n := prefetch lba capacity
  if drive ≥ 4 ∨ n < count then
    let read := first drive lba count (cache v).data
    (⟨read.1, some (v, 0)⟩, fill cache v read.2)
  else
    let read := first drive lba n (cache v).data
    let filled := fill cache v read.2
    if read.1 ≠ fndOk then
      let dropped := diskCacheDrop filled diskCacheAll
      let exact_ := again drive lba count (dropped v).data
      (⟨exact_.1, some (v, 0)⟩, fill dropped v exact_.2)
    else
      let published := Function.update filled v { filled v with drive := drive, lba := lba, age := 4, count := n }
      (⟨fndOk, some (v, 0)⟩, touch published v)

/-- `disk_cache_read`. -/
def diskCacheRead (first again : DiskReadFn) (cache : Cache) (drive lba count capacity : Word) : Answer × Cache :=
  if count = 0 ∨ count > diskCacheSectors then (⟨FndError.badArg.code, none⟩, cache)
  else
    match (List.finRange 4).find? fun i => (cache i).serves drive lba count with
    | some w => (⟨fndOk, some (w, (lba - (cache w).lba).toNat * 512)⟩, touch cache w)
    | none => readMissed first again (forget cache (victim cache)) (victim cache) drive lba count capacity

end Src32.Disk
