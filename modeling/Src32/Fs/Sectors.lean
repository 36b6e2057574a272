import Src32.Kernel.Status
import Src32.Lib.DirectMapped

namespace Src32.Fs

open Kernel (FndError)

/-!
# The sectors of a volume

`fs2.c` reads and writes the sectors of its device through a write-through
cache.  A miss reads a run of sectors ahead; a scan of a directory reads through
the read-ahead buffer alone.  What the device answers is an argument of each
call: a read that fails may leave anything in the buffer, a write that fails
anything in the sector.
-/

/-- FS2_CACHE_SECTORS. -/
def fs2CacheSectors : Nat := 32

/-- FS2_CACHE_META. -/
def fs2CacheMeta : Nat := 8

/-- FS2_READ_AHEAD. -/
def fs2ReadAhead : Word := 8

/-- An entry of `cache`. -/
abbrev CacheIx := Fin fs2CacheSectors

/-- `fs2_cache_line`. -/
abbrev CacheLine (Sector : Type) := DirectMapped.Line Word Sector

/-- What the sector layer has of a volume. -/
structure Vol (Sector : Type) where
  /-- The sectors of the device. -/
  sectors : Word
  dataStart : Word
  failed : Bool
  txWrites : Word
  scan : Bool
  scanLba : Word
  scanN : Word
  cache : CacheIx -> CacheLine Sector
  ahead : Nat -> Sector

/-- How a device answers a read. -/
inductive DevRead (Sector : Type) where
  | done
  | failed (error : FndError) (left : Nat -> Sector)

/-- How a device answers a write. -/
inductive DevWrite (Sector : Type) where
  | done
  | failed (error : FndError) (left : Sector)

variable {Sector : Type}

/-- `cache_line`. -/
def cacheLine (dataStart lba : Word) : CacheIx :=
  if lba < dataStart then ⟨lba.toNat % fs2CacheMeta, Nat.lt_trans (Nat.mod_lt _ (by decide)) (by decide)⟩
  else ⟨fs2CacheMeta + lba.toNat % (fs2CacheSectors - fs2CacheMeta),
    Nat.add_lt_add_left (Nat.mod_lt lba.toNat (show 24 > 0 by decide)) 8⟩

/-- `cache_find`. -/
def cacheFind (v : Vol Sector) (lba : Word) : Option (CacheLine Sector) :=
  DirectMapped.find (cacheLine v.dataStart) v.cache lba

/-- The buffer after a read of `n` sectors. -/
def bufferOf (media : Word -> Sector) (lba n : Word) (ahead : Nat -> Sector) : Nat -> Sector :=
  fun i => if i < n.toNat then media (lba + BitVec.ofNat 32 i) else ahead i

/-- The loop that finds how much a miss reads. -/
def missRun (v : Vol Sector) (lba : Word) : Nat -> Word -> Word
  | 0, n => n
  | fuel + 1, n =>
    if n < fs2ReadAhead ∧ lba + n < v.sectors ∧ (cacheFind v (lba + n)).isNone then missRun v lba fuel (n + 1) else n

/-- The loop that copies a run into the cache. -/
def copyRun (v : Vol Sector) (lba n : Word) (ahead : Nat -> Sector) : CacheIx -> CacheLine Sector :=
  DirectMapped.fillAll (cacheLine v.dataStart) v.cache
    ((List.range n.toNat).map fun i => (lba + BitVec.ofNat 32 i, ahead i))

/-- `sec_get`. -/
def secGet (v : Vol Sector) (media : Word -> Sector) (drive : DevRead Sector) (lba : Word) :
    Except FndError Sector × Vol Sector :=
  match cacheFind v lba with
  | some line => (.ok line.data, v)
  | none =>
    if v.scan then
      if lba - v.scanLba ≥ v.scanN then
        if lba ≥ v.sectors then (.error .io, v)
        else
          let n := if v.sectors - lba < fs2ReadAhead then v.sectors - lba else fs2ReadAhead
          match drive with
          | .failed error left => (.error error, { v with scanN := 0, ahead := left })
          | .done =>
            let ahead := bufferOf media lba n v.ahead
            (.ok (ahead (lba - lba).toNat), { v with scanLba := lba, scanN := n, ahead })
      else (.ok (v.ahead (lba - v.scanLba).toNat), v)
    else if lba ≥ v.sectors then (.error .io, v)
    else
      -- The miss reuses the buffer.
      let n := missRun v lba 8 1
      match drive with
      | .failed error left => (.error error, { v with scanN := 0, ahead := left })
      | .done =>
        let ahead := bufferOf media lba n v.ahead
        let cache := copyRun v lba n ahead
        (.ok (cache (cacheLine v.dataStart lba)).data, { v with scanN := 0, ahead, cache })

/-- `sec_write`, with what the medium holds then. -/
def secWrite (v : Vol Sector) (media : Word -> Sector) (drive : DevWrite Sector) (lba : Word) (buf : Sector) :
    Except FndError Unit × Vol Sector × (Word -> Sector) :=
  if v.failed then (.error .io, v, media)
  else
    match drive with
    | .failed error left =>
      let cache := if (cacheFind v lba).isSome then DirectMapped.drop v.cache (cacheLine v.dataStart lba) else v.cache
      (.error error, { v with failed := true, scanN := 0, cache }, Function.update media lba left)
    | .done =>
      (.ok (), { v with
        scanN := 0
        txWrites := v.txWrites + 1
        cache := DirectMapped.fill (cacheLine v.dataStart) v.cache lba buf }, Function.update media lba buf)

/-- The scan of a directory begins, in `dir_index_get`. -/
def beginScan (v : Vol Sector) : Vol Sector := { v with scan := true, scanN := 0 }

/-- The scan of a directory ends, after its last entry or at an error. -/
def endScan (v : Vol Sector) : Vol Sector := { v with scan := false }

/-- `read_superblock` finds where the data begins; `cache_line` depends on it. -/
def setDataStart (v : Vol Sector) (dataStart : Word) : Vol Sector :=
  { v with dataStart, cache := fun k => { v.cache k with valid := false } }

end Src32.Fs
