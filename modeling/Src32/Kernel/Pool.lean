import Src32.Kernel.Status
import Src32.Lib.Scans
import Src32.Machine.Page

namespace Src32.Kernel

/-!
# The page pool

The pages of installed RAM above the kernel, with one reference count each,
which both memory backends draw on, and the arena allocator of the backend
without address translation on top of it.  The source numbers pages from the
start of the pool.
-/

/-- `POOL_BASE`: where user RAM starts. -/
def poolBase : Word := 0x00400000

/-- `MAX_FRAMES`: 256 MiB. -/
def maxFrames : Nat := 65536

/-- `RAM_BYTES_FALLBACK`. -/
def ramBytesFallback : Word := 0x01000000

structure Pool where
  /-- `pool_frames`. -/
  frames : Nat
  /-- `free_frames`. -/
  free : Nat
  nextHint : Nat
  /-- `frame_refs`: 0 is free. -/
  refs : Nat -> Byte

/-- `mm_ram_bytes` for what the bus controller reports. -/
def mmRamBytes (reported : Word) : Word := if reported = 0 then ramBytesFallback else reported

/-- `pool_init`, with the first pages reserved. -/
def poolInit (ram : Word) (reserved : Nat) : Pool :=
  let frames := min (if ram > poolBase then ((ram - poolBase) / mmPage).toNat else 0) maxFrames
  { frames := frames
    free := frames - min reserved frames
    nextHint := reserved
    refs := fun f => if f < reserved ∧ f < frames then 1 else 0 }

namespace Pool

def frameTaken (pool : Pool) (f : Nat) : Bool := pool.refs f ≠ 0

end Pool

/-! ## Arenas -/

def firstPage (addr : Word) : Nat := ((addr - poolBase) / mmPage).toNat

namespace Pool

/-- Whether the pages of an address range all exist and are free. -/
def rangeFree (pool : Pool) (lo hi : Word) : Bool :=
  !(lo < poolBase || hi ≤ lo || ((hi - poolBase) / mmPage).toNat > pool.frames ||
      (lo ||| hi) &&& mmPageMask ≠ 0) &&
    (List.range' (firstPage lo) (firstPage hi - firstPage lo)).all fun f => !pool.frameTaken f

def rangeTake (pool : Pool) (lo hi : Word) : Pool :=
  { pool with
    refs := fun f => if firstPage lo ≤ f ∧ f < firstPage hi then 1 else pool.refs f
    free := pool.free - ((hi - lo) / mmPage).toNat }

/-- `mm_arena_claim`. -/
def arenaClaim (pool : Pool) (lo hi : Word) : Except FndError Pool :=
  let lo := Page.down lo
  let hi := Page.up hi
  if lo < poolBase ∨ hi ≤ lo ∨ ((hi - poolBase) / mmPage).toNat > pool.frames then .error .noMemory
  else if pool.rangeFree lo hi then .ok (pool.rangeTake lo hi)
  else .error .addressConflict

/-- `mm_arena_alloc`: the lowest free run, `none` for 0. -/
def arenaAlloc (pool : Pool) (bytes : Word) : Option (Word × Pool) :=
  let pages := (bytes + mmPageMask) / mmPage
  if pages = 0 ∨ pages.toNat > pool.free then none
  else
    match firstFit pool.frameTaken pages.toNat pool.frames 0 0 with
    | none => none
    | some first =>
      let lo := poolBase + BitVec.ofNat 32 first * mmPage
      some (lo, pool.rangeTake lo (lo + pages * mmPage))

/-- `mm_arena_free`. -/
def arenaFree (pool : Pool) (lo hi : Word) : Pool :=
  if lo < poolBase ∨ hi ≤ lo then pool
  else
    let first := firstPage lo
    let stop := firstPage (Page.up hi)
    { pool with
      refs := fun f => if first ≤ f ∧ f < stop then 0 else pool.refs f
      free := pool.free + ((List.range' first (stop - first)).filter pool.frameTaken).length }

/-- `mm_arena_extend`: an arena grows into the free pages above it. -/
def arenaExtend (pool : Pool) (hi newHi : Word) : Option Pool :=
  if newHi ≤ hi ∨ (hi ||| newHi) &&& mmPageMask ≠ 0 ∨ !pool.rangeFree hi newHi then none
  else some (pool.rangeTake hi newHi)

end Pool
end Src32.Kernel
