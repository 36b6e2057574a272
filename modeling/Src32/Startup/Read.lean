import Src32.Startup.Build

namespace Src32.Startup

open Fallible

/-!
# Reading a startup block

`read_startup` of `lib/fnd/start.c` on the copy that `proc_startup` hands out.  A
block that is missing or broken leaves no arguments and no roles.
-/

def argsMax : Word := 64
def envMax : Word := 128

/-- What `fnd_init` keeps of a block, and the directory that `read_startup`
returns.  `role` is the handle of each role, 0 where there is none. -/
structure Startup where
  args : List (List Byte)
  env : List (List Byte)
  cwd : Option (List Byte)
  role : Nat -> Word

def Startup.empty : Startup := ⟨[], [], none, fun _ => 0⟩

/-- The bytes from `i` on up to a NUL, with `left` bytes to look at. -/
def scan (block : Buffer) : Nat -> Nat -> Option (List Byte)
  | 0, _ => none
  | left + 1, i => if block i = 0 then some [] else (scan block left (i + 1)).map (block i :: ·)

/-- `block_string`: the string at an offset inside the first `size` bytes. -/
def blockString (block : Buffer) (off size : Word) : Option (List Byte) :=
  scan block (size.toNat - off.toNat) off.toNat

/-- The strings of `count` table entries from entry `i` on, `none` when one of
them does not end. -/
def readStrings (block : Buffer) (size table : Word) (i : Nat) : Nat -> Except Stop (Option (List (List Byte)))
  | 0 => .ok (some [])
  | count + 1 =>
    match loadWord size.toNat block (table.toNat / 4 + i) with
    | .error stop => .error stop
    | .ok off =>
      match blockString block off size with
      | none => .ok none
      | some s =>
        match readStrings block size table (i + 1) count with
        | .error stop => .error stop
        | .ok none => .ok none
        | .ok (some rest) => .ok (some (s :: rest))

/-- The pairs of the role table from pair `i` on. -/
def readRoles (block : Buffer) (size roles : Word) (i : Nat) (role : Nat -> Word) : Nat -> Except Stop (Nat -> Word)
  | 0 => .ok role
  | count + 1 =>
    match loadWord size.toNat block (roles.toNat / 4 + 2 * i) with
    | .error stop => .error stop
    | .ok name =>
      match loadWord size.toNat block (roles.toNat / 4 + 2 * i + 1) with
      | .error stop => .error stop
      | .ok handle =>
        let role := if name ≥ 1 ∧ name ≤ 5 then fun k => if k = name.toNat then handle else role k else role
        readRoles block size roles (i + 1) role count

/-- The checks of a table of `count` entries of `entry` bytes. -/
def tableBad (table count entry n : Word) : Prop := table &&& 3 ≠ 0 ∨ table > n ∨ count * entry > n - table

instance (table count entry n : Word) : Decidable (tableBad table count entry n) := by
  unfold tableBad
  infer_instance

/-- `read_startup` when the heap has room for the block; `block` is the copy and
`size` the length `proc_startup` returned. -/
def readBlock (block : Buffer) (n : Word) : Except Stop Startup := do
  let version ← loadWord n.toNat block 1
  let header : Word := if version = 1 then 32 else headerSize
  if n < header then .ok .empty
  else
    let magic ← loadWord n.toNat block 0
    let size ← loadWord n.toNat block 2
    let argc ← loadWord n.toNat block 3
    let argvOff ← loadWord n.toNat block 4
    let cwdOff ← loadWord n.toNat block 5
    let roleCount ← loadWord n.toNat block 6
    let rolesOff ← loadWord n.toNat block 7
    if magic ≠ startupMagic ∨ (version ≠ 1 ∧ version ≠ 2) ∨ size ≠ n ∨ argc > argsMax ∨ tableBad argvOff argc 4 n ∨
        tableBad rolesOff roleCount 8 n then .ok .empty
    else
      let envCount ← if version = 1 then .ok 0 else loadWord n.toNat block 8
      let envOff ← if version = 1 then .ok 0 else loadWord n.toNat block 9
      if envCount > envMax ∨ tableBad envOff envCount 4 n then .ok .empty
      else
        let cwd := blockString block cwdOff n
        match ← readStrings block n envOff 0 envCount.toNat with
        | none => .ok .empty
        | some env =>
          match ← readStrings block n argvOff 0 argc.toNat with
          | none => .ok { Startup.empty with env := env }
          | some args =>
            let role ← readRoles block n rolesOff 0 Startup.empty.role roleCount.toNat
            .ok ⟨args, env, cwd, role⟩

/-- `room` says whether the heap of the child has room for the block. -/
def readStartup (room : Bool) (block : Buffer) (size : Word) : Except Stop Startup :=
  if size.toInt < 32 ∨ size.toInt > startupMax.toInt ∨ room = false then .ok .empty else readBlock block size

end Src32.Startup
