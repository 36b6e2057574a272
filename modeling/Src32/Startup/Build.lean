import Mathlib.Data.List.GetD
import Src32.Lib.Fallible
import Src32.Machine.Word

namespace Src32.Startup

/-!
# The memory of a startup block

A parent lays a startup block out in a buffer of `FND_STARTUP_MAX` bytes and its
child reads it from a copy of its own.  Both use the buffer as words and as
bytes.  Every access is checked here, so that an index outside of the buffer
stops the model.
-/

/-- Why an operation stops: an access outside of its buffer, or `FND_E_LIMIT`. -/
inductive Stop where
  | fault
  | limit
  deriving DecidableEq

abbrev Buffer := Nat -> Byte

/-- A C string up to its NUL.  With the NUL it is smaller than the address
space. -/
structure CString where
  bytes : List Byte
  clean : ∀ b ∈ bytes, b ≠ 0
  fits : bytes.length + 1 < 2 ^ 32

def strLen (s : CString) : Word := BitVec.ofNat 32 s.bytes.length

/-- The string with its NUL. -/
def CString.stored (s : CString) : List Byte := s.bytes ++ [0]

/-- The bytes of a word, the most significant one first. -/
def wordBytes (value : Word) : List Byte :=
  [(value >>> 24).setWidth 8, (value >>> 16).setWidth 8, (value >>> 8).setWidth 8, value.setWidth 8]

/-! ## Accesses -/

def storeByte (limit : Nat) (block : Buffer) (i : Nat) (b : Byte) : Except Stop Buffer :=
  if i < limit then .ok (fun k => if k = i then b else block k) else .error .fault

def storeBytes (limit : Nat) (block : Buffer) (i : Nat) : List Byte -> Except Stop Buffer
  | [] => .ok block
  | b :: rest =>
    match storeByte limit block i b with
    | .error stop => .error stop
    | .ok block => storeBytes limit block (i + 1) rest

/-- `block[w] = value`. -/
def storeWord (limit : Nat) (block : Buffer) (w : Nat) (value : Word) : Except Stop Buffer :=
  storeBytes limit block (4 * w) (wordBytes value)

/-- `block[w]`. -/
def loadWord (limit : Nat) (block : Buffer) (w : Nat) : Except Stop Word :=
  if 4 * w + 3 < limit then
    .ok (Word.ofBytes (block (4 * w)) (block (4 * w + 1)) (block (4 * w + 2)) (block (4 * w + 3)))
  else .error .fault

/-! ## What a buffer holds -/

/-- The buffer with other bytes from `i` on. -/
def Buffer.patch (block : Buffer) (i : Nat) (bytes : List Byte) : Buffer := fun k =>
  if i ≤ k ∧ k < i + bytes.length then bytes.getD (k - i) 0 else block k

/-- These bytes stand at `i`. -/
def Holds (block : Buffer) (i : Nat) (bytes : List Byte) : Prop :=
  ∀ k, k < bytes.length -> block (i + k) = bytes.getD k 0

variable {limit i j : Nat} {block : Buffer} {bytes others : List Byte}

theorem patch_outside {k : Nat} (outside : k < i ∨ i + bytes.length ≤ k) : block.patch i bytes k = block k := by
  unfold Buffer.patch
  rw [if_neg]
  omega

theorem holds_patch (block : Buffer) (i : Nat) (bytes : List Byte) : Holds (block.patch i bytes) i bytes := by
  intro k inside
  unfold Buffer.patch
  rw [if_pos ⟨Nat.le_add_right i k, Nat.add_lt_add_left inside i⟩, Nat.add_sub_cancel_left]

/-- Bytes stay where they are not written over. -/
theorem Holds.agree {next : Buffer} (holds : Holds block i bytes)
    (same : ∀ k, i ≤ k -> k < i + bytes.length -> next k = block k) : Holds next i bytes := by
  intro k inside
  rw [same (i + k) (Nat.le_add_right i k) (Nat.add_lt_add_left inside i)]
  exact holds k inside

theorem Holds.patch (holds : Holds block i bytes) (apart : i + bytes.length ≤ j ∨ j + others.length ≤ i) :
    Holds (block.patch j others) i bytes := by
  apply holds.agree
  intro k above below
  apply patch_outside
  omega

theorem patch_nil (block : Buffer) (i : Nat) : block.patch i [] = block := by
  funext k
  apply patch_outside
  rw [List.length_nil]
  omega

theorem patch_cons (block : Buffer) (i : Nat) (b : Byte) (rest : List Byte) :
    Buffer.patch (fun k => if k = i then b else block k) (i + 1) rest = block.patch i (b :: rest) := by
  funext k
  unfold Buffer.patch
  dsimp only
  rw [List.length_cons]
  by_cases first : k = i
  · rw [if_neg (by omega), if_pos first, if_pos (by omega), first, Nat.sub_self]
    rfl
  · by_cases inside : i + 1 ≤ k ∧ k < i + 1 + rest.length
    · have offset : k - i = k - (i + 1) + 1 := by omega
      rw [if_pos inside, if_pos (by omega), offset]
      rfl
    · rw [if_neg inside, if_neg first, if_neg (by omega)]

theorem storeBytes_ok (inside : i + bytes.length ≤ limit) :
    storeBytes limit block i bytes = .ok (block.patch i bytes) := by
  induction bytes generalizing block i with
  | nil =>
    rw [patch_nil]
    rfl
  | cons b rest ih =>
    rw [List.length_cons] at inside
    unfold storeBytes storeByte
    rw [if_pos (by omega)]
    dsimp only
    rw [ih (by omega), patch_cons]

theorem storeWord_ok {w : Nat} (inside : 4 * w + 4 ≤ limit) (value : Word) :
    storeWord limit block w value = .ok (block.patch (4 * w) (wordBytes value)) :=
  storeBytes_ok inside

/-! ## Words -/

theorem Holds.loadWord {w : Nat} {value : Word} (holds : Holds block (4 * w) (wordBytes value)) (inside : 4 * w + 4 ≤ limit) :
    loadWord limit block w = .ok value := by
  unfold Startup.loadWord
  rw [if_pos (by omega)]
  have four : (wordBytes value).length = 4 := rfl
  have first := holds 0 (by omega)
  have second := holds 1 (by omega)
  have third := holds 2 (by omega)
  have fourth := holds 3 (by omega)
  rw [Nat.add_zero] at first
  rw [first, second, third, fourth]
  exact congrArg Except.ok (Word.ofBytes_bytes value)

/-!
## Laying out a startup block

`build_startup` of `lib/fnd/proc.c`: the header, the tables of the arguments, of
the roles and of the environment, and then the strings.  The two string loops
differ in their table and their strings only.
-/

open Fallible

def startupMax : Word := 4096
def startupMagic : Word := 0x464E4453
def startupVersion : Word := 2
def spawnMaxHandles : Word := 16
def keepArgv0 : Word := 1

/-- Bytes of an `fnd_startup`. -/
def headerSize : Word := 40

/-- An `fnd_exec_t`.  A null pointer is `none`; the caller names as many
arguments as it gives. -/
structure Exec where
  argc : Word
  argv : Option (List (Option CString))
  flags : Word
  envp : Option (List CString)
  /-- Arguments behind the first one are never null. -/
  given : ∀ i, 1 ≤ i -> i < argc.toNat -> ∃ list s, argv = some list ∧ list[i]? = some (some s)
  /-- Pointers take four bytes of the address space each. -/
  pointers : ∀ list, envp = some list -> 4 * (list.length + 1) < 2 ^ 32

/-- `ex->argv[i]`, `none` where the array or its entry is null. -/
def Exec.arg (ex : Exec) (i : Nat) : Option CString := ((ex.argv.getD [])[i]?).join

/-- Argument `i` of the child: the path in the place of the first one, unless the
caller keeps its own. -/
def Exec.childArg (ex : Exec) (argv0 : CString) (i : Nat) : CString :=
  if i = 0 ∧ ¬ (ex.flags &&& keepArgv0 ≠ 0 ∧ (ex.arg 0).isSome) then argv0 else (ex.arg i).getD argv0

def Exec.childArgc (ex : Exec) : Word := if ex.argc ≠ 0 then ex.argc else 1

/-- The arguments of the child. -/
def Exec.args (ex : Exec) (argv0 : CString) : List CString :=
  (List.range ex.childArgc.toNat).map (ex.childArg argv0)

/-- The environment of the child. -/
def Exec.env (ex : Exec) : List CString := ex.envp.getD []

/-- A string loop: entry `i` of the table gets the offset of the string, which is
copied there with its NUL. -/
def putStrings (table : Word) (block : Buffer) (i : Nat) (off : Word) : List CString -> Except Stop (Buffer × Word)
  | [] => .ok (block, off)
  | s :: rest =>
    let n := strLen s + 1
    if n > startupMax - off then .error .limit
    else
      match storeWord startupMax.toNat block (table.toNat / 4 + i) off with
      | .error stop => .error stop
      | .ok block =>
        match storeBytes startupMax.toNat block off.toNat s.stored with
        | .error stop => .error stop
        | .ok block => putStrings table block (i + 1) (off + n) rest

/-- The pairs of a role and a child handle, from pair `i` on. -/
def putRoles (roles : Word) (block : Buffer) (i : Nat) : Nat -> Except Stop Buffer
  | 0 => .ok block
  | count + 1 =>
    match storeWord startupMax.toNat block (roles.toNat / 4 + 2 * i) (BitVec.ofNat 32 (i + 1)) with
    | .error stop => .error stop
    | .ok block =>
      match storeWord startupMax.toNat block (roles.toNat / 4 + 2 * i + 1) (BitVec.ofNat 32 (i + 1)) with
      | .error stop => .error stop
      | .ok block => putRoles roles block (i + 1) count

/-- The words of an `fnd_startup` from word `w` on. -/
def putHeader (block : Buffer) (w : Nat) : List Word -> Except Stop Buffer
  | [] => .ok block
  | value :: rest =>
    match storeWord startupMax.toNat block w value with
    | .error stop => .error stop
    | .ok block => putHeader block (w + 1) rest

/-- The size of the block, or `FND_E_LIMIT`.  `block` is what the heap held. -/
def buildStartup (block : Buffer) (ex : Exec) (argv0 cwd : CString) (roleCount : Word) : Except Stop (Buffer × Word) := do
  let argc := ex.childArgc
  let envc := BitVec.ofNat 32 ex.env.length
  let argvOff := headerSize
  let rolesOff := argvOff + 4 * argc
  let envOff := rolesOff + 8 * roleCount
  let off := envOff + 4 * envc
  if argc > spawnMaxHandles * 64 ∨ envc > 128 ∨ off > startupMax then .error .limit
  else
    let (block, off) ← putStrings argvOff block 0 off (ex.args argv0)
    let (block, off) ← putStrings envOff block 0 off ex.env
    let cwdOff := off
    let n := strLen cwd + 1
    if n > startupMax - off then .error .limit
    else
      let block ← storeBytes startupMax.toNat block off.toNat cwd.stored
      let off := (off + n + 7) &&& ~~~7
      if off > startupMax then .error .limit
      else
        let block ← putRoles rolesOff block 0 roleCount.toNat
        let block ← putHeader block 0
          [startupMagic, startupVersion, off, argc, argvOff, cwdOff, roleCount, rolesOff, envc, envOff]
        .ok (block, off)

end Src32.Startup
