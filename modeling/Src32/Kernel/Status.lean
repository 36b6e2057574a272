import Src32.Machine.Word

namespace Src32.Kernel

/-!
# Results of system calls

The negative codes a system call answers with.  A function of the kernel that
may fail returns one of them; R1 of the caller holds its code.
-/

/-- `FND_E_BAD_CALL` to `FND_E_DEPENDENCY`. -/
inductive FndError where
  | badCall
  | badArg
  | badHandle
  | access
  | noMemory
  | limit
  | peerGone
  | timeout
  | wouldBlock
  | notFound
  | existing
  | format
  | unsupported
  | addressConflict
  | regionLimit
  | io
  | noMedia
  | readOnly
  | busy
  | killed
  | dependency
  deriving DecidableEq, Repr

/-- The word in R1: -1 for the first code and one less for each later one. -/
def FndError.code (error : FndError) : Word := BitVec.ofInt 32 (-1 - (error.ctorIdx : Int))

/-- `FND_OK`. -/
def fndOk : Word := 0

/-- R1 of a system call that ended so. -/
def resultCode : Except FndError Word -> Word
  | .ok value => value
  | .error error => error.code

/-- No code is a success. -/
theorem FndError.code_ne_fndOk (error : FndError) : error.code ≠ fndOk := by
  cases error <;> decide

end Src32.Kernel
