import Src32.Machine.Word

namespace Src32.Codecs

/-!
# Conventions of the codec libraries

`conde.h`: a call returns a status and the size it has written, which is 0 with
every error.
-/

/-- `CONDE_*`. -/
inductive Status where
  | ok
  | data
  | memory
  | unsupported
  | parameter
  | inputEof
  | outputEof
  deriving DecidableEq

/-- What a call returns, the size it reports and the bytes it has written. -/
structure Outcome where
  status : Status
  size : Nat
  written : List Byte

/-- `src[i]`. -/
def byteAt (src : List Byte) (i : Nat) : Byte := src[i]?.getD 0

end Src32.Codecs
