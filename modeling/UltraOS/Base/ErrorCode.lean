import Mathlib.Algebra.Order.Ring.Nat

/-!
# Error codes
-/

namespace UltraOS

/-- `ErrorCode`, with the codes of `Shared/Error.h`. -/
inductive ErrorCode where
  | noError
  | accessDenied
  | invalidArgument
  | badPath
  | diskNotFound
  | unsupported
  | noSuchFile
  | isDirectory
  | isFile
  | fileIsBusy
  | fileAlreadyExists
  | nameTooLong
  | badFilename
  | interrupted
  | streamClosed
  | wouldBlockForever
  | memoryAccessViolation
deriving DecidableEq

abbrev ErrorOr (α : Type) : Type := Except ErrorCode α

end UltraOS
