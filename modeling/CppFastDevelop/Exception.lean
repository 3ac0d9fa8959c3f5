/-!
# CppFastDevelop.Exception

The exception classes of `cf_exception.hpp` and of the libraries above it.
A thrown object is kept as its class, the format text given to `_THROW` or
`_THROW_FMT`, and the values of the format's arguments; file, line and
`errno`, which the macros add, are not part of it.

This module depends only on the Lean 4 core library.
-/

namespace CppFastDevelop

/-- The exception classes the modelled functions throw. -/
inductive ExceptionClass
  | valueError
  | sizeTooSmallException
  | queueFullException
  | stopPutException
  | stopPutAndGetException
  | timeoutInfo
  | syscallExecuteError
  | queueStopToGetException
  | queueEmptyAndStopToPutException
  | queueStopToPutException
  | elementNotFoundInfo
  | setStopToPopException
  | setStopToInsertException
  | setEmptyException
  | runtimeWarning
  deriving DecidableEq, Repr

/-- A thrown `cf::BaseException`. -/
structure BaseException where
  className : ExceptionClass
  format : String
  args : List Int := []
  deriving DecidableEq, Repr

end CppFastDevelop
