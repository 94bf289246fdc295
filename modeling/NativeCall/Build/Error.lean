import NativeCall.Exception
import NativeCall.Format.Basic

/-!
# Why a value could not be built

A build fails because the format string is not well formed, because the arguments do not fit it, or
because something raised on the way. The first two are bugs of the native caller and raise as system
errors; what raised on the way is passed on as it is, fatal errors included.
-/

namespace NativeCall

/-- Arguments that do not fit a format. Positions count arguments from 1. -/
inductive CallFault where
  /-- There is a null where an object should be, and no pending error explains it. -/
  | nullObject
  | argMismatch (position : Nat) (code : Char)
  | missingArg (position : Nat) (code : Char)
  | extraArgs (count : Nat)
  | lengthOutOfRange (position length available : Nat)
  deriving DecidableEq, Repr

def CallFault.message : CallFault → String
  | nullObject => "NULL object passed to Py_BuildValue"
  | argMismatch position code =>
    "argument " ++ toString position ++ " does not match format '" ++ code.toString ++
      "' in Py_BuildValue"
  | missingArg position code =>
    "missing argument " ++ toString position ++ " for format '" ++ code.toString ++
      "' in Py_BuildValue"
  | extraArgs count => toString count ++ " unused arguments passed to Py_BuildValue"
  | lengthOutOfRange position length available =>
    "argument " ++ toString position ++ ": length " ++ toString length ++ " exceeds the " ++
      toString available ++ " available in Py_BuildValue"

/-- Why a value could not be built. -/
inductive BuildError where
  | format (e : FormatError)
  | call (f : CallFault)
  | raised (e : RunError)
  deriving DecidableEq, Repr

namespace BuildError

def message : BuildError → String
  | format e => e.message
  | call f => f.message
  | raised e => e.message

def raisedClass : BuildError → ExcClass
  | raised e => e.raisedClass
  | _ => .systemError

/-- The error as callers outside the builder see it. -/
def toRunError : BuildError → RunError
  | raised e => e
  | e => .raising .systemError e.message

end BuildError

end NativeCall
