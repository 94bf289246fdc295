/-!
# Families of native functions

A family fixes what a native function receives and how it reports failure: most by a null word, the
functions that initialise an instance or fill a buffer view by a negative status, and those that
destroy an instance or give a view back not at all. The name of a family is what a trace shows of a
call.
-/

namespace NativeCall

/-- The families of native functions that can be called from outside. -/
inductive Family where
  /-- The receiver alone. -/
  | noArgs
  /-- The receiver and one argument. -/
  | oneArg
  /-- The receiver and a tuple of arguments. -/
  | varArgs
  /-- The receiver, a tuple of arguments and a dict of keywords. -/
  | keywords
  /-- Initialises an instance. -/
  | init
  /-- Destroys an instance. -/
  | destroy
  | richCompare
  | getBuffer
  | releaseBuffer
  deriving DecidableEq, Repr

/-- The name by which traces call a family. -/
def Family.name : Family → String
  | noArgs => "NoArgs"
  | oneArg => "O"
  | varArgs => "VarArgs"
  | keywords => "Keywords"
  | init => "InitProc"
  | destroy => "DestroyFunc"
  | richCompare => "RichCmp"
  | getBuffer => "GetBuffer"
  | releaseBuffer => "ReleaseBuffer"

end NativeCall
