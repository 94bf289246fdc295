/-!
# Exceptions

What marshaling raises: an exception is a class with an optional argument text, and an error in
flight is either such an exception or a fault of this library itself.

Exceptions come in two strengths. An *ordinary* one may be inspected and cleared by extension
code; a *fatal* one reports an exhausted resource and must reach the host, so it belongs to no
class that a handler could name (`RunError.isInstance`).

The wording of every exception raised here is a definition of this file, so that callers name
causes and never spell texts.
-/

namespace NativeCall

/-- The exception classes that marshaling raises. -/
inductive ExcClass where
  | systemError
  | typeError
  | valueError
  | unicodeDecodeError
  | memoryError
  | recursionError
  deriving DecidableEq, Repr

namespace ExcClass

/-- Every class, in the order in which they are listed to a reader. -/
def all : List ExcClass :=
  [systemError, typeError, valueError, unicodeDecodeError, memoryError, recursionError]

def name : ExcClass → String
  | systemError => "SystemError"
  | typeError => "TypeError"
  | valueError => "ValueError"
  | unicodeDecodeError => "UnicodeDecodeError"
  | memoryError => "MemoryError"
  | recursionError => "RecursionError"

def ofName? (s : String) : Option ExcClass :=
  all.find? (fun c => c.name == s)

/-- A handler for `handler` catches `c`: they are the same class, or a decoding error meets a
handler for value errors. -/
def isSubclassOf (c handler : ExcClass) : Bool :=
  c == handler || (c == unicodeDecodeError && handler == valueError)

theorem ofName?_name (c : ExcClass) : ofName? c.name = some c := by
  cases c <;> decide

end ExcClass

/-- An exception: its class and, if it has one, its argument. -/
structure Exception where
  cls : ExcClass
  arg : Option String
  deriving DecidableEq, Repr

namespace Exception

/-- `Class: argument`, or the class alone. -/
def message (e : Exception) : String :=
  match e.arg with
  | some a => e.cls.name ++ ": " ++ a
  | none => e.cls.name

end Exception

/-- An error on its way to the caller. -/
inductive RunError where
  /-- A fault of this library, not of its caller. -/
  | internal (text : String)
  /-- An exception that extension code may handle. -/
  | ordinary (e : Exception)
  /-- An exception that only the host may handle. -/
  | fatal (e : Exception)
  deriving DecidableEq, Repr

namespace RunError

def message : RunError → String
  | internal text => "Internal error in extcall: " ++ text
  | ordinary e | fatal e => e.message

/-- The class of the exception; a fault of the library has none. -/
def cls? : RunError → Option ExcClass
  | internal _ => none
  | ordinary e | fatal e => some e.cls

def arg? : RunError → Option String
  | internal text => some text
  | ordinary e | fatal e => e.arg

/-- The class that the error raises as: a fault of the library raises as a system error. -/
def raisedClass (e : RunError) : ExcClass :=
  e.cls?.getD .systemError

/-- A handler for `c` catches this error. Only ordinary exceptions can be caught. -/
def isInstance (e : RunError) (c : ExcClass) : Bool :=
  match e with
  -- Whoever asks for a class by name gets no fatal error in its hands.
  | ordinary x => x.cls.isSubclassOf c
  | _ => false

@[simp] theorem isInstance_fatal (e : Exception) (c : ExcClass) : (fatal e).isInstance c = false :=
  rfl

/-! ## The exceptions raised here -/

def raising (c : ExcClass) (arg : String) : RunError :=
  .ordinary ⟨c, some arg⟩

/-- A native caller broke the calling contract. -/
def badInternalCall : RunError :=
  raising .systemError "bad argument to internal function"

/-- A value of this type cannot be a key of a dict. -/
def unhashable (typeName : String) : RunError :=
  raising .typeError ("unhashable type: '" ++ typeName ++ "'")

/-- Data is nested deeper than a traversal may go. -/
def recursionLimit : RunError :=
  raising .recursionError "maximum recursion depth exceeded"

/-- A single character was asked for by a number that is no character. -/
def characterRange : RunError :=
  raising .valueError "chr() arg not in range(0x110000)"

end RunError

end NativeCall
