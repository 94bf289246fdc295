import NativeCall.Bind.Error
import NativeCall.Heap.Basic

/-!
# Checks for hand-written functions

A function that does not declare its parameters can still check how many arguments it got, refuse
keywords or positions altogether, and report an argument of the wrong type.

An absent dict of keywords and an empty one are the same to a function that takes none, and so are
an absent tuple and an empty one. A word that refers to something else is a fault of the caller and
not of the call.
-/

namespace NativeCall.Arguments

/-- Checks `least ≤ nargs ≤ most`. -/
def checkCount (place : CountPlace) (name : Option String) (nargs least most : Nat) :
    Except BindError Unit :=
  -- Where only one number is right, either side of it is called wrong in the same words.
  let bound (b : CountBound) : CountBound := if least = most then .exactly else b
  if nargs < least then .error (.argumentCount place name (bound .atLeast) least nargs)
  else if most < nargs then .error (.argumentCount place name (bound .atMost) most nargs)
  else .ok ()

def unpackStack (args : List Ref) (name : Option String) (least most : Nat) :
    Except BindError (List Ref) := do
  checkCount .stack name args.length least most
  return args

/-- The items of an argument tuple, if their number is in order. -/
def unpackTuple (h : Heap) (args : Ref) (name : Option String) (least most : Nat) :
    Except BindError (List Ref) := do
  match h.tupleItems? args with
  | some items =>
    checkCount .tuple name items.length least most
    return items
  | none =>
    throw (.raised (.raising .systemError "PyArg_UnpackTuple() argument list is not a tuple"))

/-- Refuses keywords: there may be no dict, or an empty one. -/
def noKeywords (h : Heap) (fname : String) (kwargs : Word) : Except BindError Unit :=
  match kwargs with
  | none => .ok ()
  | some r =>
    match h.dict? r with
    | none => .error .badInternalCall
    | some d => if d.size = 0 then .ok () else .error (.noKeywords fname)

/-- Refuses arguments by position: there may be no tuple, or an empty one. -/
def noPositional (h : Heap) (fname : String) (args : Word) : Except BindError Unit :=
  match args with
  | none => .ok ()
  | some r =>
    match h.tupleItems? r with
    | none => .error .badInternalCall
    | some items => if items.isEmpty then .ok () else .error (.noPositional fname)

/-- The error for an argument of the wrong type. `None` is called by its own name. -/
def badArgument (fname displayName expected : String) (arg : Ref) : HeapM BindError := do
  let actual ← if arg = Heap.noneRef then pure "None" else Heap.typeName arg
  return .badArgument fname displayName expected actual

end NativeCall.Arguments
