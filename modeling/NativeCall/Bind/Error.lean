import NativeCall.Param.Spec
import NativeCall.Text.Truncate

/-!
# Why a call could not be bound

Each way in which arguments can miss the parameters is a cause of its own; `BindError.message` words
it. Names are quoted up to 200 characters and descriptions of types up to 50.

A cause holds what its wording needs and nothing else. Counts of arguments are worded in two ways:
at least or at most so many where more than one number is right, and exactly so many where one is.
Which of the two applies is decided where the cause is found.
-/

namespace NativeCall

/-- Which side of its bounds a number of arguments missed. -/
inductive CountBound where
  /-- There is only one right number. -/
  | exactly
  | atLeast
  | atMost
  deriving DecidableEq, Repr

def CountBound.qualifier : CountBound → String
  | exactly => ""
  | atLeast => "at least "
  | atMost => "at most "

/-- Where arguments are counted; the places word their diagnostics differently. -/
inductive CountPlace where
  /-- The arguments of a call: the noun agrees with the number. -/
  | call
  /-- A stack of arguments. -/
  | stack
  /-- A tuple of arguments: the name is quoted in full. -/
  | tuple
  deriving DecidableEq, Repr

/-- Why a call could not be bound. Positions count parameters from 1. -/
inductive BindError where
  /-- There are more arguments than parameters; `keywordsOnly` if none was given by position. -/
  | tooManyArguments (fname : Option String) (maxArgs given : Nat) (keywordsOnly : Bool)
  | tooManyPositional (fname : Option String) (maxPositional : Nat) (exact : Bool) (given : Nat)
  | tooFewPositional (fname : Option String) (minPositional : Nat) (exact : Bool) (given : Nat)
  | missingRequired (fname : Option String) (name : String) (position : Nat)
  /-- A parameter was given by position and by keyword. -/
  | duplicateArgument (fname : Option String) (name : String) (position : Nat)
  | unexpectedKeyword (fname : Option String) (name : String)
  | nonStringKeyword
  | invalidSpec (e : SpecError)
  /-- The caller passed something else than containers of arguments. -/
  | badInternalCall
  | argumentCount (place : CountPlace) (name : Option String) (bound : CountBound)
      (expected given : Nat)
  | noKeywords (fname : String)
  | noPositional (fname : String)
  | badArgument (fname displayName expected actual : String)
  | raised (e : RunError)
  deriving DecidableEq, Repr

namespace BindError

def shortName (s : String) : String :=
  Text.truncate 200 s

def shortType (s : String) : String :=
  Text.truncate 50 s

/-- A function in a diagnostic; one without a name is called `fallback`. -/
def callee (fname : Option String) (fallback : String) : String :=
  match fname with
  | some name => shortName name ++ "()"
  | none => fallback

def plural (n : Nat) : String :=
  if n = 1 then "" else "s"

def given (n : Nat) : String :=
  " (" ++ toString n ++ " given)"

def message : BindError → String
  | tooManyArguments fname maxArgs n keywordsOnly =>
    callee fname "function" ++ " takes at most " ++ toString maxArgs ++
      (if keywordsOnly then " keyword" else "") ++ " argument" ++ plural maxArgs ++ given n
  -- The maximum is zero: what was given is not counted out then.
  | tooManyPositional fname 0 _ _ =>
    callee fname "function" ++ " takes no positional arguments"
  | tooManyPositional fname maxPositional exact n =>
    callee fname "function" ++ " takes " ++ (if exact then "exactly " else "at most ") ++
      toString maxPositional ++ " positional argument" ++ plural maxPositional ++ given n
  | tooFewPositional fname minPositional exact n =>
    callee fname "function" ++ " takes " ++ (if exact then "exactly " else "at least ") ++
      toString minPositional ++ " positional argument" ++ plural minPositional ++ given n
  | missingRequired fname name position =>
    callee fname "function" ++ " missing required argument '" ++ name ++ "' (pos " ++
      toString position ++ ")"
  | duplicateArgument fname name position =>
    "argument for " ++ callee fname "function" ++ " given by name ('" ++ name ++
      "') and position (" ++ toString position ++ ")"
  | unexpectedKeyword fname name =>
    "'" ++ name ++ "' is an invalid keyword argument for " ++ callee fname "this function"
  | nonStringKeyword => "keywords must be strings"
  | invalidSpec e => e.message
  | badInternalCall => "bad argument to internal function"
  | argumentCount place name bound expected n =>
    -- Only the arguments of a call are counted with a noun that agrees.
    let ending := if place = .call then plural expected else "s"
    match name with
    | some name =>
      (if place = .tuple then name else shortName name) ++ " expected " ++ bound.qualifier ++
        toString expected ++ " argument" ++ ending ++ ", got " ++ toString n
    | none =>
      "unpacked tuple should have " ++ bound.qualifier ++ toString expected ++ " element" ++
        ending ++ ", but has " ++ toString n
  | noKeywords fname => shortName fname ++ "() takes no keyword arguments"
  | noPositional fname => shortName fname ++ "() takes no positional arguments"
  | badArgument fname displayName expected actual =>
    shortName fname ++ "() " ++ shortName displayName ++ " must be " ++ shortType expected ++
      ", not " ++ shortType actual
  | raised e => e.message

def raisedClass : BindError → ExcClass
  | invalidSpec _ | badInternalCall => .systemError
  | raised e => e.raisedClass
  | _ => .typeError

/-- The error as callers outside the binder see it. -/
def toRunError : BindError → RunError
  | raised e => e
  | invalidSpec e => e.toRunError
  | badInternalCall => .badInternalCall
  | e => .raising e.raisedClass e.message

end BindError

end NativeCall
