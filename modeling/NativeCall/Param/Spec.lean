import NativeCall.Exception

/-!
# Declared parameters

A function declares one name for each of its parameters, in order. Empty names at the front are
parameters that can only be passed by position; after the first name that is not empty, every
parameter needs one.
-/

namespace NativeCall

/-- The declared parameters of a function. -/
structure ParamSpec where
  /-- Tells the declarations of different functions apart, whatever they declare. -/
  id : Nat
  keywords : List String
  /-- The function's name, as diagnostics quote it. -/
  fname : Option String
  deriving DecidableEq, Repr

inductive SpecError where
  /-- An empty name follows one that is not empty. -/
  | emptyKeywordName
  deriving DecidableEq, Repr

namespace SpecError

def message : SpecError → String
  | emptyKeywordName => "Empty keyword parameter name"

def toRunError (e : SpecError) : RunError :=
  .raising .systemError e.message

end SpecError

/-- The shape of a declaration. -/
structure Layout where
  /-- How many parameters can only be passed by position. -/
  positionalOnly : Nat
  /-- The names of the others. -/
  keywordNames : List String
  deriving DecidableEq, Repr

def Layout.maxArgs (l : Layout) : Nat :=
  l.positionalOnly + l.keywordNames.length

namespace ParamSpec

/-- The shape of a declaration, unless a later name is empty. -/
def layout (p : ParamSpec) : Except SpecError Layout :=
  let leading := p.keywords.takeWhile String.isEmpty
  let names := p.keywords.dropWhile String.isEmpty
  -- The leading names are gone, so an empty one that is left is out of place.
  if names.any String.isEmpty then .error .emptyKeywordName
  else .ok ⟨leading.length, names⟩

/-- A layout has a place for every declared name. -/
theorem maxArgs_of_layout {p : ParamSpec} {l : Layout} (h : p.layout = .ok l) :
    l.maxArgs = p.keywords.length := by
  simp only [layout] at h
  split at h
  · cases h
  · cases h
    simp only [Layout.maxArgs, ← List.length_append, List.takeWhile_append_dropWhile]

end ParamSpec

end NativeCall
