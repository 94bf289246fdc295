import NativeCall.Bind.Error
import NativeCall.Heap.Basic

/-!
# Keyword arguments

A caller passes keywords as a dict, or as a tuple of names beside the values in the same order.
`Keywords.resolve` reads either from the heap; what it reads is looked up by name.

In a dict a name is found by its key, whichever string object the caller used. In a tuple, the
object that is the interned name comes before any other string of the same text, wherever the two
stand; so where a caller passes interned names only, references decide and no text is compared.
-/

namespace NativeCall

/-- Keyword arguments as a caller passes them. -/
inductive KeywordSource where
  | none
  | dict (r : Ref)
  | names (names : Ref) (values : List Ref)
  deriving DecidableEq, Repr

/-- Keyword arguments as they were found on the heap. -/
inductive Keywords where
  | none
  | dict (d : Dict)
  /-- Names with their values. -/
  | pairs (ps : List (Ref × Ref))
  deriving Repr

namespace Keywords

/-- Reads the keywords of a call. They must be a dict, or a tuple with one value to each name. -/
def resolve (h : Heap) (source : KeywordSource) : Except BindError Keywords :=
  match source with
  | .none => .ok .none
  | .dict r =>
    match h.dict? r with
    | some d => .ok (.dict d)
    | Option.none => .error .badInternalCall
  | .names r values =>
    match h.tupleItems? r with
    | some names =>
      if names.length = values.length then .ok (.pairs (names.zip values))
      else .error .badInternalCall
    | Option.none => .error .badInternalCall

def count : Keywords → Nat
  | none => 0
  | dict d => d.size
  | pairs ps => ps.length

/-- The value given for a declared name, which `interned` is the object of. -/
def lookup (h : Heap) (k : Keywords) (interned : Ref) (name : String) : Option Ref :=
  match k with
  | none => Option.none
  | dict d => d.get? (.str name)
  | pairs ps =>
    -- All names are compared by reference before any is compared by text.
    ((ps.find? (fun p => p.1 = interned)).or (ps.find? (fun p => h.sameText p.1 interned))).map
      (·.2)

def supplied : Keywords → List Ref
  | none => []
  | dict d => d.keyRefs
  | pairs ps => ps.map (·.1)

end Keywords

end NativeCall
