import NativeCall.Heap.Allocate
import NativeCall.Param.Spec

/-!
# Interned parameter names

A runtime interns the names of a declaration when they are first needed and keeps the references,
in order, for later calls. A failure on the way adds nothing to the cache; the names that were
interned before it stay interned, so a later attempt goes on from there.
-/

namespace NativeCall

/-- The interned names of the declarations met so far. -/
structure NameCache where
  entries : List (Nat × List Ref)
  deriving DecidableEq, Repr

namespace NameCache

def empty : NameCache := ⟨[]⟩

def size (c : NameCache) : Nat :=
  c.entries.length

def get? (c : NameCache) (p : ParamSpec) : Option (List Ref) :=
  c.entries.lookup p.id

def internAll (p : ParamSpec) : RunM (List Ref) := do
  match p.layout with
  | .error e => throw e.toRunError
  | .ok l => (l.keywordNames.mapM Heap.intern).adapt ResourceError.toRunError

/-- The names of a declaration, and the cache that holds them. -/
def names (c : NameCache) (p : ParamSpec) : RunM (List Ref × NameCache) := do
  match c.get? p with
  | some refs => return (refs, c)
  | none =>
    -- Nothing is entered for a declaration whose names are interned in part only.
    let refs ← internAll p
    return (refs, ⟨(p.id, refs) :: c.entries⟩)

end NameCache

end NativeCall
