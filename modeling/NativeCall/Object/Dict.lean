import NativeCall.Object.Key

/-!
# Dicts

A dict keeps its entries in the order in which their keys first came. An entry holds the key object
and the value object beside the projection that tells it from the others. Putting a value under a
key that is present changes the value in its place and keeps the key object.

Entries are searched from the front, and `append` does not look whether the key is there already:
that the projections of a dict are distinct is what `Heap.setItem` sees to.

Nothing here owns a reference: who gives references up, and when, is the heap's part.
-/

namespace NativeCall

structure DictEntry where
  key : Key
  keyRef : Ref
  value : Ref
  deriving DecidableEq, Repr

/-- An insertion-ordered mapping. -/
structure Dict where
  entries : List DictEntry
  deriving DecidableEq, Repr

namespace Dict

def empty : Dict := ⟨[]⟩

def size (d : Dict) : Nat :=
  d.entries.length

def find? (d : Dict) (k : Key) : Option DictEntry :=
  d.entries.find? (fun e => e.key = k)

def get? (d : Dict) (k : Key) : Option Ref :=
  (d.find? k).map (·.value)

/-- Puts another value under a key that is present. -/
def replace (d : Dict) (k : Key) (value : Ref) : Dict :=
  ⟨d.entries.map (fun e => if e.key = k then { e with value := value } else e)⟩

def append (d : Dict) (e : DictEntry) : Dict :=
  ⟨d.entries ++ [e]⟩

def keyRefs (d : Dict) : List Ref :=
  d.entries.map (·.keyRef)

/-- Every reference that the entries hold: each key before its value. -/
def refs (d : Dict) : List Ref :=
  d.entries.flatMap (fun e => [e.keyRef, e.value])

end Dict

end NativeCall
