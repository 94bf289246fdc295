import NativeCall.Heap.Release

/-!
# Allocation

`allocate` puts an object on the heap and hands out the only reference to it. The object's
references become the heap's: if the tracker refuses the allocation they are released instead, so
the caller gives them up in either case.

`intern` keeps one immortal string per text, and hands out a borrowed reference. It is charged for
like any other string when it is made, and since it never goes, its bytes never come back.

The tracker is asked before a slot is taken. A refused object leaves the row of slots, the free list
and the table of interned strings as they were; what it can change is what its own references were
the last ones to.
-/

namespace NativeCall.Heap

/-- Fills the slot on top of the free list, or a new one. -/
def place (h : Heap) (e : Entry) : Ref × Heap :=
  match h.freeList with
  | r :: rest => (r, { h.setSlot r (some e) with freeList := rest })
  | [] => (⟨h.slots.size⟩, { h with slots := h.slots.push (some e) })

def insert (o : Object) (immortal : Bool) : HeapM Ref :=
  modifyGet (·.place ⟨1, immortal, o⟩)

def charge (o : Object) : ExceptT ResourceError HeapM Unit := do
  match (← getThe Heap).tracker.charge o.size with
  | .ok t => modify ({ · with tracker := t })
  | .error e => throw e

/-- A new object, which takes over the references in `o`. -/
def allocate (o : Object) : ExceptT ResourceError HeapM Ref := do
  try charge o
  -- The references are given up here, refused or not.
  catch e =>
    decRefs o.children
    throw e
  insert o false

/-- A new object; a refused allocation raises. -/
def create (o : Object) : RunM Ref :=
  (allocate o).adapt ResourceError.toRunError

def internedRef? (h : Heap) (s : String) : Option Ref :=
  h.interned.lookup s

/-- The interned string of a text, made when it is first asked for. The reference is borrowed. -/
def intern (s : String) : ExceptT ResourceError HeapM Ref := do
  match (← getThe Heap).internedRef? s with
  | some r => return r
  | none =>
    -- Nothing is in the table yet if the tracker refuses.
    charge (.str s)
    let r ← insert (.str s) true
    modify (fun h => { h with interned := (s, r) :: h.interned })
    return r

/-- The reference is the interned string of its text. -/
def isInterned (h : Heap) (r : Ref) : Bool :=
  match h.text? r with
  | some s => h.internedRef? s == some r
  | none => false

/-! ## Making values -/

/-- A tuple of the given items; there is only one empty tuple. -/
def newTuple : List Ref → RunM Ref
  | [] => return emptyTupleRef
  | items => create (.tuple items)

def newList (store : ListStore) : RunM Ref :=
  create (.list store)

def newDict (d : Dict) : RunM Ref :=
  create (.dict d)

def newStr (s : String) : RunM Ref :=
  create (.str s)

/-- A tuple of new references to the given objects. -/
def tupleOf (items : List Ref) : RunM Ref := do
  items.forM (fun r => (incRef r : HeapM Unit))
  newTuple items

end NativeCall.Heap
