import NativeCall.Heap.Allocate

/-!
# Containers built slot by slot

A `SlotBuilder` collects the items of a tuple or a list of known length in any order. It owns what
it was given: an item that another one takes the place of is released, and so is everything when
the container cannot be built or is given up.

## The storage of a list

A builder has a slot for each item from the beginning, but a list that it builds does not take over
the slots. The items are taken out of them one at a time, without a count of those to come, and the
storage of the list grows as they arrive: to no room at all for no item, to room for four with the
first, and to twice as much whenever it is full (`ListStore.filled`). A list of one item is charged
for four.

## Handle sets

A `HandleSet` collects owned references so that they can be released together.
-/

namespace NativeCall

/-- The containers that can be built slot by slot. -/
inductive SequenceKind where
  | tuple
  | list
  deriving DecidableEq, Repr

def SequenceKind.name : SequenceKind → String
  | tuple => "tuple"
  | list => "list"

structure SlotBuilder where
  kind : SequenceKind
  slots : List (Option Ref)
  deriving DecidableEq, Repr

namespace SlotBuilder

open Heap

def empty (kind : SequenceKind) (length : Nat) : SlotBuilder :=
  ⟨kind, List.replicate length none⟩

/-- Everything the builder owns, by slot. -/
def owned (b : SlotBuilder) : List Ref :=
  b.slots.filterMap id

/-- Puts an item into a slot. Where there is no such slot, the item is released. -/
def set (b : SlotBuilder) (i : Nat) (r : Ref) : RunM SlotBuilder := do
  match b.slots[i]? with
  | none =>
    decRef r
    throw .badInternalCall
  | some old =>
    -- An item that was set before gives way first.
    if let some q := old then decRef q
    return { b with slots := b.slots.set i (some r) }

def firstUnset? (b : SlotBuilder) : Option Nat :=
  b.slots.findIdx? Option.isNone

def cancel (b : SlotBuilder) : HeapM Unit :=
  decRefs b.owned

/-- The container, if every slot was set. The storage of a list grows as the items come out of the
slots. -/
def build (b : SlotBuilder) : RunM Ref := do
  match b.firstUnset? with
  | some i =>
    -- Names of slots in the diagnostic count from 0.
    b.cancel
    throw (.raising .systemError
      (b.kind.name ++ " builder slot " ++ toString i ++ " was never set"))
  | none =>
    match b.kind with
    | .tuple => newTuple b.owned
    | .list => newList (.filled b.owned)

end SlotBuilder

/-- Owned references that are to be released together. -/
structure HandleSet where
  handles : List Ref
  deriving DecidableEq, Repr

namespace HandleSet

def empty : HandleSet := ⟨[]⟩

def add (s : HandleSet) (r : Ref) : HandleSet :=
  ⟨s.handles ++ [r]⟩

def size (s : HandleSet) : Nat :=
  s.handles.length

/-- Releases every reference, in the order in which they came. -/
def close (s : HandleSet) : HeapM Unit :=
  Heap.decRefs s.handles

end HandleSet

end NativeCall
