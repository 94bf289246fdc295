import NativeCall.Heap.Projection
import NativeCall.Heap.Release

/-!
# Dicts and their references

A dict owns one reference to each of its keys and values. These operations take over the
references that they are given: each one ends up in the dict or is released.
-/

namespace NativeCall.Heap

/-- Puts a value under a key. An entry that is replaced keeps its own key object, so the old value
and the new key are released. -/
def setItem (d : Dict) (key value : Ref) : RunM Dict := do
  let k ←
    try projection key
    catch e =>
      decRef key
      decRef value
      throw e
  match d.find? k with
  | some old =>
    -- The entry keeps the key object that came first, so the new one is of no use.
    decRef old.value
    decRef key
    return d.replace k value
  | none => return d.append ⟨k, key, value⟩

def releaseDict (d : Dict) : HeapM Unit :=
  decRefs d.refs

/-- Puts pairs of keys and values, one after the other, into a dict. If a key is refused, the items
to come and the dict so far are released. An item without a partner is released too. -/
def addPairs (d : Dict) : List Ref → RunM Dict
  | [] => return d
  -- Groups of a format never get here, since their items are counted when it is read.
  | [key] => do
    decRef key
    return d
  | key :: value :: rest => do
    let d ←
      try setItem d key value
      catch e =>
        -- The refused pair is gone already; what is to come goes before what was put in.
        decRefs rest
        releaseDict d
        throw e
    addPairs d rest

def dictOfPairs (items : List Ref) : RunM Dict :=
  addPairs .empty items

end NativeCall.Heap
