import NativeCall.Heap.Basic
import NativeCall.Number.Shortest
import NativeCall.Text.Quoted

/-!
# Objects as text

`repr` writes an object as a program would write it. Every object is one level of the heap's depth
budget, a number as well as a container; where the budget is used up, three dots stand for the
object. Lists and dicts may contain themselves, and it is the budget that ends their text.
-/

namespace NativeCall.Heap

def commaSeparated (texts : List String) : String :=
  ", ".intercalate texts

/-- A tuple in parentheses; one item alone is followed by a comma. -/
def tupleText (items : List String) : String :=
  match items with
  | [item] => "(" ++ item ++ ",)"
  | _ => "(" ++ commaSeparated items ++ ")"

/-- What stands for an object that the budget does not reach. -/
def elided : String := "..."

/-- The text of an object. The budget ends the descent; `fuel` is only there for the recursion, and
any number above the budget will do. -/
def reprWith : Nat → Ref → HeapM String
  | 0, _ => return elided
  | fuel + 1, r => do
    -- No level was entered here, so none is left.
    unless ← enterLevel do return elided
    let text ←
      match ← get r with
      | .none => pure "None"
      | .bool b => pure (if b then "True" else "False")
      | .int i => pure (toString i.toInt)
      | .bigInt i => pure (toString i)
      | .float x => pure x.text
      | .str s => pure (Quoted.literal s)
      | .bytes bs => pure (Quoted.bytesLiteral bs)
      | .tuple items => do
        let texts ← items.mapM (reprWith fuel)
        pure (tupleText texts)
      | .list store => do
        let texts ← store.items.mapM (reprWith fuel)
        pure ("[" ++ commaSeparated texts ++ "]")
      | .dict d => do
        let texts ← d.entries.mapM (fun e => do
          -- The key is left again before the value is entered: both are one level below the dict.
          let key ← reprWith fuel e.keyRef
          let value ← reprWith fuel e.value
          pure (key ++ ": " ++ value))
        pure ("\x7b" ++ commaSeparated texts ++ "\x7d")
      | .native o => pure ("<" ++ o.typeName ++ " object>")
    exitLevel
    return text

def repr (r : Ref) : HeapM String := do
  reprWith ((← getThe Heap).levels + 1) r

end NativeCall.Heap
