import NativeCall.Heap.Basic

/-!
# Keys of objects

`projection` computes the key that a dict files an object under. Tuples are entered one level at a
time against the heap's depth budget, and every level that was entered is left again, also when an
item has no key: afterwards the budget is what it was before.

A list or a dict can change and so has no key. In a tuple the items are asked from the first to the
last, and the first that has no key decides the error; items behind it are not looked at.
-/

namespace NativeCall.Heap

/-- The key of an object. The budget ends the descent; `fuel` is only there for the recursion, and
any number above the budget will do. -/
def projectionWith : Nat → Ref → RunM Key
  | 0, _ => throw .recursionLimit
  | fuel + 1, r => do
    match ← get r with
    | .none => return .none
    | .bool b => return .int (if b then 1 else 0)
    | .int i => return .int i
    | .bigInt i => return .ofInt i
    | .float x => return .ofFloat x
    | .str s => return .str s
    | .bytes bs => return .bytes bs
    | .tuple items =>
      unless ← enterLevel do throw .recursionLimit
      let keys ← attempt (items.mapM (projectionWith fuel))
      -- The level is given back before it is known whether every item has a key.
      exitLevel
      return .tuple (← liftExcept keys)
    | .native _ => return .identity r
    | o@(.list _) | o@(.dict _) => throw (.unhashable o.typeName)

/-- The key that a dict files an object under. -/
def projection (r : Ref) : RunM Key := do
  projectionWith ((← getThe Heap).levels + 1) r

end NativeCall.Heap
