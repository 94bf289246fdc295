import NativeCall.Object.Dict
import NativeCall.Object.Native

/-!
# Objects

The values that a heap holds. Containers hold references to other objects, one for each item, and
`children` lists them in the order in which the object holds them. That order can be observed: it
decides what is released first, and so in which order the freed slots are filled again.

An integer has two forms, one of 64 bits and one of any size, and a maker chooses; nothing forbids
the wide form for a small number. So whoever looks at a value goes by what it denotes
(`Object.toInt64?`, `Key.ofInt`) and not by its form.

## Sizes

`size` is what an object is charged for: a record of the same size for every object, and what its
content occupies beside it. A list is charged for its capacity and not for its items. The capacity
is the number of items where it was known before the storage was made (`ListStore.exact`), and grows
by doubling where the items came one at a time (`ListStore.filled`, `ListStore.push`). Every other
size depends on the content alone.
-/

namespace NativeCall

/-- The items of a list and the number of items that its storage has room for. -/
structure ListStore where
  items : List Ref
  capacity : Nat
  deriving DecidableEq, Repr

namespace ListStore

/-- The capacity needed for one more item. -/
def grow (length capacity : Nat) : Nat :=
  -- The first item makes room for four, and each doubling starts from there.
  if length < capacity then capacity else max 4 (2 * capacity)

/-- The capacity that `n` items reach when they come one at a time. -/
def capacityFor : Nat → Nat
  | 0 => 0
  | n + 1 => grow n (capacityFor n)

/-- Storage that was sized for its items. -/
def exact (items : List Ref) : ListStore :=
  ⟨items, items.length⟩

/-- Storage that was filled one item at a time. -/
def filled (items : List Ref) : ListStore :=
  ⟨items, capacityFor items.length⟩

def push (s : ListStore) (r : Ref) : ListStore :=
  ⟨s.items ++ [r], grow s.items.length s.capacity⟩

theorem le_capacityFor (n : Nat) : n ≤ capacityFor n := by
  induction n with
  | zero => simp
  | succ n ih => simp only [capacityFor, grow]; split <;> omega

theorem push_filled (items : List Ref) (r : Ref) :
    (filled items).push r = filled (items ++ [r]) := by
  simp [push, filled, capacityFor]

end ListStore

inductive Object where
  | none
  | bool (b : Bool)
  | int (i : Int64)
  /-- An integer kept in as many bits as it needs. -/
  | bigInt (i : Int)
  | float (x : Binary64)
  | str (s : String)
  | bytes (bs : List UInt8)
  | tuple (items : List Ref)
  | list (store : ListStore)
  | dict (d : Dict)
  | native (o : NativeObject)
  deriving DecidableEq, Repr

namespace Object

def typeName : Object → String
  | none => "NoneType"
  | bool _ => "bool"
  | int _ | bigInt _ => "int"
  | float _ => "float"
  | str _ => "str"
  | bytes _ => "bytes"
  | tuple _ => "tuple"
  | list _ => "list"
  | dict _ => "dict"
  | native o => o.typeName

/-- The ways of keeping a value. -/
inductive Kind where
  | none | bool | int | bigInt | float | str | bytes | tuple | list | dict | native
  deriving DecidableEq, Repr

namespace Kind

def all : List Kind :=
  [none, bool, int, bigInt, float, str, bytes, tuple, list, dict, native]

/-- The name under which heap statistics count a kind. -/
def name : Kind → String
  | none => "None"
  | bool => "Bool"
  | int => "Int"
  | bigInt => "LongInt"
  | float => "Float"
  | str => "Str"
  | bytes => "Bytes"
  | tuple => "Tuple"
  | list => "List"
  | dict => "Dict"
  | native => "Native"

end Kind

def kind : Object → Kind
  | none => .none
  | bool _ => .bool
  | int _ => .int
  | bigInt _ => .bigInt
  | float _ => .float
  | str _ => .str
  | bytes _ => .bytes
  | tuple _ => .tuple
  | list _ => .list
  | dict _ => .dict
  | native _ => .native

/-- An unsigned word as an integer: it takes the 64-bit form unless its top bit is set. -/
def ofUInt64 (u : UInt64) : Object :=
  if u.toNat < 0x8000000000000000 then int u.toInt64 else bigInt u.toNat

/-- The references that an object holds, in order. -/
def children : Object → List Ref
  | tuple items => items
  | list store => store.items
  | dict d => d.refs
  | _ => []

def bitLength (n : Nat) : Nat :=
  if n = 0 then 0 else n.log2 + 1

/-- The bytes of the record that every object has. -/
def recordSize : Nat := 88

/-- The bytes that an object occupies beside its record. -/
def extraSize : Object → Nat
  | str s => s.utf8ByteSize
  | bytes bs => bs.length
  | bigInt i => (bitLength i.natAbs + 7) / 8
  | tuple items => 8 * items.length
  -- Room is paid for whether an item is in it or not.
  | list store => 8 * store.capacity
  | dict d => 32 * d.size
  | native o => o.storage.size
  | _ => 0

/-- The bytes that an object is charged for. -/
def size (o : Object) : Nat :=
  recordSize + o.extraSize

def text? : Object → Option String
  | str s => some s
  | _ => Option.none

/-- The value of an integer of 64 bits, however it is kept. -/
def toInt64? : Object → Option Int64
  | bool b => some (if b then 1 else 0)
  | int i => some i
  -- The wide form may hold a number that would have fitted the other.
  | bigInt i =>
    if -0x8000000000000000 ≤ i ∧ i < 0x8000000000000000 then some (Int64.ofInt i)
    else Option.none
  | _ => Option.none

def tupleItems? : Object → Option (List Ref)
  | tuple items => some items
  | _ => Option.none

def dict? : Object → Option Dict
  | dict d => some d
  | _ => Option.none

def native? : Object → Option NativeObject
  | native o => some o
  | _ => Option.none

end Object

end NativeCall
