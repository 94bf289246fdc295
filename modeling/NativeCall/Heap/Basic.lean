import NativeCall.Object
import NativeCall.Resource.Tracker

/-!
# Heaps

A heap is a row of slots. A slot holds an object with its reference count, or is empty; the empty
slots stand on a free list, and the slot freed last is filled first. So a reference that is kept
beyond the release of its object does not stay dangling for long: it denotes whatever the slot is
filled with next, and no operation can tell.

Four objects are there from the start and never go: `None`, `True`, `False` and the empty tuple.
They and the interned strings are *immortal*: their counts are never touched, so an owned reference
to one of them is as good as a borrowed one.

## Misuse

A slot can be used wrongly: through a reference to no slot, or to a slot that is empty. `HeapM` is
the monad of heap operations. An operation that meets a wrong reference stops with a `Misuse`, and
the heap is left as it was at that moment, so that statements about heaps cover misused ones too.
Errors that callers are meant to handle are ordinary results: `RunM` adds them on top of `HeapM`, so
a raised error keeps the heap and can be caught, while a misuse ends everything.

* `demand` is the way to a slot that has to be live, and the operation that asks is named in the
  misuse;
* `slot?`, `object?` and the views at the end of this file answer `none` where `demand` would stop.

## The depth budget

All traversals of nested data draw on one budget of levels, which `enterLevel` takes from and
`exitLevel` gives back to. A client may draw on it too and enter several levels at once;
`enterLevels_succ` says that this is the same as entering them one after the other.
-/

namespace NativeCall

/-- An object in a slot. -/
structure Entry where
  refs : Nat
  /-- The object is never freed, and its count never changes. -/
  immortal : Bool
  object : Object
  deriving DecidableEq, Repr

/-- The object store of one runtime. -/
structure Heap where
  slots : Array (Option Entry)
  /-- The empty slots, the one freed last in front. -/
  freeList : List Ref
  tracker : Tracker
  /-- The interned strings. -/
  interned : List (String × Ref)
  /-- How many more levels of nested data a traversal may enter. -/
  levels : Nat
  deriving Repr

/-- The operations that insist on a live slot. -/
inductive HeapOp where
  | incRef
  | decRef
  | releaseStorage
  | get
  | getMut
  deriving DecidableEq, Repr

/-- What is wrong with a slot. -/
inductive SlotFault where
  /-- There is no such slot. -/
  | missing
  /-- The slot is empty. -/
  | freed
  deriving DecidableEq, Repr

/-- An operation was given a reference that does not denote an object. -/
structure Misuse where
  op : HeapOp
  fault : SlotFault
  deriving DecidableEq, Repr

def HeapOp.name : HeapOp → String
  | incRef => "inc_ref"
  | decRef => "dec_ref"
  | releaseStorage => "release_storage"
  | get => "get"
  | getMut => "get_mut"

def SlotFault.message : SlotFault → String
  | missing => "slot missing"
  | freed => "object already freed"

def Misuse.message (m : Misuse) : String :=
  "Heap::" ++ m.op.name ++ ": " ++ m.fault.message

/-- Heap operations: they may stop at a misused slot, and keep the heap as it then is. -/
abbrev HeapM := EStateM Misuse Heap

/-- Heap operations that may also raise. -/
abbrev RunM := ExceptT RunError HeapM

namespace Heap

/-- Runs an operation and hands what it raises to the caller as a result. -/
def attempt {α : Type} (x : RunM α) : RunM (Except RunError α) :=
  ExceptT.lift x.run

/-! ## The objects that are always there -/

def noneRef : Ref := ⟨0⟩

def trueRef : Ref := ⟨1⟩

def falseRef : Ref := ⟨2⟩

def emptyTupleRef : Ref := ⟨3⟩

def boolRef (b : Bool) : Ref :=
  if b then trueRef else falseRef

/-- The immortal objects of a fresh heap, in the order of their slots. -/
def singletons : List Object :=
  [.none, .bool true, .bool false, .tuple []]

/-- How deep traversals of a fresh heap may go. -/
def maxLevels : Nat := 100

def fresh (tracker : Tracker) : Heap where
  slots := (singletons.map (fun o => some ⟨1, true, o⟩)).toArray
  freeList := []
  tracker := tracker
  interned := []
  levels := maxLevels

/-! ## Slots -/

/-- What the slot of a reference holds; `none` also where there is no slot. -/
def slot? (h : Heap) (r : Ref) : Option Entry :=
  h.slots[r.index]?.join

/-- The object that a reference denotes. -/
def object? (h : Heap) (r : Ref) : Option Object :=
  (h.slot? r).map (·.object)

def isLive (h : Heap) (r : Ref) : Bool :=
  (h.slot? r).isSome

/-- The reference count of a live object, and 0 of any other. -/
def refCount (h : Heap) (r : Ref) : Nat :=
  ((h.slot? r).map (·.refs)).getD 0

/-- Fills or empties a slot. -/
def setSlot (h : Heap) (r : Ref) (s : Option Entry) : Heap :=
  { h with slots := h.slots.setIfInBounds r.index s }

theorem slot?_setSlot_self {h : Heap} {r : Ref} (s : Option Entry) (hr : r.index < h.slots.size) :
    (h.setSlot r s).slot? r = s := by
  simp [slot?, setSlot, hr]

theorem slot?_setSlot_of_ne {h : Heap} {r q : Ref} (s : Option Entry) (hq : r ≠ q) :
    (h.setSlot r s).slot? q = h.slot? q := by
  have : r.index ≠ q.index := fun hi => hq (by cases r; cases q; simp_all)
  simp [slot?, setSlot, this]

theorem lt_size_of_slot? {h : Heap} {r : Ref} {e : Entry} (he : h.slot? r = some e) :
    r.index < h.slots.size := by
  rcases Nat.lt_or_ge r.index h.slots.size with hr | hr
  · exact hr
  · simp [slot?, Array.getElem?_eq_none hr] at he

/-- The object of a live slot; any other slot is a misuse by `op`. -/
def demand (op : HeapOp) (r : Ref) : HeapM Entry := fun h =>
  match h.slots[r.index]? with
  | some (some e) => .ok e h
  | some none => .error ⟨op, .freed⟩ h
  -- The row ends before: the reference never came from this heap.
  | none => .error ⟨op, .missing⟩ h

theorem demand_of_slot? {h : Heap} {op : HeapOp} {r : Ref} {e : Entry}
    (he : h.slot? r = some e) : demand op r h = .ok e h := by
  unfold demand
  cases hs : h.slots[r.index]? with
  | none => simp [slot?, hs] at he
  | some s => simp_all [slot?]

def get (r : Ref) : HeapM Object :=
  (·.object) <$> demand .get r

def update (r : Ref) (f : Object → Object) : HeapM Unit := do
  let e ← demand .getMut r
  modify (·.setSlot r (some { e with object := f e.object }))

/-- Adds a reference to an object. Immortal objects are not counted. -/
def incRef (r : Ref) : HeapM Unit := do
  let e ← demand .incRef r
  -- An immortal object has to be there as well; only its count is left alone.
  unless e.immortal do
    modify (·.setSlot r (some { e with refs := e.refs + 1 }))

/-- A new owned reference to an object. -/
def retain (r : Ref) : HeapM Ref := do
  incRef r
  return r

/-! ## The depth budget -/

/-- Enters a level of nested data, if the budget allows it. -/
def enterLevel : HeapM Bool := fun h =>
  match h.levels with
  | 0 => .ok false h
  | n + 1 => .ok true { h with levels := n }

theorem enterLevel_of_levels_zero {h : Heap} (hn : h.levels = 0) :
    enterLevel h = .ok false h := by
  simp only [enterLevel, hn]

theorem enterLevel_of_levels_succ {h : Heap} {n : Nat} (hn : h.levels = n + 1) :
    enterLevel h = .ok true { h with levels := n } := by
  simp only [enterLevel, hn]

def exitLevel : HeapM Unit :=
  modify (fun h => { h with levels := h.levels + 1 })

/-- Leaving the level that was entered last gives back the whole budget. -/
theorem exitLevel_of_levels_succ {h : Heap} {n : Nat} (hn : h.levels = n + 1) :
    exitLevel { h with levels := n } = .ok () h := by
  have hback : ({ h with levels := n + 1 } : Heap) = h := by rw [← hn]
  exact congrArg (EStateM.Result.ok ()) hback

/-- Tries to enter `n` levels one after the other, and tells how many were entered. -/
def enterLevels (n : Nat) : HeapM Nat := fun h =>
  .ok (min n h.levels) { h with levels := h.levels - n }

theorem enterLevels_succ (n : Nat) :
    enterLevels (n + 1) = do
      let entered ← enterLevel
      let more ← enterLevels n
      return more + if entered then 1 else 0 := by
  funext h
  -- Without a level left both sides enter nothing; with one, both take it first.
  simp only [bind, pure, EStateM.bind, EStateM.pure, enterLevels, enterLevel]
  cases hl : h.levels with
  | zero => simp [hl]
  | succ l => simp

def exitLevels (n : Nat) : HeapM Unit :=
  modify (fun h => { h with levels := h.levels + n })

/-! ## Views of objects -/

def text? (h : Heap) (r : Ref) : Option String :=
  (h.object? r).bind Object.text?

def toInt64? (h : Heap) (r : Ref) : Option Int64 :=
  (h.object? r).bind Object.toInt64?

def tupleItems? (h : Heap) (r : Ref) : Option (List Ref) :=
  (h.object? r).bind Object.tupleItems?

def dict? (h : Heap) (r : Ref) : Option Dict :=
  (h.object? r).bind Object.dict?

def native? (h : Heap) (r : Ref) : Option NativeObject :=
  (h.object? r).bind Object.native?

/-- Whether two references denote the same object or strings of equal text. -/
def sameText (h : Heap) (a b : Ref) : Bool :=
  a = b || ((h.text? a).isSome && h.text? a == h.text? b)

def typeName (r : Ref) : HeapM String :=
  Object.typeName <$> get r

end Heap

end NativeCall
