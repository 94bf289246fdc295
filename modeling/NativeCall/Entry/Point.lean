import NativeCall.Context
import NativeCall.Heap.Release
import NativeCall.Entry.Compare

/-!
# Entry points

An entry point is how a native function is called from outside. The outer convention passes words:
a receiver, a tuple of arguments, a dict of keywords, each of which may be null. Failure is told by
a sentinel (a null word or a negative status) together with the pending error.

There is one adapter for each family. It checks what its family needs, hands the function the
receiver and the arguments, reports the call and passes the function's answer on. A tuple is handed
over as the list of its items, in order.

The context is passed by the caller too, and may be null like any other word. So an adapter is an
operation of `EntryM`, whose state is a context or none. Each adapter begins by looking for the
context (`withContext`): without one there is nothing to report to, and it answers with the sentinel
of its own family. From there on it runs in the context, as native functions do.

Input that does not fit the family is rejected before the function runs: the pending error becomes
a bad internal call and the adapter answers with the sentinel.
-/

namespace NativeCall

/-- A view of an object's bytes. -/
structure BufferView where
  /-- The object that the view keeps alive. -/
  obj : Word
  length : Nat
  itemSize : Nat
  readOnly : Int
  ndim : Int
  deriving DecidableEq, Repr

def BufferView.zeroed : BufferView :=
  ⟨none, 0, 0, 0, 0⟩

/-- Calls from outside. The context that they come with may be null. -/
abbrev EntryM := EStateM Misuse (Option Context)

namespace Entry

/-- Goes on in the context of a call; without one the call answers with `sentinel`. -/
def withContext {α : Type} (sentinel : α) (body : ContextM α) : EntryM α := fun
  | none => .ok sentinel none
  | some c =>
    match body c with
    | .ok a c => .ok a (some c)
    | .error m c => .error m (some c)

def failure : Int := -1

def reject {α : Type} (family : Family) (sentinel : α) : ContextM α := do
  Context.setError .badInternalCall
  Context.trace (.entry family false)
  return sentinel

/-- Passes on an object; null reports failure. -/
def finishObject (family : Family) (result : Word) : ContextM Word := do
  Context.trace (.entry family result.isSome)
  return result

/-- Passes on a status; a negative one reports failure. -/
def finishStatus (family : Family) (status : Int) : ContextM Int := do
  Context.trace (.entry family (0 ≤ status))
  return status

/-- The arguments in a tuple; the word must be a live tuple. -/
def arguments? (h : Heap) (args : Word) : Option (List Ref) :=
  args.bind h.tupleItems?

/-- The keywords of a call: null or a live dict. -/
def keywords? (h : Heap) (kw : Word) : Option Word :=
  match kw with
  | none => some none
  | some r => if (h.dict? r).isSome then some (some r) else none

def noArgs (f : Word → ContextM Word) (self _unused : Word) : EntryM Word :=
  withContext none do
    finishObject .noArgs (← f self)

def oneArg (f : Word → Word → ContextM Word) (self arg : Word) : EntryM Word :=
  withContext none do
    finishObject .oneArg (← f self arg)

def varArgs (f : Word → List Ref → ContextM Word) (self args : Word) : EntryM Word :=
  withContext none do
    match arguments? (← getThe Context).heap args with
    | some items => finishObject .varArgs (← f self items)
    | none => reject .varArgs none

def keywords (f : Word → List Ref → Word → ContextM Word) (self args kw : Word) : EntryM Word :=
  withContext none do
    let h := (← getThe Context).heap
    match arguments? h args, keywords? h kw with
    | some items, some kw => finishObject .keywords (← f self items kw)
    | _, _ => reject .keywords none

def init (f : Word → List Ref → Word → ContextM Int) (self args kw : Word) : EntryM Int :=
  withContext failure do
    let h := (← getThe Context).heap
    match arguments? h args, keywords? h kw with
    | some items, some kw => finishStatus .init (← f self items kw)
    | _, _ => reject .init failure

/-- Destroys a live instance: `f` sees its bytes, then its storage is released whatever its
reference count says. -/
def destroy {α : Type} (f : List UInt8 → α) (obj : Word) : EntryM (Option α) :=
  withContext none do
    match obj with
    | none => reject .destroy none
    | some r =>
      match (← getThe Context).heap.native? r with
      | none => reject .destroy none
      | some o =>
        -- The bytes are gone once the storage is released.
        let seen := f o.destructorView
        (Heap.releaseStorage r : HeapM Unit)
        Context.trace (.entry .destroy true)
        return some seen

def richCompare (f : Word → Word → CompareOp → ContextM Word) (self other : Word) (op : Int) :
    EntryM Word :=
  withContext none do
    match CompareOp.ofNumber? op with
    | some op => finishObject .richCompare (← f self other op)
    | none => reject .richCompare none

def getBuffer (f : Word → BufferView → Int → ContextM (BufferView × Int)) (self : Word)
    (view : Option BufferView) (flags : Int) : EntryM (Option BufferView × Int) :=
  -- A view that nothing was written to is still the caller's.
  withContext (view, failure) do
    match view with
    | some view =>
      let (view, status) ← f self view flags
      return (some view, ← finishStatus .getBuffer status)
    | none => reject .getBuffer (none, failure)

def releaseBuffer (f : Word → BufferView → ContextM BufferView) (self : Word)
    (view : Option BufferView) : EntryM (Option BufferView) :=
  withContext view do
    match view with
    | some view =>
      let view ← f self view
      Context.trace (.entry .releaseBuffer true)
      return some view
    | none => reject .releaseBuffer none

end Entry

end NativeCall
