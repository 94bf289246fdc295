import NativeCall.Bind.Basic
import NativeCall.Build.Machine
import NativeCall.Entry.Point
import NativeCall.Heap.Allocate

/-!
# Sample native functions

A small extension: conversions that a build can call, and one function or more of every family.
Sessions call them, and they show how native code uses the builder, the binder and the pending
error.

They are samples and no part of what is claimed of entry points: an adapter takes any function of
its family. Two of them are there to misbehave, a function that always fails and a conversion that
leaves a pending error behind and succeeds all the same.
-/

namespace NativeCall.Natives

/-- Passes an outcome to the outer convention: an error becomes the pending error, and null. -/
def orPending {ε : Type} (toRunError : ε → RunError) (x : ExceptT ε ContextM Ref) :
    ContextM Word := do
  match ← x.run with
  | .ok r => return some r
  | .error e =>
    Context.setError (toRunError e)
    return none

def orPendingRun (x : RunM Ref) : ContextM Word :=
  orPending id (ExceptT.mk (Context.attempt x))

/-! ## Conversions -/

/-- The conversions that a build can call by name. -/
inductive Converter where
  /-- An integer. -/
  | int
  /-- A tuple of an integer and its negative. -/
  | pair
  /-- Builds from a format string that is not well formed. -/
  | broken
  /-- Leaves a pending error behind and succeeds. -/
  | pending
  deriving DecidableEq, Repr

/-- A conversion applied to its argument, which may be something else than an integer. -/
def Converter.action (c : Converter) (arg : Option Int64) : Conversion :=
  match c, arg with
  | int, some i => ExceptT.mk (Context.attempt (Heap.create (.int i)))
  | pair, some i => (buildValue "(ll)" [.int i, .int (-i)]).adapt BuildError.toRunError
  | int, none | pair, none => throw (.raising .typeError "expected i64")
  | broken, _ => (buildValue "(i" [.int 1]).adapt BuildError.toRunError
  | pending, _ => do
    Context.setError (.raising .typeError "set by converter")
    return Heap.noneRef

/-! ## Functions -/

def typeName (self : Word) : ContextM Word := do
  let name ←
    match self with
    | some r => (Heap.typeName r : HeapM String)
    | none => pure "NULL"
  orPendingRun (Heap.newStr name)

def fail (_self : Word) : ContextM Word := do
  Context.setError (.raising .typeError "native failure")
  return none

def sameArg (_self arg : Word) : ContextM Word := do
  match arg with
  | some r => some <$> (Heap.retain r : HeapM Ref)
  | none => return none

def pack (_self : Word) (args : List Ref) : ContextM Word :=
  orPendingRun (Heap.tupleOf args)

/-- The declaration of `call`: one parameter by position, `b` and `c`. -/
def callSpec : ParamSpec :=
  ⟨0, ["", "b", "c"], some "call"⟩

/-- A tuple of the arguments bound to `callSpec`; `None` stands for those that were not given. -/
def call (_self : Word) (args : List Ref) (kw : Word) : ContextM Word := do
  let keywords : KeywordSource := match kw with
    | some r => .dict r
    | none => .none
  match ← (Call.bind ⟨callSpec, args, keywords, ⟨1, 3, 0⟩⟩).run with
  | .ok bound =>
    orPendingRun (Heap.tupleOf (bound.toList.map (·.getD Heap.noneRef)))
  | .error e =>
    Context.setError e.toRunError
    return none

/-- Takes one argument by position; the status tells whether there were keywords. -/
def init (_self : Word) (args : List Ref) (kw : Word) : ContextM Int := do
  match args with
  | [_] => return if kw.isSome then 1 else 0
  | _ =>
    Context.setError (.raising .typeError "init expects one argument")
    return Entry.failure

/-- Compares integers of 64 bits; other operands give `None`. -/
def compare (self other : Word) (op : CompareOp) : ContextM Word := do
  let h := (← getThe Context).heap
  match self.bind h.toInt64?, other.bind h.toInt64? with
  | some a, some b =>
    some <$> (Heap.retain (Heap.boolRef (op.holds (Ord.compare a.toInt b.toInt))) : HeapM Ref)
  | _, _ => some <$> (Heap.retain Heap.noneRef : HeapM Ref)

/-- Shows the payload of the receiver. -/
def getBuffer (self : Word) (view : BufferView) (flags : Int) : ContextM (BufferView × Int) := do
  match self with
  | some r =>
    if flags < 0 then refuse
    else
      (Heap.incRef r : HeapM Unit)
      -- The view holds a reference of its own, given back by `releaseBuffer`.
      let h := (← getThe Context).heap
      let length := ((h.native? r).map (·.payload.length)).getD 0
      return (⟨some r, length, 1, 1, flags⟩, 0)
  | none => refuse
where
  refuse : ContextM (BufferView × Int) := do
    Context.setError (.raising .typeError "cannot export buffer")
    return (view, Entry.failure)

def releaseBuffer (_self : Word) (view : BufferView) : ContextM BufferView := do
  match view.obj with
  | some r =>
    (Heap.decRef r : HeapM Unit)
    return { view with obj := none }
  | none => return view

end NativeCall.Natives
