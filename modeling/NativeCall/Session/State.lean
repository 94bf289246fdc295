import NativeCall.Heap.Repr
import NativeCall.Session.Script

/-!
# The state of a session

A session is one runtime together with everything that a script has named: registers, formats,
declarations, dicts that are not on the heap, name caches, handle sets, slot builders and views.

A script can go wrong in two ways: by misusing a slot of the heap, and by using a name that stands
for nothing. Either ends the session.

A register that is filled anew forgets what it held, and if it owned a reference, that reference is
never released: a script can lose references, as native code can. Taking over what a register owns
(`takeOwned`) leaves the reference in it as one that is borrowed, and asks for no ownership; a
script that moves one reference twice gives it away twice.
-/

namespace NativeCall.Session

/-- A reference that a script has named. -/
structure Register where
  ref : Ref
  owned : Bool
  deriving DecidableEq, Repr

/-- Things by name; of two things of one name the front one counts. -/
abbrev Names (α : Type) := List (String × α)

namespace Names

variable {α : Type}

def get? (t : Names α) (name : String) : Option α :=
  t.lookup name

def put (t : Names α) (name : String) (a : α) : Names α :=
  (name, a) :: t.filter (fun p => p.1 ≠ name)

def erase (t : Names α) (name : String) : Names α :=
  t.filter (fun p => p.1 ≠ name)

theorem get?_put_self (t : Names α) (name : String) (a : α) :
    (t.put name a).get? name = some a := by
  simp [get?, put]

end Names

structure State where
  context : Context
  registers : Names Register := []
  formats : Names Format := []
  specs : Names ParamSpec := []
  dicts : Names Dict := []
  caches : Names NameCache := []
  trackers : Names HandleSet := []
  builders : Names SlotBuilder := []
  views : Names BufferView := []
  /-- The identity of the next declaration. -/
  nextSpec : Nat := Natives.callSpec.id + 1

/-- Why a session ended early. -/
inductive Halt where
  | misuse (m : Misuse)
  | unknownName (name : String)
  deriving DecidableEq, Repr

abbrev SessionM := EStateM Halt State

def onContext {α : Type} (x : ContextM α) : SessionM α := fun s =>
  let { context, registers, formats, specs, dicts, caches, trackers, builders, views,
        nextSpec } := s
  let put (context : Context) : State :=
    ⟨context, registers, formats, specs, dicts, caches, trackers, builders, views, nextSpec⟩
  -- As in `Context.onHeap`, the context is taken out of the state while the operation runs.
  match x context with
  | .ok a context => .ok a (put context)
  | .error m context => .error (.misuse m) (put context)

def onHeap {α : Type} (x : HeapM α) : SessionM α :=
  onContext (Context.onHeap x)

/-- Runs an operation of the heap that may raise, and hands out what came of it. -/
def attempt {α : Type} (x : RunM α) : SessionM (Except RunError α) :=
  onContext (Context.attempt x)

instance : MonadLift ContextM SessionM := ⟨onContext⟩

instance : MonadLift HeapM SessionM := ⟨onHeap⟩

def theHeap : SessionM Heap :=
  return (← get).context.heap

def named {α : Type} (table : State → Names α) (name : String) : SessionM α := do
  match (table (← get)).get? name with
  | some a => return a
  | none => throw (.unknownName name)

/-- The reference that an operand denotes. -/
def Operand.resolve (x : Operand) : SessionM Ref :=
  match x with
  | .register name => (·.ref) <$> named (·.registers) name
  | .ref r => return r

/-- The word of an operand; where there is none, it is null. -/
def resolveWord (x : Option Operand) : SessionM Word :=
  match x with
  | some x => some <$> x.resolve
  | none => return none

def setRegister (name : String) (r : Register) : SessionM Unit :=
  modify (fun s => { s with registers := s.registers.put name r })

/-- Takes over the reference that a register owns. -/
def takeOwned (name : String) : SessionM Ref := do
  let r ← named (·.registers) name
  -- The name still denotes the object, which a later step may look at.
  setRegister name { r with owned := false }
  return r.ref

def describe (r : Ref) : SessionM Shown :=
  return ⟨r.index, ← onHeap (Heap.repr r)⟩

/-- Shows an owned reference, and puts it into a register or releases it. -/
def deliver (r : Ref) (dest : Option String) : SessionM Shown := do
  -- Shown while it is there: without a register it may go with this reference.
  let shown ← describe r
  match dest with
  | some name => setRegister name ⟨r, true⟩
  | none => onHeap (Heap.decRef r)
  return shown

def deliverReply (outcome : Except RunError Ref) (dest : Option String) : SessionM Reply := do
  match outcome with
  | .ok r => return .shown (← deliver r dest)
  | .error e => return .raised e

mutual

def Literal.make : Literal → SessionM (Except RunError Ref)
  | .none => return .ok Heap.noneRef
  | .bool b => return .ok (Heap.boolRef b)
  | .int i => attempt (Heap.create (.int i))
  | .uint u => attempt (Heap.create (.ofUInt64 u))
  | .bigInt i => attempt (Heap.create (.bigInt i))
  | .float x => attempt (Heap.create (.float x))
  | .str s => attempt (Heap.newStr s)
  | .bytes bs => attempt (Heap.create (.bytes bs))
  | .interned s => attempt do
    let r ← (Heap.intern s).adapt ResourceError.toRunError
    (Heap.retain r : HeapM Ref)
  | .native typeName flags size => attempt (Heap.create (.native (.zeroed typeName flags size)))
  | .tuple items => do
    match ← makeAll items [] with
    | .ok items => attempt (Heap.newTuple items)
    | .error e => return .error e
  | .list items => do
    match ← makeAll items [] with
    | .ok items => attempt (Heap.newList (.exact items))
    | .error e => return .error e
  | .dict items => do
    match ← makeAll items [] with
    | .ok items => attempt do Heap.newDict (← Heap.dictOfPairs items)
    | .error e => return .error e
  | .retained x => do
    let r ← x.resolve
    return .ok (← onHeap (Heap.retain r))
  | .moved register => .ok <$> takeOwned register

/-- Makes values from left to right; `made` holds those made before, the last one in front. If one
fails, those made before it are released. -/
def makeAll : List Literal → List Ref → SessionM (Except RunError (List Ref))
  | [], made => return .ok made.reverse
  | v :: rest, made => do
    match ← v.make with
    | .ok r => makeAll rest (r :: made)
    | .error e =>
      onHeap (Heap.decRefs made.reverse)
      return .error e

end

end NativeCall.Session
