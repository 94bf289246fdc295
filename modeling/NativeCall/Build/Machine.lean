import NativeCall.Build.Argument
import NativeCall.Heap.DictItems

/-!
# Building values

`Format.build` runs the steps of a format over the arguments. The machine owns what it made so far:
the items of every open group and those outside all groups. An opening step starts a group, a
closing one makes a container of the innermost group, and every other step makes one item.

When all arguments are used up, the items outside all groups are the result: none of them give
`None`, one is the result itself, more make a tuple.

## Ownership

A caller may give references away with its arguments. From the moment it calls, they are the
build's: they end up in the value, or are released with everything that was made of the other
arguments. No exit forgets any, and each exit releases in an order of its own, which decides the
order of the freed slots:

* an argument of the wrong type is released by the step that rejects it;
* a container that cannot be made takes the items of its group with it (`newTuple`, `newList`,
  `dictOfPairs`);
* then come the arguments that were not reached, the open groups from the outermost in, and the
  items outside them (`Machine.owned`).

A conversion runs in the context of the build and may build and bind on its own. Nothing that the
machine owns is reachable for it but through the heap.
-/

namespace NativeCall

/-- A build under way. Items stand in reverse, the last one in front. -/
structure Machine where
  cursor : ArgCursor
  /-- The items outside all groups. -/
  bottom : List Ref
  /-- The items of the open groups, the innermost group in front. -/
  groups : List (List Ref)

namespace Machine

open Heap

def start (args : List BuildArg) : Machine :=
  ⟨⟨args, 0⟩, [], []⟩

def push (m : Machine) (r : Ref) : Machine :=
  match m.groups with
  | items :: outer => { m with groups := (r :: items) :: outer }
  | [] => { m with bottom := r :: m.bottom }

/-- Everything that a build still owns, in the order in which it is released. -/
def owned (m : Machine) : List Ref :=
  m.cursor.args.flatMap BuildArg.owned ++ m.groups.reverse.flatMap List.reverse ++
    m.bottom.reverse

def release (m : Machine) : ContextM Unit :=
  (decRefs m.owned : HeapM Unit)

def closeGroup (kind : GroupKind) (items : List Ref) : RunM Ref :=
  match kind with
  | .tuple => newTuple items
  | .list => newList (.filled items)
  | .dict => do newDict (← dictOfPairs items)

/-- A null object passes the pending error on; without one it is the caller's fault. -/
def nullObject : ExceptT BuildError ContextM Ref := do
  match ← Context.takeError with
  | some e => throw (.raised e)
  | none => throw (.call .nullObject)

/-- Makes what a scalar asked for. The scalar is written by `code` and took the argument at
`position`. -/
def make (code : Char) (position : Nat) : Product → ExceptT BuildError ContextM Ref
  | .none => return noneRef
  | .fresh o => ExceptT.adapt .raised (ExceptT.mk (Context.attempt (create o)))
  | .retained r => do
    -- A reference to no object is the fault of the argument, and no misuse of the heap.
    if (← getThe Context).heap.isLive r then (retain r : HeapM Ref)
    else throw (.call (.argMismatch position code))
  | .taken r => return r
  | .converted action => ExceptT.adapt .raised action
  | .null => nullObject

/-- Runs one step. The machine is handed out also where the step fails. -/
def step (m : Machine) (s : Step) : ContextM (Machine × Except BuildError Unit) := do
  match s.directive with
  | .opening _ => return ({ m with groups := [] :: m.groups }, .ok ())
  | .closing kind =>
    match m.groups with
    -- No step of a format that was read well gets here.
    | [] =>
      return (m, .error (.raised (.internal "builder closed a group that was never opened")))
    | items :: outer =>
      -- The group is off the stack before its container is made: its items are given up either way.
      let m := { m with groups := outer }
      match ← Context.attempt (closeGroup kind items.reverse) with
      | .ok r => return (m.push r, .ok ())
      | .error e => return (m, .error (.raised e))
  | .scalar x =>
    match x.read s.code m.cursor with
    | .error e cursor =>
      -- Released here and, as the cursor is past it, not again with the rest.
      (decRefs e.rejected : HeapM Unit)
      return ({ m with cursor := cursor }, .error e.error)
    | .ok product cursor =>
      let m := { m with cursor := cursor }
      match ← (make s.code cursor.position product).run with
      | .ok r => return (m.push r, .ok ())
      | .error e => return (m, .error e)

def exec (m : Machine) : List Step → ContextM (Machine × Except BuildError Unit)
  | [] => return (m, .ok ())
  | s :: rest => do
    match ← m.step s with
    | (m, .ok ()) => m.exec rest
    | (m, .error e) => return (m, .error e)

def result (items : List Ref) : RunM Ref :=
  match items with
  | [] => return noneRef
  | [r] => return r
  | items => newTuple items

end Machine

namespace Format

/-- Builds a value, without a trace. -/
def run (f : Format) (args : List BuildArg) : ExceptT BuildError ContextM Ref :=
  ExceptT.mk do
    let (m, outcome) ← (Machine.start args).exec f.steps
    match outcome, m.cursor.args with
    | .error e, _ =>
      m.release
      return .error e
    | .ok (), [] => return (← Context.attempt (Machine.result m.bottom.reverse)).mapError .raised
    -- Arguments left over are looked at only after every step has run.
    | .ok (), extra =>
      m.release
      return .error (.call (.extraArgs extra.length))

/-- Builds a value from arguments. -/
def build (f : Format) (args : List BuildArg) : ExceptT BuildError ContextM Ref :=
  ExceptT.mk do
    let outcome ← (f.run args).run
    Context.trace (.build f.source outcome.isOk)
    return outcome

end Format

/-- Builds a value from a format string and arguments. If the string is not well formed, no
argument is looked at, and what the caller gave away is released. -/
def buildValue (format : String) (args : List BuildArg) : ExceptT BuildError ContextM Ref :=
  match Format.compile format with
  | .ok f => f.build args
  | .error e =>
    ExceptT.mk do
      (Heap.decRefs (args.flatMap BuildArg.owned) : HeapM Unit)
      Context.trace (.build format false)
      return .error (.format e)

end NativeCall
