import NativeCall.Bind.Keywords
import NativeCall.Context

/-!
# Binding calls

`bind` matches the arguments of a call with the declared parameters of a function. Arguments by
position fill the parameters from the front; a keyword fills the parameter of its name.

A call without keywords whose number of arguments is in order needs no matching (`isFast`): it is
returned as it came, and no name is interned for it. Every other call goes the long way, `bindSlow`.

Bound arguments are borrowed: binding owns nothing and releases nothing. Apart from the trace, the
only thing that a call leaves behind is the interned names of the declaration.

## The order of the checks

A call may be wrong in several ways at once, and the diagnostic is that of the first check it fails:

* the keywords are a dict, or a tuple with as many names as there are values (`Keywords.resolve`);
* the declaration is well formed (`ParamSpec.layout`);
* the arguments are neither too many nor, by position, too few (`countError?`);
* the names of the parameters can be interned (`internNames`);
* every required parameter is given, asked for in the order of the declaration (`fill`);
* no keyword is left over that filled nothing (`leftoverError?`).

`fill` counts how many keywords have not been used, and does not mark which. It stops early once no
keyword is left and nothing further is required, and keywords are left over if the count has not
come down to zero. A declaration that repeats a name finds the same keyword twice, and the count
then comes down faster than keywords are used up.
-/

namespace NativeCall

/-- How many arguments a function takes by position, and how many of the parameters behind those
must be given. -/
structure Arity where
  minPositional : Nat
  maxPositional : Nat
  minKeyword : Nat
  deriving DecidableEq, Repr

namespace Arity

/-- Exactly `n` arguments by position. -/
def exact (n : Nat) : Arity :=
  ⟨n, n, 0⟩

/-- No parameter from here on is required. -/
def requiredEnd (a : Arity) : Nat :=
  if 0 < a.minKeyword then a.maxPositional + a.minKeyword else a.minPositional

/-- The parameter at index `i` must be given. -/
def requires (a : Arity) (i : Nat) : Bool :=
  i < a.minPositional || (a.maxPositional ≤ i && i < a.requiredEnd)

end Arity

inductive BoundArgs where
  /-- The caller's own arguments. -/
  | borrowed (args : List Ref)
  /-- One slot for each parameter. -/
  | filled (slots : List (Option Ref))
  deriving DecidableEq, Repr

namespace BoundArgs

def get? (b : BoundArgs) (i : Nat) : Option Ref :=
  match b with
  | borrowed args => args[i]?
  | filled slots => slots[i]?.join

def size : BoundArgs → Nat
  | borrowed args => args.length
  | filled slots => slots.length

def isBorrowed : BoundArgs → Bool
  | borrowed _ => true
  | filled _ => false

def toList : BoundArgs → List (Option Ref)
  | borrowed args => args.map some
  | filled slots => slots

theorem getElem?_toList (b : BoundArgs) (i : Nat) : b.toList[i]?.join = b.get? i := by
  cases b with
  | borrowed args => cases h : args[i]? <;> simp [toList, get?, h]
  | filled slots => rfl

end BoundArgs

structure Call where
  spec : ParamSpec
  args : List Ref
  keywords : KeywordSource
  arity : Arity
  deriving Repr

namespace Call

/-- The call needs no matching. -/
def isFast (c : Call) (nkwargs : Nat) : Bool :=
  nkwargs = 0 && c.arity.minKeyword = 0 &&
    c.arity.minPositional ≤ c.args.length && c.args.length ≤ c.arity.maxPositional

/-- What is wrong with the number of arguments. -/
def countError? (c : Call) (l : Layout) (nkwargs : Nat) : Option BindError :=
  let nargs := c.args.length
  -- Beyond the parameters without a name, a keyword may still stand for a missing argument.
  let minPositional := min l.positionalOnly c.arity.minPositional
  if l.maxArgs < nargs + nkwargs then
    some (.tooManyArguments c.spec.fname l.maxArgs (nargs + nkwargs) (nargs = 0))
  else if c.arity.maxPositional < nargs then
    some (.tooManyPositional c.spec.fname c.arity.maxPositional
      (c.arity.maxPositional ≤ c.arity.minPositional) nargs)
  else if nargs < minPositional then
    some (.tooFewPositional c.spec.fname minPositional
      (c.arity.maxPositional ≤ minPositional) nargs)
  else none

/-- Fills the slots of the parameters from index `i` on, which have these interned names, while
`remaining` keywords have not been used. Returns how many are still not used then. Once no keyword
is left and no parameter is required any more, the other slots stay empty. -/
def fill (c : Call) (h : Heap) (k : Keywords) (i remaining : Nat) :
    List (Ref × String) → Except BindError (List (Option Ref) × Nat)
  | [] => .ok ([], remaining)
  | params@((interned, name) :: rest) =>
    -- Nothing from here on could be filled or be missed.
    if remaining = 0 ∧ c.arity.requiredEnd ≤ i then .ok (params.map (fun _ => none), remaining)
    else
      match if 0 < remaining then k.lookup h interned name else none with
      | some r => do
        let (slots, left) ← c.fill h k (i + 1) (remaining - 1) rest
        .ok (some r :: slots, left)
      | none =>
        if c.arity.requires i then .error (.missingRequired c.spec.fname name (i + 1))
        else do
          let (slots, left) ← c.fill h k (i + 1) remaining rest
          .ok (none :: slots, left)

/-- A parameter that was given by position and by keyword. The parameters are those from index `i`
on. -/
def duplicate? (c : Call) (h : Heap) (k : Keywords) (i : Nat) :
    List (Ref × String) → Option BindError
  | [] => none
  | (interned, name) :: rest =>
    if (k.lookup h interned name).isSome then
      some (.duplicateArgument c.spec.fname name (i + 1))
    else c.duplicate? h k (i + 1) rest

def unexpected? (c : Call) (h : Heap) (names : List String) (key : Ref) : Option BindError :=
  match h.text? key with
  | none => some .nonStringKeyword
  | some s => if s ∈ names then none else some (.unexpectedKeyword c.spec.fname s)

/-- Why a keyword filled no slot. -/
def leftoverError? (c : Call) (h : Heap) (l : Layout) (k : Keywords)
    (params : List (Ref × String)) : Option BindError :=
  -- A keyword for a parameter that was given by position counts before one for no parameter.
  (c.duplicate? h k l.positionalOnly (params.take (c.args.length - l.positionalOnly))).or
    (k.supplied.findSome? (c.unexpected? h l.keywordNames))

/-- Matches arguments and parameters on a heap where the parameters' names are interned as
`names`. -/
def slots (c : Call) (h : Heap) (l : Layout) (k : Keywords) (names : List Ref) :
    Except BindError (List (Option Ref)) := do
  let nargs := c.args.length
  let params := names.zip l.keywordNames
  let (filled, left) ←
    c.fill h k (max nargs l.positionalOnly) k.count (params.drop (nargs - l.positionalOnly))
  let slots := c.args.map some ++ List.replicate (l.positionalOnly - nargs) none ++ filled
  -- Only the number of keywords used is known here.
  if left = 0 then return slots
  match c.leftoverError? h l k params with
  | some e => throw e
  | none => return slots

/-- The interned names of the declaration; the first time is reported. -/
def internNames (p : ParamSpec) : ExceptT RunError ContextM (List Ref) := do
  let cache := (← getThe Context).names
  let (names, cache') ← (cache.names p : RunM _)
  modifyThe Context ({ · with names := cache' })
  if (cache.get? p).isNone then
    (Context.trace (.namesInterned p.fname names.length) : ContextM Unit)
  return names

def bindSlow (c : Call) (l : Layout) (k : Keywords) : ExceptT BindError ContextM BoundArgs := do
  if let some e := c.countError? l k.count then throw e
  -- A call with a wrong number of arguments interns nothing.
  let names ← (internNames c.spec).adapt .raised
  let h := (← getThe Context).heap
  .filled <$> liftExcept (c.slots h l k names)

/-- Binds a call, without a trace. The number of keywords comes with the result. -/
def bindUntraced (c : Call) : ExceptT BindError ContextM (BoundArgs × Nat) := do
  let k ← liftExcept (Keywords.resolve (← getThe Context).heap c.keywords)
  let l ← liftExcept (c.spec.layout.mapError BindError.invalidSpec)
  if c.isFast k.count then return (.borrowed c.args, 0)
  return (← c.bindSlow l k, k.count)

/-- Binds a call. -/
def bind (c : Call) : ExceptT BindError ContextM BoundArgs :=
  ExceptT.mk do
    match ← c.bindUntraced.run with
    | .ok (bound, nkwargs) =>
      Context.trace (.bind c.spec.fname c.args.length nkwargs bound.isBorrowed)
      return .ok bound
    | .error e =>
      Context.trace (.bindError c.spec.fname e.message)
      return .error e

end Call

end NativeCall
