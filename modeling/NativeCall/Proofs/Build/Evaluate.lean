import NativeCall.Build.Machine
import NativeCall.Proofs.Format.Compile
import NativeCall.Proofs.Run

/-!
# The value that a format describes

`evaluate` builds a value by recursion over the items of a format. A scalar takes its arguments and
makes one object; a group evaluates its items from left to right and makes a container of them: a
tuple or a list of the items, or the dict of the adjacent pairs. There is no machine and no stack of
groups here, and no step that could find the wrong one.

This is the specification of a build, so what a build shares with it has to be beyond doubt. Shared
are the reading of one scalar (`Scalar.read`), which takes arguments and nothing else, and the
operations of the heap that make one object. Everything about groups is done again: which items
belong to a container, in which order, and which references there are to release when something in
the middle of it fails.

## Failures

An evaluation that fails leaves references behind, and says which (`Unfinished`): the arguments not
yet taken are in the cursor, the items of its own level are those made before the failure, and the
others belong to groups inside that were not finished. On the way out of a group its items become
items inside (`Unfinished.enclosed`), and behind an item that was made this item is put in front of
the others (`Unfinished.after`). The order matters, since references are released one at a time and
a slot that is freed first is reused last.

## Containers

`container` and `bundle` say what a group and the items outside all groups come to.
`closeGroup_eq_container` and `result_eq_bundle` compare them with what the machine does. For a dict
that takes an even number of items, for then no key is left without a value; `even_induction` is the
induction that goes along a list in pairs.

`Format.build` of an accepted format is `evaluate` of its items (`build_eq_evaluate`): on every
context both make the same value or fail with the same error, and leave the same context behind.
-/

namespace NativeCall.Format

open Heap

/-! ## Containers -/

/-- The adjacent pairs of a list. -/
def adjacent {α : Type} : List α → List (α × α)
  | key :: value :: rest => (key, value) :: adjacent rest
  | _ => []

/-- Puts pairs of keys and values into a dict, one after the other. If a key is refused, the pairs
to come and the dict so far are released. -/
def putPairs (d : Dict) : List (Ref × Ref) → RunM Dict
  | [] => return d
  | (key, value) :: rest => do
    let d ←
      try setItem d key value
      catch e =>
        decRefs (rest.flatMap (fun p => [p.1, p.2]))
        releaseDict d
        throw e
    putPairs d rest

/-- The container of a group. -/
def container (kind : GroupKind) (items : List Ref) : RunM Ref :=
  match kind with
  | .tuple => newTuple items
  | .list => newList (.filled items)
  | .dict => do newDict (← putPairs .empty (adjacent items))

/-- The value of the items outside all groups: `None` for none, the item itself for one, a tuple
for several. -/
def bundle (items : List Ref) : RunM Ref :=
  match items with
  | [] => return noneRef
  | [r] => return r
  | items => newTuple items

/-- Induction over lists of pairs. -/
lemma even_induction {α : Type} {P : List α → Prop} (nil : P [])
    (pair : ∀ key value rest, Even rest.length → P rest → P (key :: value :: rest)) :
    ∀ items : List α, Even items.length → P items
  | [], _ => nil
  | [x], he => absurd he (by simp)
  | key :: value :: rest, he => by
    have he' : Even rest.length := by
      rw [List.length_cons, List.length_cons, Nat.even_add_one, Nat.even_add_one, not_not] at he
      exact he
    exact pair key value rest he' (even_induction nil pair rest he')

lemma flatMap_adjacent {α : Type} {items : List α} (he : Even items.length) :
    (adjacent items).flatMap (fun p => [p.1, p.2]) = items := by
  refine even_induction (P := fun items => (adjacent items).flatMap (fun p => [p.1, p.2]) = items)
    rfl (fun key value rest _ ih => ?_) items he
  rw [adjacent, List.flatMap_cons, ih]
  rfl

/-- An even number of items leaves none without a partner. -/
lemma addPairs_eq_putPairs (d : Dict) {items : List Ref} (he : Even items.length) :
    addPairs d items = putPairs d (adjacent items) := by
  -- The dict so far changes with every pair, so it varies in the induction.
  refine even_induction (P := fun items => ∀ d, addPairs d items = putPairs d (adjacent items))
    (fun d => rfl) (fun key value rest he' ih d => ?_) items he d
  rw [addPairs, adjacent, putPairs, flatMap_adjacent he']
  exact congrArg _ (funext ih)

lemma closeGroup_eq_container {kind : GroupKind} {items : List Ref}
    (he : kind = .dict → Even items.length) :
    Machine.closeGroup kind items = container kind items := by
  cases kind with
  | tuple => rfl
  | list => rfl
  | dict =>
    show (dictOfPairs items >>= newDict) = (putPairs .empty (adjacent items) >>= newDict)
    rw [dictOfPairs, addPairs_eq_putPairs _ (he rfl)]

lemma result_eq_bundle (items : List Ref) : Machine.result items = bundle items := by
  match items with
  | [] => rfl
  | [r] => rfl
  | r :: s :: rest => rfl

/-! ## Evaluation -/

/-- An evaluation that failed. -/
structure Unfinished where
  error : BuildError
  /-- The items that were made on this level. -/
  items : List Ref
  /-- The items of the groups inside that were not finished, the outermost group first. -/
  inner : List Ref

/-- A failure that left nothing behind. -/
def Unfinished.bare (e : BuildError) : Unfinished :=
  ⟨e, [], []⟩

/-- The failure of a group as the level around it sees it. -/
def Unfinished.enclosed (u : Unfinished) : Unfinished :=
  ⟨u.error, [], u.items ++ u.inner⟩

/-- The failure of what stands behind an item that was made. -/
def Unfinished.after (u : Unfinished) (r : Ref) : Unfinished :=
  ⟨u.error, r :: u.items, u.inner⟩

/-- What an evaluation makes of arguments. -/
abbrev Evaluation (α : Type) := ArgCursor → ContextM (ArgCursor × Except Unfinished α)

/-- Takes the arguments of a scalar and makes what it asks for. -/
def evalScalar (code : Char) (x : Scalar) (cursor : ArgCursor) :
    ContextM (ArgCursor × Except BuildError Ref) := do
  match x.read code cursor with
  | .error e cursor =>
    (decRefs e.rejected : HeapM Unit)
    return (cursor, .error e.error)
  | .ok product cursor => return (cursor, ← (Machine.make code cursor.position product).run)

mutual

/-- Evaluates one item. -/
def Tree.eval : Tree → Evaluation Ref
  | .scalar code x, cursor => do
    let (cursor, outcome) ← evalScalar code x cursor
    return (cursor, outcome.mapError .bare)
  | .group kind items, cursor => do
    match ← evalItems items cursor with
    | (cursor, .error u) => return (cursor, .error u.enclosed)
    | (cursor, .ok refs) =>
      let outcome ← Context.attempt (container kind refs)
      return (cursor, outcome.mapError (fun e => .bare (.raised e)))

/-- Evaluates items from left to right. -/
def evalItems : List Tree → Evaluation (List Ref)
  | [], cursor => return (cursor, .ok [])
  | t :: ts, cursor => do
    match ← t.eval cursor with
    | (cursor, .error u) => return (cursor, .error u)
    | (cursor, .ok r) =>
      match ← evalItems ts cursor with
      | (cursor, .error u) => return (cursor, .error (u.after r))
      | (cursor, .ok refs) => return (cursor, .ok (r :: refs))

end

/-- Evaluates the items of a format over arguments, which they must use up. -/
def evalFormat (ts : List Tree) (args : List BuildArg) : ExceptT BuildError ContextM Ref :=
  ExceptT.mk do
    match ← evalItems ts ⟨args, 0⟩ with
    | (cursor, .error u) =>
      (decRefs (cursor.args.flatMap BuildArg.owned ++ u.inner ++ u.items) : HeapM Unit)
      return .error u.error
    | (⟨[], _⟩, .ok items) => return (← Context.attempt (bundle items)).mapError .raised
    | (⟨extra, _⟩, .ok items) =>
      (decRefs (extra.flatMap BuildArg.owned ++ items) : HeapM Unit)
      return .error (.call (.extraArgs extra.length))

/-- The value that a format string with the given items describes. -/
def evaluate (source : String) (ts : List Tree) (args : List BuildArg) :
    ExceptT BuildError ContextM Ref :=
  ExceptT.mk do
    let outcome ← (evalFormat ts args).run
    Context.trace (.build source outcome.isOk)
    return outcome

end NativeCall.Format
