import NativeCall.Proofs.Bind.Placement
import NativeCall.Proofs.Bind.Repeating

/-!
# Binding stays within its bounds

Matching, as `Call.bind` does it, takes lists apart and never asks for an item by its index, and a
difference of numbers is never less than zero. A machine has neither comfort: it keeps names, values
and slots in arrays, and it subtracts words. That nothing goes wrong on the machine therefore cannot
even be said about `Call.bind`. `Indexed.bind` binds a call the way a machine does, with a guard at
every access to a list and at every difference and sum of words, and a guard that fails stops it
with a `Trap`.

The main result, `Call.bind_within_bounds`, is that no guard fails. Binding with indices has the
answer that matching has and leaves the same runtime, whatever the arguments and keywords are, with
names that are declared twice and with an arity that contradicts the declaration. The one premise is
that the sum in the arity is a word.

## Why the guards hold

None of what the guards need is checked where it is needed, and each has its reason somewhere else:

* that the index of a parameter is not less than that of the first named one, and that there is a
  name and a slot for it, follows from the range of the loop (`keyword_eq`, `store_next`);
* that there is a value to the position at which a name was found was checked when the keywords were
  read (`Keywords.resolve_cases`, `Keywords.lookup_eq`);
* that an argument by position has a slot follows from the count of all arguments
  (`Call.length_le_maxArgs`, `given_eq`);
* that a keyword can be taken off those that remain follows from the fact that one was looked up,
  which happens only while some remain.

## How the two are compared

The loop over indices writes into slots that were all there from the beginning, while the recursion
of matching builds the slots from behind. `fill_eq` states what relates them: with `i` slots filled
and `n` still empty, the loop over the next `n` indices leaves the filled ones in front of what the
recursion makes of the parameters from `i` on. The loops have no other invariant.

Of what is in the slots then, a slot behind the arguments by position has the value of a keyword
with the name of its parameter (`Call.supplied_of_slots`). This needs no names that differ: it says
nothing of which of several parameters of one name gets the value.
-/

namespace NativeCall

/-- What stops a machine. -/
inductive Trap where
  /-- There is no item at an index. -/
  | index
  /-- A difference is less than zero. -/
  | underflow
  /-- A sum is more than a word. -/
  | overflow
  deriving DecidableEq, Repr

/-- Why binding with indices has no result. -/
inductive Stop where
  | raised (e : BindError)
  | trapped (t : Trap)
  deriving DecidableEq, Repr

namespace Indexed

/-! ## Guarded operations -/

section Guarded

variable {α : Type}

/-- The item at an index. -/
def item (l : List α) (i : Nat) : Except Stop α :=
  match l[i]? with
  | some a => .ok a
  | none => .error (.trapped .index)

/-- Another item at an index. -/
def store (l : List α) (i : Nat) (a : α) : Except Stop (List α) :=
  if i < l.length then .ok (l.set i a) else .error (.trapped .index)

def sub (m n : Nat) : Except Stop Nat :=
  if n ≤ m then .ok (m - n) else .error (.trapped .underflow)

/-- A sum of two words of 64 bits. Where the numbers are lengths of lists no guard is needed: lists
that are in memory at once have fewer items. -/
def add (m n : Nat) : Except Stop Nat :=
  if m + n < 2 ^ 64 then .ok (m + n) else .error (.trapped .overflow)

end Guarded

/-! ## Keywords -/

/-- Keywords as they were found on the heap: names and values stand in lists of their own. -/
inductive Keywords where
  | none
  | dict (d : Dict)
  | named (names values : List Ref)
  deriving Repr

namespace Keywords

/-- Reads the keywords of a call. -/
def resolve (h : Heap) (source : KeywordSource) : Except BindError Keywords :=
  match source with
  | .none => .ok .none
  | .dict r =>
    match h.dict? r with
    | some d => .ok (.dict d)
    | Option.none => .error .badInternalCall
  | .names r values =>
    match h.tupleItems? r with
    | some names =>
      if names.length = values.length then .ok (.named names values) else .error .badInternalCall
    | Option.none => .error .badInternalCall

def count : Keywords → Nat
  | none => 0
  | dict d => d.size
  | named names _ => names.length

/-- The names that were given. -/
def supplied : Keywords → List Ref
  | none => []
  | dict d => d.keyRefs
  | named names _ => names

/-- The value given for a declared name, at the position where the name was found. -/
def lookup (h : Heap) (k : Keywords) (interned : Ref) (name : String) :
    Except Stop (Option Ref) :=
  match k with
  | none => .ok Option.none
  | dict d => .ok (d.get? (.str name))
  | named names values =>
    match (names.findIdx? (· = interned)).or (names.findIdx? (h.sameText · interned)) with
    | some position => some <$> item values position
    | Option.none => .ok Option.none

end Keywords

/-! ## Binding -/

/-- No parameter from here on is required. -/
def requiredEnd (a : Arity) : Except Stop Nat :=
  if 0 < a.minKeyword then add a.maxPositional a.minKeyword else .ok a.minPositional

/-- The value of the keyword for the parameter with the `j`-th name. -/
def keyword (h : Heap) (l : Layout) (k : Keywords) (names : List Ref) (j : Nat) :
    Except Stop (Option Ref) := do
  k.lookup h (← item names j) (← item l.keywordNames j)

/-- What goes into the slot of the parameter with the `j`-th name: nothing once no keyword
remains. -/
def content (h : Heap) (l : Layout) (k : Keywords) (names : List Ref) (j remaining : Nat) :
    Except Stop (Option Ref) :=
  if 0 < remaining then keyword h l k names j else .ok none

/-- Fills the slots at some indices while `remaining` keywords have not been used. Returns how many
are still not used then. -/
def fill (c : Call) (h : Heap) (l : Layout) (k : Keywords) (names : List Ref) (requiredEnd : Nat) :
    List Nat → Nat → List (Option Ref) → Except Stop (List (Option Ref) × Nat)
  | [], remaining, slots => .ok (slots, remaining)
  | i :: rest, remaining, slots => do
    -- In every step, whether a name is looked at in it or not.
    let j ← sub i l.positionalOnly
    if remaining = 0 ∧ requiredEnd ≤ i then return (slots, remaining)
    let current ← content h l k names j remaining
    let slots ← store slots i current
    match current with
    | some _ => fill c h l k names requiredEnd rest (← sub remaining 1) slots
    | none =>
      if i < c.arity.minPositional || (c.arity.maxPositional ≤ i && i < requiredEnd) then
        throw (.raised (.missingRequired c.spec.fname (← item l.keywordNames j) (i + 1)))
      else fill c h l k names requiredEnd rest remaining slots

/-- Raises for the first of some parameters, given by position, that is given by keyword too. -/
def refuseDuplicate (c : Call) (h : Heap) (l : Layout) (k : Keywords) (names : List Ref) :
    List Nat → Except Stop Unit
  | [] => .ok ()
  | i :: rest => do
    let j ← sub i l.positionalOnly
    if (← keyword h l k names j).isSome then
      throw (.raised (.duplicateArgument c.spec.fname (← item l.keywordNames j) (i + 1)))
    else refuseDuplicate c h l k names rest

/-- Raises an error, if there is one. -/
def raise : Option BindError → Except Stop Unit
  | some e => .error (.raised e)
  | none => .ok ()

/-- Raises for a keyword that filled no slot. -/
def refuseLeftover (c : Call) (h : Heap) (l : Layout) (k : Keywords) (names : List Ref) :
    Except Stop Unit := do
  refuseDuplicate c h l k names
    (List.range' l.positionalOnly (c.args.length - l.positionalOnly))
  raise (k.supplied.findSome? (c.unexpected? h l.keywordNames))

/-- One slot for each parameter, for a call with `nkwargs` keywords. -/
def slots (c : Call) (h : Heap) (l : Layout) (k : Keywords) (names : List Ref)
    (requiredEnd nkwargs : Nat) : Except Stop (List (Option Ref)) := do
  let first := max c.args.length l.positionalOnly
  let given := (List.range l.maxArgs).map (fun i => c.args[i]?)
  let (slots, left) ←
    fill c h l k names requiredEnd (List.range' first (l.maxArgs - first)) nkwargs given
  if 0 < left then refuseLeftover c h l k names
  return slots

/-- Binds a call by matching every argument with its parameter. -/
def bindSlow (c : Call) (l : Layout) (k : Keywords) : ExceptT Stop ContextM BoundArgs := do
  let requiredEnd ← liftExcept (requiredEnd c.arity)
  if let some e := c.countError? l k.count then throw (.raised e)
  let names ← (Call.internNames c.spec).adapt (fun e => Stop.raised (.raised e))
  let h := (← getThe Context).heap
  let again ← liftExcept ((Keywords.resolve h c.keywords).mapError Stop.raised)
  .filled <$> liftExcept (slots c h l again names requiredEnd k.count)

/-- Binds a call, without a trace. -/
def bindUntraced (c : Call) : ExceptT Stop ContextM (BoundArgs × Nat) := do
  let k ← liftExcept ((Keywords.resolve (← getThe Context).heap c.keywords).mapError Stop.raised)
  let l ← liftExcept (c.spec.layout.mapError (fun e => Stop.raised (.invalidSpec e)))
  if c.isFast k.count then return (.borrowed c.args, 0)
  return (← bindSlow c l k, k.count)

/-- Binds a call. -/
def bind (c : Call) : ExceptT Stop ContextM BoundArgs :=
  ExceptT.mk do
    match ← (bindUntraced c).run with
    | .ok (bound, nkwargs) =>
      Context.trace (.bind c.spec.fname c.args.length nkwargs bound.isBorrowed)
      return .ok bound
    | .error (.raised e) =>
      Context.trace (.bindError c.spec.fname e.message)
      return .error (.raised e)
    | .error (.trapped t) => return .error (.trapped t)

/-! ## Keywords are found where they are -/

/-- What is found is at the position where it is found. -/
lemma find?_position {α : Type} (items : List α) (p : α → Bool) :
    (items.findIdx? p = none ∧ items.find? p = none) ∨
      ∃ j a, items.findIdx? p = some j ∧ items[j]? = some a ∧ items.find? p = some a := by
  rw [List.find?_eq_bind_findIdx?_getElem?]
  cases hj : items.findIdx? p with
  | none => exact .inl ⟨rfl, rfl⟩
  | some j =>
    obtain ⟨hlt, -⟩ := List.findIdx?_eq_some_iff_getElem.mp hj
    exact .inr ⟨j, items[j], rfl, List.getElem?_eq_getElem hlt, by simp [hlt]⟩

namespace Keywords

variable {h : Heap} {k : Keywords} {source : KeywordSource}

/-- The same keywords, with each name beside its value. -/
def paired : Keywords → NativeCall.Keywords
  | none => .none
  | dict d => .dict d
  | named names values => .pairs (names.zip values)

/-- There is one value to each name. -/
def Matched : Keywords → Prop
  | named names values => names.length = values.length
  | _ => True

lemma count_paired (hk : k.Matched) : k.paired.count = k.count := by
  cases k with
  | named names values =>
    have hlength : names.length = values.length := hk
    simp [paired, NativeCall.Keywords.count, count, hlength]
  | _ => rfl

lemma supplied_paired (hk : k.Matched) : k.paired.supplied = k.supplied := by
  cases k with
  | named names values => exact List.map_fst_zip (Nat.le_of_eq hk)
  | _ => rfl

/-- Reading keywords checks that there is one value to each name. -/
lemma resolve_cases (h : Heap) (source : KeywordSource) :
    (∃ e, resolve h source = .error e ∧ NativeCall.Keywords.resolve h source = .error e) ∨
      ∃ k, resolve h source = .ok k ∧ NativeCall.Keywords.resolve h source = .ok k.paired ∧
        k.Matched := by
  unfold resolve NativeCall.Keywords.resolve
  cases source with
  | none => exact .inr ⟨.none, rfl, rfl, trivial⟩
  | dict r =>
    cases hd : h.dict? r with
    | none => exact .inl ⟨.badInternalCall, by simp [hd], by simp [hd]⟩
    | some d => exact .inr ⟨.dict d, by simp [hd], by simp [hd, paired], trivial⟩
  | names r values =>
    cases hn : h.tupleItems? r with
    | none => exact .inl ⟨.badInternalCall, by simp [hn], by simp [hn]⟩
    | some names =>
      by_cases hlength : names.length = values.length
      · refine .inr ⟨.named names values, ?_, ?_, hlength⟩ <;> simp [hn, hlength, paired]
      · refine .inl ⟨.badInternalCall, ?_, ?_⟩ <;> simp [hn, hlength]

/-- A name that is found at a position has a value there. -/
lemma lookup_eq (hk : k.Matched) (interned : Ref) (name : String) :
    k.lookup h interned name = .ok (k.paired.lookup h interned name) := by
  cases k with
  | named names values =>
    have hlength : names.length = values.length := hk
    obtain ⟨ps, rfl, rfl⟩ : ∃ ps : List (Ref × Ref), names = ps.map (·.1) ∧ values = ps.map (·.2) :=
      ⟨names.zip values, (List.map_fst_zip (Nat.le_of_eq hlength)).symm,
        (List.map_snd_zip (Nat.le_of_eq hlength.symm)).symm⟩
    have hzip : (ps.map (·.1)).zip (ps.map (·.2)) = ps := by
      simp [List.zip_map']
    simp only [paired, lookup, NativeCall.Keywords.lookup, List.findIdx?_map, hzip,
      Function.comp_def]
    rcases find?_position ps (fun p => p.1 = interned) with ⟨hj, hp⟩ | ⟨j, p, hj, hitem, hp⟩
    · rcases find?_position ps (fun p => h.sameText p.1 interned) with
        ⟨hj', hp'⟩ | ⟨j, p, hj', hitem, hp'⟩
      · simp [hj, hp, hj', hp']
      · simp [hj, hp, hj', hp', item, hitem]
    · simp [hj, hp, item, hitem]
  | _ => rfl

end Keywords

/-! ## Loops over indices -/

section Loops

variable {c : Call} {h : Heap} {l : Layout} {k : Keywords} {names : List Ref} {i n : Nat}

lemma ok_bind {ε α β : Type} (a : α) (f : α → Except ε β) : (Except.ok a >>= f) = f a := rfl

lemma sub_of_le {m n : Nat} (hle : n ≤ m) : sub m n = .ok (m - n) :=
  if_pos hle

lemma item_of_lt {α : Type} {items : List α} (hi : i < items.length) :
    item items i = .ok items[i] := by
  simp [item, hi]

/-- The first of the slots that are still empty gets another content. -/
lemma store_next {front : List (Option Ref)} (hfront : front.length = i) (current : Option Ref) :
    store (front ++ List.replicate (n + 1) none) i current =
      .ok ((front ++ [current]) ++ List.replicate n none) := by
  subst hfront
  simp [store, List.replicate_succ]

/-- A parameter with a name: there is an interned name for it too, and the others come behind. -/
lemma keyword_eq (hk : k.Matched) (hn : names.length = l.keywordNames.length)
    (hpos : l.positionalOnly ≤ i) (hmax : i < l.maxArgs) :
    ∃ interned name,
      keyword h l k names (i - l.positionalOnly) = .ok (k.paired.lookup h interned name) ∧
      item l.keywordNames (i - l.positionalOnly) = .ok name ∧
      (names.zip l.keywordNames).drop (i - l.positionalOnly) =
        (interned, name) :: (names.zip l.keywordNames).drop (i + 1 - l.positionalOnly) := by
  unfold Layout.maxArgs at hmax
  have hname : i - l.positionalOnly < l.keywordNames.length := by omega
  have hinterned : i - l.positionalOnly < names.length := by omega
  refine ⟨names[i - l.positionalOnly], l.keywordNames[i - l.positionalOnly], ?_,
    item_of_lt hname, ?_⟩
  · simp only [keyword, item_of_lt hinterned, item_of_lt hname, ok_bind, Keywords.lookup_eq hk]
  · have hboth : i - l.positionalOnly < (names.zip l.keywordNames).length := by
      rw [List.length_zip]
      omega
    rw [List.drop_eq_getElem_cons hboth, List.getElem_zip]
    congr 2
    omega

/-- A slot that is filled stands behind the others. -/
lemma map_front (front : List (Option Ref)) (current : Option Ref)
    (filled : Except BindError (List (Option Ref) × Nat)) :
    (((do let (slots, left) ← filled; .ok (current :: slots, left) :
      Except BindError (List (Option Ref) × Nat)).map (fun p => (front ++ p.1, p.2))).mapError
        Stop.raised) =
      (filled.map (fun p => ((front ++ [current]) ++ p.1, p.2))).mapError Stop.raised := by
  cases filled with
  | ok p => simp [Except.map, Except.mapError, ok_bind]
  | error e => rfl

/-- Filling slots by index comes to what matching comes to, behind the slots that were filled. -/
lemma fill_eq (hk : k.Matched) (hn : names.length = l.keywordNames.length)
    (hpos : l.positionalOnly ≤ i) (hmax : i + n = l.maxArgs) {front : List (Option Ref)}
    (hfront : front.length = i) (remaining : Nat) :
    fill c h l k names c.arity.requiredEnd (List.range' i n) remaining
        (front ++ List.replicate n none) =
      ((c.fill h k.paired i remaining ((names.zip l.keywordNames).drop (i - l.positionalOnly))).map
        (fun p => (front ++ p.1, p.2))).mapError .raised := by
  induction n generalizing i front remaining with
  | zero =>
    have hnone : (names.zip l.keywordNames).drop (i - l.positionalOnly) = [] := by
      unfold Layout.maxArgs at hmax
      rw [List.drop_eq_nil_iff, List.length_zip]
      omega
    simp [hnone, fill, Call.fill, Except.map, Except.mapError]
  -- Both sides treat the parameter at `i` alike. The loop goes on with one slot more in front, so
  -- the hypothesis is needed for every front of the right length.
  | succ n ih =>
    obtain ⟨interned, name, hkeyword, hname, hdrop⟩ :=
      keyword_eq (h := h) hk hn hpos (show i < l.maxArgs by omega)
    have hnext : ∀ (current : Option Ref) (remaining : Nat), fill c h l k names
        c.arity.requiredEnd (List.range' (i + 1) n) remaining
          ((front ++ [current]) ++ List.replicate n none) = _ :=
      fun current remaining => ih (by omega) (by omega) (by simp [hfront]) remaining
    rw [List.range'_succ, fill, hdrop, Call.fill]
    by_cases hstop : remaining = 0 ∧ c.arity.requiredEnd ≤ i
    -- The loop leaves off early, with the empty slots that were there before; the recursion makes
    -- as many.
    · have hempty : ((names.zip l.keywordNames).drop (i + 1 - l.positionalOnly)).map
          (fun _ => (none : Option Ref)) = List.replicate n none := by
        unfold Layout.maxArgs at hmax
        rw [List.map_const', List.length_drop, List.length_zip]
        congr 1
        omega
      simp only [sub_of_le hpos, ok_bind, if_pos hstop, List.map_cons, hempty,
        ← List.replicate_succ]
      rfl
    · have hcontent : content h l k names (i - l.positionalOnly) remaining =
          .ok (if 0 < remaining then k.paired.lookup h interned name else none) := by
        unfold content
        split
        · exact hkeyword
        · rfl
      simp only [sub_of_le hpos, if_neg hstop, hcontent, ok_bind, store_next hfront]
      cases hcurrent : if 0 < remaining then k.paired.lookup h interned name else none with
      | some r =>
        have hremaining : 1 ≤ remaining := by
          by_contra hzero
          simp [show remaining = 0 by omega] at hcurrent
        simp only [sub_of_le hremaining, ok_bind, hnext]
        exact (map_front front (some r) _).symm
      | none =>
        by_cases hrequired : c.arity.requires i = true
        · have hcheck : (i < c.arity.minPositional ||
              (c.arity.maxPositional ≤ i && i < c.arity.requiredEnd)) = true := hrequired
          simp only [if_pos hcheck, if_pos hrequired, hname, ok_bind]
          rfl
        · have hcheck : ¬ (i < c.arity.minPositional ||
              (c.arity.maxPositional ≤ i && i < c.arity.requiredEnd)) = true := hrequired
          simp only [if_neg hcheck, if_neg hrequired, hnext]
          exact (map_front front none _).symm

lemma refuseDuplicate_eq (hk : k.Matched) (hn : names.length = l.keywordNames.length)
    (hpos : l.positionalOnly ≤ i) (hmax : i + n ≤ l.maxArgs) :
    refuseDuplicate c h l k names (List.range' i n) =
      raise (c.duplicate? h k.paired i
        (((names.zip l.keywordNames).drop (i - l.positionalOnly)).take n)) := by
  induction n generalizing i with
  | zero => simp [refuseDuplicate, Call.duplicate?, raise]
  | succ n ih =>
    obtain ⟨interned, name, hkeyword, hname, hdrop⟩ :=
      keyword_eq (h := h) hk hn hpos (show i < l.maxArgs by omega)
    rw [List.range'_succ, refuseDuplicate, hdrop, List.take_succ_cons, Call.duplicate?]
    simp only [sub_of_le hpos, hkeyword, hname, ok_bind]
    split
    · rfl
    · exact ih (by omega) (by omega)

/-- The slots at first: the arguments by position, and nothing behind them. -/
lemma given_eq (hmax : c.args.length ≤ l.maxArgs) :
    (List.range l.maxArgs).map (fun i => c.args[i]?) =
      (c.args.map some ++ List.replicate (l.positionalOnly - c.args.length) none) ++
        List.replicate (l.maxArgs - max c.args.length l.positionalOnly) none := by
  have hle : l.positionalOnly ≤ l.maxArgs := Nat.le_add_right _ _
  apply List.ext_getElem
  · simp
    omega
  · intro i hi hi'
    by_cases hlt : i < c.args.length
    · simp [hlt]
    · simp [List.getElem_append, hlt]

lemma refuseLeftover_eq (hk : k.Matched) (hn : names.length = l.keywordNames.length)
    (hmax : c.args.length ≤ l.maxArgs) : refuseLeftover c h l k names =
      raise (c.leftoverError? h l k.paired (names.zip l.keywordNames)) := by
  have hle : l.positionalOnly ≤ l.maxArgs := Nat.le_add_right _ _
  have hdup := refuseDuplicate_eq (c := c) (h := h) (i := l.positionalOnly)
    (n := c.args.length - l.positionalOnly) hk hn (Nat.le_refl _) (by omega)
  rw [Nat.sub_self, List.drop_zero] at hdup
  unfold refuseLeftover Call.leftoverError?
  rw [hdup, k.supplied_paired hk]
  cases c.duplicate? h k.paired l.positionalOnly
      ((names.zip l.keywordNames).take (c.args.length - l.positionalOnly)) with
  | none => simp [raise, ok_bind]
  | some e => rfl

/-- Binding by index comes to what matching comes to, if every argument has a slot. -/
lemma slots_eq (hk : k.Matched) (hn : names.length = l.keywordNames.length)
    (hmax : c.args.length ≤ l.maxArgs) :
    slots c h l k names c.arity.requiredEnd k.paired.count =
      (c.slots h l k.paired names).mapError .raised := by
  have hle : l.positionalOnly ≤ l.maxArgs := Nat.le_add_right _ _
  have hfront : (c.args.map some ++
      List.replicate (l.positionalOnly - c.args.length) none).length =
      max c.args.length l.positionalOnly := by
    simp only [List.length_append, List.length_map, List.length_replicate]
    omega
  have hfill := fill_eq (c := c) (h := h) hk hn
    (Nat.le_max_right c.args.length l.positionalOnly)
    (show max c.args.length l.positionalOnly + (l.maxArgs - max c.args.length l.positionalOnly) =
      l.maxArgs by omega) hfront k.paired.count
  have hdrop : max c.args.length l.positionalOnly - l.positionalOnly =
    c.args.length - l.positionalOnly := by omega
  rw [hdrop] at hfill
  unfold slots Call.slots
  simp only [given_eq hmax, hfill, refuseLeftover_eq hk hn hmax]
  cases c.fill h k.paired (max c.args.length l.positionalOnly) k.paired.count
      ((names.zip l.keywordNames).drop (c.args.length - l.positionalOnly)) with
  | error e => rfl
  | ok p =>
    obtain ⟨filled, left⟩ := p
    simp only [Except.map, Except.mapError, ok_bind]
    by_cases hleft : left = 0
    · simp [hleft]
      rfl
    · have hpos : 0 < left := Nat.pos_of_ne_zero hleft
      simp only [if_pos hpos, if_neg hleft]
      cases c.leftoverError? h l k.paired (names.zip l.keywordNames) <;> rfl

end Loops

lemma requiredEnd_eq {a : Arity} (ha : a.maxPositional + a.minKeyword < 2 ^ 64) :
    requiredEnd a = .ok a.requiredEnd := by
  unfold requiredEnd Arity.requiredEnd
  split
  · exact if_pos ha
  · rfl

end Indexed

/-! ## Where keywords go -/

/-- What a name is looked up to is a keyword of that name. -/
lemma Keywords.mem_given_of_lookup {h : Heap} {k : Keywords} {interned r : Ref} {name : String}
    (hfiled : ∀ d, k = .dict d → d.Filed h) (ht : h.text? interned = some name)
    (hr : k.lookup h interned name = some r) : (some name, r) ∈ k.given h := by
  cases k with
  | none => simp [lookup] at hr
  | dict d =>
    rw [lookup, get?_eq_valueOf (hfiled d rfl), valueOf, List.lookup_eq_some_iff] at hr
    obtain ⟨before, after, hgiven, -⟩ := hr
    simp [hgiven]
  | pairs ps =>
    rw [lookup, Option.map_eq_some_iff] at hr
    obtain ⟨p, hp, rfl⟩ := hr
    have htext : p ∈ ps ∧ h.text? p.1 = some name := by
      -- A pair found by identity has the text of the interned name since its name is the same
      -- object.
      rcases Option.or_eq_some_iff.mp hp with hid | ⟨-, hsame⟩
      · refine ⟨List.mem_of_find?_eq_some hid, ?_⟩
        have hsame : p.1 = interned := by simpa using List.find?_some hid
        rw [hsame, ht]
      · have htext : h.sameText p.1 interned = true := by simpa using List.find?_some hsame
        exact ⟨List.mem_of_find?_eq_some hsame, (sameText_iff ht).mp htext⟩
    exact List.mem_map.mpr ⟨p, htext.1, by rw [htext.2]⟩

namespace Call

variable {declared : Set ParamSpec} {ctx ctx' : Context} {s : Holdings} {call : Call} {h : Heap}
  {l : Layout} {k : Keywords} {names : List Ref} {slots : List (Option Ref)}

/-- What is in the slots: the arguments by position first, and behind them values of keywords with
the names of the parameters. -/
structure Supplied (call : Call) (l : Layout) (kw : List Given) (bound : BoundArgs) : Prop where
  positional : ∀ i < call.args.length, bound.get? i = call.args[i]?
  keyword : ∀ i r, call.args.length ≤ i → bound.get? i = some r →
    l.positionalOnly ≤ i ∧
      ∃ name, l.keywordNames[i - l.positionalOnly]? = some name ∧ (some name, r) ∈ kw

/-- A slot is filled with what its name is looked up to. -/
lemma fill_inv {i remaining left : Nat} {params : List (Ref × String)} {filled : List (Option Ref)}
    (hfill : call.fill h k i remaining params = .ok (filled, left)) {j : Nat} {r : Ref}
    (hj : filled[j]?.join = some r) :
    ∃ p, params[j]? = some p ∧ k.lookup h p.1 p.2 = some r := by
  induction params generalizing i remaining filled left j with
  | nil =>
    cases hfill
    simp at hj
  -- The counter and the index change from call to call, so they vary in the induction. The slot `j`
  -- that is looked at moves to the front with each parameter.
  | cons p params ih =>
    obtain ⟨interned, name⟩ := p
    have hcons : ∀ {i remaining : Nat} {current : Option Ref},
        (do let (rest, left) ← call.fill h k i remaining params; .ok (current :: rest, left)) =
          .ok (filled, left) → (∀ r, current = some r → k.lookup h interned name = some r) →
        ∃ p, ((interned, name) :: params)[j]? = some p ∧ k.lookup h p.1 p.2 = some r := by
      intro i remaining current hrun hcurrent
      cases hrest : call.fill h k i remaining params with
      | error e => simp [hrest, Bind.bind, Except.bind] at hrun
      | ok found =>
        rw [hrest] at hrun
        cases hrun
        cases j with
        | zero => exact ⟨_, rfl, hcurrent r (by simpa using hj)⟩
        | succ j =>
          obtain ⟨p, hp, hlookup⟩ := ih hrest (by simpa using hj)
          exact ⟨p, by simpa using hp, hlookup⟩
    rw [Call.fill] at hfill
    split at hfill
    case isTrue =>
      cases hfill
      have hnone : ((((interned, name) :: params).map (fun _ => (none : Option Ref)))[j]?).join =
          none := by
        rw [List.getElem?_map]
        cases ((interned, name) :: params)[j]? <;> rfl
      rw [hnone] at hj
      simp at hj
    case isFalse =>
      split at hfill
      case h_1 r' hlookup =>
        refine hcons hfill ?_
        rintro r' ⟨rfl⟩
        split at hlookup
        · exact hlookup
        · simp at hlookup
      case h_2 =>
        split at hfill
        · cases hfill
        · exact hcons hfill (by simp)

/-- The slots are the arguments by position, and behind them those that were filled. -/
lemma exists_fill_of_slots (hslots : call.slots h l k names = .ok slots) :
    ∃ filled left, call.fill h k (max call.args.length l.positionalOnly) k.count
        ((names.zip l.keywordNames).drop (call.args.length - l.positionalOnly)) =
          .ok (filled, left) ∧
      slots = call.args.map some ++ List.replicate (l.positionalOnly - call.args.length) none ++
        filled := by
  unfold Call.slots at hslots
  cases hfill : call.fill h k (max call.args.length l.positionalOnly) k.count
      ((names.zip l.keywordNames).drop (call.args.length - l.positionalOnly)) with
  | error e =>
    simp only [hfill] at hslots
    cases hslots
  | ok p =>
    obtain ⟨filled, left⟩ := p
    simp only [hfill, Indexed.ok_bind] at hslots
    refine ⟨filled, left, rfl, ?_⟩
    split at hslots
    · exact (Except.ok.inj hslots).symm
    · split at hslots
      · cases hslots
      · exact (Except.ok.inj hslots).symm

/-- Matching leaves the arguments by position where they are, and puts behind them what the names
of the parameters are looked up to. -/
lemma slots_inv (hslots : call.slots h l k names = .ok slots) :
    (∀ i < call.args.length, slots[i]?.join = call.args[i]?) ∧
      ∀ i r, call.args.length ≤ i → slots[i]?.join = some r → l.positionalOnly ≤ i ∧
        ∃ p, (names.zip l.keywordNames)[i - l.positionalOnly]? = some p ∧
          k.lookup h p.1 p.2 = some r := by
  obtain ⟨filled, left, hfill, rfl⟩ := exists_fill_of_slots hslots
  refine ⟨?_, ?_⟩
  · intro i hi
    simp [List.append_assoc, List.getElem?_append_left, hi]
  · intro i r hi hr
    rw [List.append_assoc, List.getElem?_append_right (by simpa using hi), List.length_map] at hr
    by_cases hbehind : l.positionalOnly ≤ i
    · rw [List.getElem?_append_right (by rw [List.length_replicate]; omega),
        List.length_replicate] at hr
      obtain ⟨p, hp, hlookup⟩ := fill_inv hfill hr
      rw [List.getElem?_drop] at hp
      refine ⟨hbehind, p, ?_, hlookup⟩
      rw [← hp]
      congr 1
      omega
    · rw [List.getElem?_append_left (by rw [List.length_replicate]; omega),
        List.getElem?_replicate, if_pos (by omega)] at hr
      simp at hr

/-! ## Binding -/

lemma length_le_maxArgs {n : Nat} (hc : call.countError? l n = none) :
    call.args.length ≤ l.maxArgs := by
  unfold countError? at hc
  by_contra hgt
  have hmany : l.maxArgs < call.args.length + n := by omega
  simp [hmany] at hc

/-- Where the names are interned, what matching puts into the slots are the caller's keywords. -/
lemma supplied_of_slots (hs : h.Sound s) (hn : h.InternedAs names l.keywordNames)
    (hfiled : ∀ d, k = .dict d → d.Filed h) (hslots : call.slots h l k names = .ok slots) :
    call.Supplied l (k.given h) (.filled slots) := by
  obtain ⟨hargs, hothers⟩ := slots_inv hslots
  refine ⟨hargs, ?_⟩
  intro i r hi hr
  obtain ⟨hpos, p, hp, hlookup⟩ := hothers i r hi hr
  have hinterned := List.forall₂_zip hn (a := p.1) (b := p.2) (List.mem_of_getElem? hp)
  have htext : h.text? p.1 = some p.2 := by
    rw [Heap.text?_of_slot? (hs.interned p.2 p.1 hinterned)]
    rfl
  refine ⟨hpos, p.2, ?_, Keywords.mem_given_of_lookup hfiled htext hlookup⟩
  rw [List.getElem?_zip_eq_some] at hp
  exact hp.2

end Call

namespace Indexed

variable {declared : Set ParamSpec} {ctx ctx' : Context} {s : Holdings} {call : Call} {l : Layout}
  {k : Keywords}

section Slow

variable (ha : call.arity.maxPositional + call.arity.minKeyword < 2 ^ 64)
include ha

lemma bindSlow_run_of_countError? {e : BindError} (hc : call.countError? l k.count = some e) :
    (bindSlow call l k).run ctx = .ok (.error (.raised e)) ctx := by
  rw [bindSlow, requiredEnd_eq ha]
  refine (run_bind_ok (a := call.arity.requiredEnd) rfl).trans ?_
  simp only [hc]
  rfl

lemma bindSlow_run_refused {e : RunError} (hc : call.countError? l k.count = none)
    (hnames : (Call.internNames call.spec).run ctx = .ok (.error e) ctx') :
    (bindSlow call l k).run ctx = .ok (.error (.raised (.raised e))) ctx' := by
  rw [bindSlow, requiredEnd_eq ha]
  refine (run_bind_ok (a := call.arity.requiredEnd) rfl).trans ?_
  simp only [hc]
  exact run_bind_raised (run_adapt (fun e => Stop.raised (.raised e)) hnames)

lemma bindSlow_run {names : List Ref} {again : Keywords} (hc : call.countError? l k.count = none)
    (hnames : (Call.internNames call.spec).run ctx = .ok (.ok names) ctx')
    (hk : Keywords.resolve ctx'.heap call.keywords = .ok again) :
    (bindSlow call l k).run ctx =
      .ok ((slots call ctx'.heap l again names call.arity.requiredEnd k.count).map .filled)
        ctx' := by
  rw [bindSlow, requiredEnd_eq ha]
  refine (run_bind_ok (a := call.arity.requiredEnd) rfl).trans ?_
  simp only [hc]
  refine (run_bind_ok (run_adapt (fun e => Stop.raised (.raised e)) hnames)).trans ?_
  refine (run_bind_ok (run_getThe ctx')).trans ?_
  rw [hk]
  refine (run_bind_ok (a := again) rfl).trans ?_
  cases slots call ctx'.heap l again names call.arity.requiredEnd k.count <;> rfl

/-- The long way comes to the same by index, and fills slots with what the caller supplied. -/
lemma bindSlow_agrees (hr : Reachable declared ctx s) (hspec : call.spec ∈ declared)
    (hl : call.spec.layout = .ok l) (hm : k.Matched)
    (hk : NativeCall.Keywords.resolve ctx.heap call.keywords = .ok k.paired) :
    ∃ outcome ctx', (call.bindSlow l k.paired).run ctx = .ok outcome ctx' ∧
      (bindSlow call l k).run ctx = .ok (outcome.mapError .raised) ctx' ∧
      ∀ bound, outcome = .ok bound → call.Supplied l (k.paired.given ctx.heap) bound := by
  have hcount := k.count_paired hm
  -- The two long ways part only at the slots: the count of the arguments and the interned names are
  -- the same computation.
  cases hc : call.countError? l k.count with
  | some e =>
    refine ⟨.error e, ctx, Call.bindSlow_run_of_countError? (by rwa [hcount]),
      bindSlow_run_of_countError? ha hc, ?_⟩
    simp
  | none =>
    obtain ⟨outcome, ctx', hnames, hs', hext, hrefs⟩ := Call.internNames_run hr.sound hspec
    cases outcome with
    | error e =>
      refine ⟨.error (.raised e), ctx', Call.bindSlow_run_refused (by rwa [hcount]) hnames,
        bindSlow_run_refused ha hc hnames, ?_⟩
      simp
    | ok names =>
      obtain ⟨l', hl', hinterned⟩ := hrefs names rfl
      cases hl.symm.trans hl'
      have hk' := NativeCall.Keywords.resolve_of_extends hk hext
      obtain ⟨again, hagain, hpaired, hm'⟩ : ∃ again,
          Keywords.resolve ctx'.heap call.keywords = .ok again ∧ again.paired = k.paired ∧
            again.Matched := by
        rcases Keywords.resolve_cases ctx'.heap call.keywords with ⟨e, -, he⟩ | ⟨again, h₁, h₂, hm'⟩
        · cases hk'.symm.trans he
        · exact ⟨again, h₁, Except.ok.inj (h₂.symm.trans hk'), hm'⟩
      have hslots := slots_eq (c := call) (h := ctx'.heap) hm' hinterned.length_eq
        (Call.length_le_maxArgs hc)
      rw [hpaired, hcount] at hslots
      refine ⟨_, ctx', Call.bindSlow_run (by rwa [hcount]) hnames, ?_, ?_⟩
      · rw [bindSlow_run ha hc hnames hagain, hslots]
        cases call.slots ctx'.heap l k.paired names <;> rfl
      · intro bound hbound
        rw [← k.paired.given_of_extends hr.sound.heap hk hext]
        cases hslots' : call.slots ctx'.heap l k.paired names with
        | error e =>
          rw [hslots'] at hbound
          cases hbound
        | ok filled =>
          rw [hslots'] at hbound
          cases hbound
          exact Call.supplied_of_slots hs'.heap hinterned
            (k.paired.filed_of_extends hs'.heap hk hext) hslots'

end Slow

lemma bindUntraced_run_unread {e : BindError}
    (hk : Keywords.resolve ctx.heap call.keywords = .error e) :
    (bindUntraced call).run ctx = .ok (.error (.raised e)) ctx := by
  rw [bindUntraced]
  refine (run_bind_ok (run_getThe ctx)).trans ?_
  rw [hk]
  exact run_bind_raised (e := Stop.raised e) rfl

lemma bindUntraced_run_fast (hl : call.spec.layout = .ok l)
    (hk : Keywords.resolve ctx.heap call.keywords = .ok k) (hfast : call.isFast k.count = true) :
    (bindUntraced call).run ctx = .ok (.ok (.borrowed call.args, 0)) ctx := by
  rw [bindUntraced]
  refine (run_bind_ok (run_getThe ctx)).trans ?_
  rw [hk, hl]
  refine (run_bind_ok (a := k) rfl).trans ((run_bind_ok (a := l) rfl).trans ?_)
  rw [if_pos hfast]
  rfl

lemma bindUntraced_run_slow {outcome : Except Stop BoundArgs} (hl : call.spec.layout = .ok l)
    (hk : Keywords.resolve ctx.heap call.keywords = .ok k) (hfast : ¬ call.isFast k.count = true)
    (hslow : (bindSlow call l k).run ctx = .ok outcome ctx') :
    (bindUntraced call).run ctx = .ok (outcome.map (fun bound => (bound, k.count))) ctx' := by
  rw [bindUntraced]
  refine (run_bind_ok (run_getThe ctx)).trans ?_
  rw [hk, hl]
  refine (run_bind_ok (a := k) rfl).trans ((run_bind_ok (a := l) rfl).trans ?_)
  rw [if_neg hfast]
  cases outcome with
  | ok bound => exact run_bind_ok hslow
  | error e => exact run_bind_raised hslow

/-- Reporting the result makes no difference. -/
lemma bind_agrees {outcome : Except BindError (BoundArgs × Nat)}
    (hrun : call.bindUntraced.run ctx = .ok outcome ctx')
    (hrun' : (bindUntraced call).run ctx = .ok (outcome.mapError .raised) ctx') :
    ∃ ctx'', call.bind.run ctx = .ok (outcome.map (·.1)) ctx'' ∧
      (bind call).run ctx = .ok ((outcome.map (·.1)).mapError .raised) ctx'' := by
  cases outcome with
  | ok bound => exact ⟨_, bind_ok hrun, bind_ok hrun'⟩
  | error e => exact ⟨_, bind_ok hrun, bind_ok hrun'⟩

end Indexed

namespace Call

variable {declared : Set ParamSpec} {ctx : Context} {s : Holdings} {call : Call} {l : Layout}

/-- A call that needs no matching has its arguments where they were. -/
lemma supplied_borrowed (l : Layout) (kw : List Given) :
    call.Supplied l kw (.borrowed call.args) := by
  refine ⟨fun i _ => rfl, ?_⟩
  intro i r hi hr
  simp [BoundArgs.get?, List.getElem?_eq_none hi] at hr

/-- **Binding stays within its bounds.** In every reachable runtime and for every declared call with
an arity whose sum is a word, whatever the arguments and the keywords are, binding by index is never
stopped by a trap: it gives the answer that binding gives, and leaves the same runtime. If the call
is bound, the arguments by position are where they were, and every other slot that is filled has the
value of a keyword with the name of its parameter. -/
theorem bind_within_bounds (hr : Reachable declared ctx s) (hspec : call.spec ∈ declared)
    (hl : call.spec.layout = .ok l)
    (ha : call.arity.maxPositional + call.arity.minKeyword < 2 ^ 64) :
    ∃ outcome ctx', call.bind.run ctx = .ok outcome ctx' ∧
      (Indexed.bind call).run ctx = .ok (outcome.mapError .raised) ctx' ∧
      ∀ bound, outcome = .ok bound → ∃ k, Keywords.resolve ctx.heap call.keywords = .ok k ∧
        call.Supplied l (k.given ctx.heap) bound := by
  -- Keywords that cannot be read end both before anything is bound.
  rcases Indexed.Keywords.resolve_cases ctx.heap call.keywords with ⟨e, hk', hk⟩ | ⟨k, hk', hk, hm⟩
  · obtain ⟨ctx', hrun, hrun'⟩ := Indexed.bind_agrees (bindUntraced_run_unread hk)
      (Indexed.bindUntraced_run_unread hk')
    refine ⟨_, ctx', hrun, hrun', ?_⟩
    rintro bound ⟨⟩
  · have hcount := k.count_paired hm
    by_cases hfast : call.isFast k.count = true
    · obtain ⟨ctx', hrun, hrun'⟩ := Indexed.bind_agrees
        (bindUntraced_run_fast hl hk (by rwa [hcount])) (Indexed.bindUntraced_run_fast hl hk' hfast)
      refine ⟨_, ctx', hrun, hrun', ?_⟩
      rintro bound ⟨⟩
      exact ⟨k.paired, hk, supplied_borrowed l _⟩
    · obtain ⟨outcome, ctx₁, hslow, hslow', hsupplied⟩ :=
        Indexed.bindSlow_agrees ha hr hspec hl hm hk
      have huntraced := bindUntraced_run_slow hl hk (by rwa [hcount]) hslow
      have huntraced' := Indexed.bindUntraced_run_slow hl hk' hfast hslow'
      -- The number of keywords is reported with the result, and the two count it on different
      -- representations.
      have hswap : (outcome.mapError Stop.raised).map (fun bound => (bound, k.count)) =
          (outcome.map (fun bound => (bound, k.paired.count))).mapError .raised := by
        rw [hcount]
        cases outcome <;> rfl
      rw [hswap] at huntraced'
      obtain ⟨ctx', hrun, hrun'⟩ := Indexed.bind_agrees huntraced huntraced'
      refine ⟨_, ctx', hrun, hrun', ?_⟩
      intro bound hbound
      cases outcome with
      | error e => cases hbound
      | ok filled =>
        cases hbound
        exact ⟨k.paired, hk, hsupplied _ rfl⟩

/-- Two parameters of one name, and an arity that asks for more arguments by position than it
allows: one keyword fills both slots. -/
theorem bind_within_bounds_repeated : ∃ declared ctx s call l bound ctx',
    Reachable declared ctx s ∧ call.spec ∈ declared ∧ call.spec.layout = .ok l ∧
      l.keywordNames = ["b", "b"] ∧ call.arity = ⟨1, 0, 2⟩ ∧
      call.arity.maxPositional + call.arity.minKeyword < 2 ^ 64 ∧
      (Indexed.bind call).run ctx = .ok (.ok bound) ctx' ∧ bound.get? 1 = some Heap.trueRef ∧
      ∃ k, Keywords.resolve ctx.heap call.keywords = .ok k ∧
        (some "b", Heap.trueRef) ∈ k.given ctx.heap := by
  let call : Call := { ofNames ["b", "b"] with arity := ⟨1, 0, 2⟩ }
  have hr := reachable_withNames call.spec "b" "c"
  have hl : call.spec.layout = .ok ⟨0, ["b", "b"]⟩ := rfl
  have ha : call.arity.maxPositional + call.arity.minKeyword < 2 ^ 64 := by decide
  obtain ⟨outcome, ctx', hrun, hrun', hsupplied⟩ := bind_within_bounds hr rfl hl ha
  obtain rfl : outcome = .ok (.filled [some Heap.trueRef, some Heap.trueRef]) := by
    cases hrun
    rfl
  obtain ⟨k, hk, hbound⟩ := hsupplied _ rfl
  obtain ⟨-, name, hname, hmem⟩ := hbound.keyword 1 Heap.trueRef (Nat.zero_le 1) rfl
  obtain rfl : "b" = name := by simpa using hname
  exact ⟨_, _, _, call, _, _, ctx', hr, rfl, hl, rfl, rfl, ha, hrun', rfl, k, hk, hmem⟩

end Call

end NativeCall
