import NativeCall.Proofs.Build.Simulation
import NativeCall.Proofs.Heap.History

/-!
# Directives that make a value of their own

Most directives make a new object of the arguments that they take, or `None` of a null text, or they
fail; none of this depends on what is on the heap. A `Yield` is which of these it is. What becomes
of one on a given runtime is the same for all of them (`Yield.Comes`): a new object is charged for,
and goes into an empty slot if the charge is granted.

`Yields` says what a directive makes of some arguments, both as one step of a longer format and as a
format of its own. It follows from what reading the arguments gives (`Yields.of_read`), so a
statement about a directive needs no look at the machine or the heap.

## Why two statements

A directive hardly ever stands alone, so what it makes is said of a step (`Yields.step`): wherever
the machine is in a format, with whatever groups open and whatever arguments behind, the step takes
just these arguments and pushes what comes of them. The position that an error names depends on the
arguments taken before, which is why a `Yield` may depend on it.

For someone who calls a build with a format of one directive, that is still some way off, through
the grammar and the end of a build. `Yields.build` goes it once: such a format is accepted
(`buildValue_scalar`), and its value is that of its only item.

Both go through the evaluation of the item and not through the machine: `exists_evalScalar` is about
reading and making alone, and `Machine.step_scalar` and `Format.run_eq_evalFormat` carry it over.
-/

namespace NativeCall

open Heap

/-- What a directive makes of its arguments alone. -/
inductive Yield where
  /-- A reference to `None`. -/
  | none
  | fresh (o : Object)
  | failure (e : BuildError)

namespace Yield

/-- The end of a reading that left the arguments of `cursor`. -/
def ending (y : Yield) (cursor : ArgCursor) : EStateM.Result ReadError ArgCursor Product :=
  match y with
  | none => .ok .none cursor
  | fresh o => .ok (.fresh o) cursor
  | failure e => .error ⟨e, []⟩ cursor

/-- If this is a new object, it holds no references. -/
def Plain (y : Yield) : Prop :=
  ∀ o, y = fresh o → o.children = []

/-- `y.Comes c outcome c'`: on the runtime `c`, this is the outcome of `y`, and it leaves `c'`. A
new object is put into an empty slot with the result as the only reference to it. If its bytes are
refused nothing has changed. -/
inductive Comes : Yield → Context → Except BuildError Ref → Context → Prop where
  | none {c : Context} : Comes none c (.ok noneRef) c
  | granted {c : Context} {o : Object} {t : Tracker} {r : Ref} {h' : Heap}
      (hcharge : c.heap.tracker.charge o.size = .ok t)
      (hplaced : Placed { c.heap with tracker := t } ⟨1, false, o⟩ r h') :
      Comes (fresh o) c (.ok r) { c with heap := h' }
  | refused {c : Context} {o : Object} {e : ResourceError}
      (hcharge : c.heap.tracker.charge o.size = .error e) :
      Comes (fresh o) c (.error (.raised e.toRunError)) c
  | failure {c : Context} {e : BuildError} : Comes (failure e) c (.error e) c

end Yield

/-- A machine behind a step that took arguments and had this outcome. -/
def Machine.answer (m : Machine) (cursor : ArgCursor) :
    Except BuildError Ref → Machine × Except BuildError Unit
  | .ok r => ((⟨cursor, m.bottom, m.groups⟩ : Machine).push r, .ok ())
  | .error e => (⟨cursor, m.bottom, m.groups⟩, .error e)

/-- `Yields code suffix args y`: from the arguments `args` the directive that is written `code` and
`suffix` makes `y`, which may depend on how many arguments were taken before. -/
structure Yields (code : Char) (suffix : List Char) (args : List BuildArg) (y : Nat → Yield) :
    Prop where
  /-- Anywhere in a format, the step of the directive takes just these arguments, whatever comes
  behind them. -/
  step : ∃ x, Format.Spells code suffix x ∧ ∀ (m : Machine) (rest : List BuildArg) (c : Context),
    m.cursor.args = args ++ rest → c.heap.Tidy → ∃ outcome c',
      (y m.cursor.position).Comes c outcome c' ∧
      m.step ⟨code, .scalar x⟩ c =
        .ok (m.answer ⟨rest, m.cursor.position + args.length⟩ outcome) c'
  /-- By itself, the directive is a format for these arguments. -/
  build : ∀ c : Context, c.heap.Tidy → ∃ outcome c', (y 0).Comes c outcome c' ∧
    (buildValue (String.ofList (code :: suffix)) args).run c = .ok outcome { c' with
      tracer := c'.tracer.record (.build (String.ofList (code :: suffix)) outcome.isOk) }

section Outcomes

variable {y : Yield} {c c' : Context} {code : Char} {x : Scalar} {cursor cursor' : ArgCursor}
  {outcome : Except BuildError Ref}

/-- A new object that holds no references is made or refused. -/
lemma exists_comes_fresh (code : Char) (position : Nat) {o : Object} (hplain : o.children = [])
    (ht : c.heap.Tidy) : ∃ outcome c', (Yield.fresh o).Comes c outcome c' ∧
      (Machine.make code position (.fresh o)).run c = .ok outcome c' := by
  -- Whatever creating the object comes to, making the item comes to the same.
  have hmake : ∀ {outcome : Except RunError Ref} {h' : Heap},
      (create o).run c.heap = .ok outcome h' → (Machine.make code position (.fresh o)).run c =
        .ok (outcome.mapError .raised) { c with heap := h' } := fun hrun =>
    run_adapt (x := ExceptT.mk (Context.attempt (create o))) _ (Context.onHeap_ok hrun)
  have hrelease : decRefs o.children c.heap = .ok () c.heap := by
    rw [hplain]
    rfl
  rcases ht.create hrelease with ⟨t, r, h', hcharge, hrun, hplaced⟩ | ⟨e, hcharge, hrun⟩
  · exact ⟨_, _, .granted hcharge hplaced, hmake hrun⟩
  · exact ⟨_, _, .refused hcharge, hmake hrun⟩

/-- Evaluating a scalar is reading its arguments and then what came of that. -/
lemma exists_evalScalar (hread : x.read code cursor = y.ending cursor') (hplain : y.Plain)
    (ht : c.heap.Tidy) : ∃ outcome c', y.Comes c outcome c' ∧
      Format.evalScalar code x cursor c = .ok (cursor', outcome) c' := by
  cases y with
  | none => exact ⟨_, _, .none, by simp [Format.evalScalar, hread, Yield.ending]; rfl⟩
  | failure e => exact ⟨_, _, .failure, by simp [Format.evalScalar, hread, Yield.ending]; rfl⟩
  | fresh o =>
    obtain ⟨outcome, c', hcomes, hmake⟩ :=
      exists_comes_fresh code cursor'.position (hplain o rfl) ht
    refine ⟨outcome, c', hcomes, ?_⟩
    simp only [Format.evalScalar, hread, Yield.ending]
    rw [bind_ok hmake]
    rfl

/-- The value of a format of one scalar is that of the scalar. -/
lemma evalFormat_scalar {args : List BuildArg} {position : Nat}
    (h : Format.evalScalar code x ⟨args, 0⟩ c = .ok (⟨[], position⟩, outcome) c') :
    (Format.evalFormat [.scalar code x] args).run c = .ok outcome c' := by
  have htree : (Format.Tree.scalar code x).eval ⟨args, 0⟩ c =
      .ok (⟨[], position⟩, outcome.mapError .bare) c' := by
    rw [Format.Tree.eval, bind_ok h]
    rfl
  show (Format.evalItems [.scalar code x] ⟨args, 0⟩ >>= _) c = _
  cases outcome with
  | ok r =>
    have hitems : Format.evalItems [.scalar code x] ⟨args, 0⟩ c =
        .ok (⟨[], position⟩, .ok [r]) c' := by
      rw [Format.evalItems, bind_ok htree]
      simp [Format.evalItems, Except.mapError]
      rfl
    rw [bind_ok hitems]
    rfl
  | error e =>
    have hitems : Format.evalItems [.scalar code x] ⟨args, 0⟩ c =
        .ok (⟨[], position⟩, .error (.bare e)) c' := by
      rw [Format.evalItems, bind_ok htree]
      rfl
    rw [bind_ok hitems]
    rfl

/-- An accepted format of one scalar. -/
lemma buildValue_scalar {suffix : List Char} {args : List BuildArg} {position : Nat}
    (hs : Format.Spells code suffix x)
    (h : Format.evalScalar code x ⟨args, 0⟩ c = .ok (⟨[], position⟩, outcome) c') :
    (buildValue (String.ofList (code :: suffix)) args).run c = .ok outcome { c' with
      tracer := c'.tracer.record (.build (String.ofList (code :: suffix)) outcome.isOk) } := by
  have hitems : Format.Items false (String.ofList (code :: suffix)).toList [.scalar code x] := by
    rw [String.toList_ofList]
    exact .singleton_scalar hs
  have hcompile := (Format.compile_eq_ok_iff _ _).mpr ⟨_, hitems, rfl⟩
  have hrun := evalFormat_scalar h
  rw [← Format.run_eq_evalFormat
    (f := Format.ofTrees (String.ofList (code :: suffix)) [.scalar code x]) rfl hitems.paired]
    at hrun
  rw [buildValue, hcompile]
  exact bind_ok hrun

end Outcomes

/-- A directive makes of its arguments what reading them gives. -/
lemma Yields.of_read {code : Char} {suffix : List Char} {x : Scalar} {args : List BuildArg}
    {y : Nat → Yield} (hs : Format.Spells code suffix x) (hplain : ∀ position, (y position).Plain)
    (hread : ∀ rest position, x.read code ⟨args ++ rest, position⟩ =
      (y position).ending ⟨rest, position + args.length⟩) : Yields code suffix args y := by
  refine ⟨⟨x, hs, fun m rest c hargs ht => ?_⟩, fun c ht => ?_⟩
  -- Once with any arguments behind, for a step, and once with none, for a whole format.
  · have hm := hread rest m.cursor.position
    rw [← hargs] at hm
    obtain ⟨outcome, c', hcomes, heval⟩ := exists_evalScalar hm (hplain _) ht
    refine ⟨outcome, c', hcomes, ?_⟩
    rw [Machine.step_scalar, bind_ok heval]
    cases outcome <;> rfl
  · have hall := hread [] 0
    rw [List.append_nil] at hall
    obtain ⟨outcome, c', hcomes, heval⟩ := exists_evalScalar hall (hplain 0) ht
    exact ⟨outcome, c', hcomes, buildValue_scalar hs heval⟩

end NativeCall
