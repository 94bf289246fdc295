import NativeCall.Proofs.Build.Frames
import NativeCall.Proofs.Build.Reading
import NativeCall.Proofs.Heap.Effects

/-!
# What builds do to a heap

A build makes objects, closes groups over them and releases what it cannot use; in none of this does
it change an object in its slot. The only foreign code that runs in a build are the conversions
among its arguments. So a build is an operation of any kind that its conversions are of, if
operations of the kind can be done one after the other and the little that a build does on its own
is of the kind too (`Hosts.run`).

## Kinds of operations

A kind is a predicate `K` on all operations of a runtime, whatever they return. That is general
enough for everything that is proved of builds by going through their code: that they respect what
their conversions respect, that they keep the pending error, that they only intern what they should,
that the events of nested calls come in order. Each of these would otherwise go through the cases of
a step again.

What a build does on its own is small. `Serves` asks that it may look at the runtime and do on the
heap what changes no object; `Hosts` asks in addition that it may take the pending error away, which
it does at a null handle and nowhere else. The difference is kept since one kind, not to touch the
pending error, has the first property and not the second. For such a kind every step is covered that
reads no null handle (`Serves.step`), and the end of a build is covered in any case
(`Serves.finish`).

For one, a build respects whatever its conversions respect (`marshals_buildValue`). Nothing is asked
of the references in the arguments: a build that stops at a wrong one has done what it has done.
-/

namespace NativeCall

open Heap

/-- The conversion of an argument, if it has one, changes objects only where that is allowed. -/
def BuildArg.Marshals (allowed : Object → Object → Prop) (arg : BuildArg) : Prop :=
  ∀ a, arg = .convert (some a) → Heap.Marshals allowed a.run

/-- The conversion of an argument, if it has one, is an operation of the kind `K`. -/
def BuildArg.Converts (K : (α : Type) → ContextM α → Prop) (arg : BuildArg) : Prop :=
  ∀ a, arg = .convert (some a) → K _ a.run

/-- What a build does with what it reads is of the kind `K`: it looks at the runtime, and does on
the heap what changes no object. -/
structure Serves (K : (α : Type) → ContextM α → Prop) : Prop extends Sequential K where
  look : K Context (getThe Context)
  onHeap : ∀ {α : Type} {x : HeapM α}, (∀ allowed, Heap.Marshals allowed x) →
    K α (Context.onHeap x)

/-- All that a build does on its own is of the kind `K`. A null handle makes it take the pending
error away. -/
structure Hosts (K : (α : Type) → ContextM α → Prop) : Prop extends Serves K where
  takeError : K (Option RunError) Context.takeError

namespace Machine

variable {allowed : Object → Object → Prop}

lemma marshals_closeGroup (kind : GroupKind) (items : List Ref) :
    Marshals allowed (closeGroup kind items).run := by
  cases kind with
  | tuple => exact Marshals.newTuple items
  | list => exact Marshals.create _
  | dict => exact Causes.run_bind (Marshals.dictOfPairs items) (fun d => Marshals.create (.dict d))

lemma marshals_result (items : List Ref) : Marshals allowed (result items).run := by
  match items with
  | [] => exact Causes.run_pure _
  | [r] => exact Causes.run_pure r
  | r :: s :: rest => exact Marshals.newTuple (r :: s :: rest)

/-- What is done when the steps of a format have been run. -/
def finish (m : Machine) (outcome : Except BuildError Unit) : ContextM (Except BuildError Ref) :=
  match outcome, m.cursor.args with
  | .error e, _ => do
    m.release
    return .error e
  | .ok (), [] => do
    return (← Context.attempt (result m.bottom.reverse)).mapError .raised
  | .ok (), extra => do
    m.release
    return .error (.call (.extraArgs extra.length))

lemma run_eq_finish (f : Format) (args : List BuildArg) :
    (f.run args).run = (start args).exec f.steps >>= fun (m, outcome) => m.finish outcome := rfl

end Machine

namespace Serves

variable {K : (α : Type) → ContextM α → Prop} {m : Machine} {args : List BuildArg}

/-! ## Making one item -/

lemma retained (hK : Serves K) (code : Char) (position : Nat) (r : Ref) :
    K _ (Machine.make code position (.retained r)).run := by
  refine hK.run_lift_bind hK.look (fun c => ?_)
  have hretain : K _ (Context.onHeap (retain r)) :=
    hK.onHeap (fun _ => (Causes.retain r).marshals _)
  -- What comes next depends on the runtime that was looked at, but is of the kind either way.
  by_cases hlive : c.heap.isLive r = true
  · rw [if_pos hlive]
    exact hK.run_lift hretain
  · rw [if_neg hlive]
    exact hK.run_throw _

lemma make (hK : Serves K) (code : Char) (position : Nat) {p : Product}
    (hp : p.Fits (·.Converts K)) (hnull : p ≠ .null) :
    K _ (Machine.make code position p).run := by
  cases p with
  | none => exact hK.run_pure _
  | fresh o =>
    have hcreate : K _ (Context.attempt (create o)) :=
      hK.onHeap (fun _ => Marshals.create o)
    exact hK.run_adapt (x := ExceptT.mk (Context.attempt (create o))) hcreate
  | retained r => exact hK.retained code position r
  | taken r => exact hK.run_pure r
  | converted a => exact hK.run_adapt (hp a rfl)
  | null => exact absurd rfl hnull

/-! ## Steps -/

/-- A step that reads no null handle. -/
lemma step (hK : Serves K) (hm : m.Awaits (·.Converts K)) {s : Step}
    (hnull : ∀ x cursor, s.directive = .scalar x → x.read s.code m.cursor ≠ .ok .null cursor) :
    K _ (m.step s) := by
  obtain ⟨code, d⟩ := s
  cases d with
  | opening kind => exact hK.ret _
  | closing kind =>
    obtain ⟨cursor, bottom, groups⟩ := m
    cases groups with
    | nil => exact hK.ret _
    | cons items outer =>
      have hclose : K _ (Context.attempt (Machine.closeGroup kind items.reverse)) :=
        hK.onHeap (fun _ => Machine.marshals_closeGroup kind items.reverse)
      refine hK.bind hclose (fun outcome => ?_)
      cases outcome <;> exact hK.ret _
  | scalar x =>
    unfold Machine.step
    dsimp only
    cases hread : x.read code m.cursor with
    | error e cursor =>
      have hrelease : K _ (Context.onHeap (decRefs e.rejected)) :=
        hK.onHeap (fun _ => Marshals.decRefs e.rejected)
      exact hK.bind hrelease (fun _ => hK.ret _)
    | ok product cursor =>
      have hfits := Scalar.fits_read hm hread
      have hproduct : product ≠ .null := by
        rintro rfl
        exact hnull x cursor rfl hread
      refine hK.bind (hK.make code cursor.position hfits hproduct) (fun outcome => ?_)
      cases outcome <;> exact hK.ret _

lemma release (hK : Serves K) (m : Machine) : K _ m.release :=
  hK.onHeap (fun _ => Marshals.decRefs m.owned)

/-- A build whose steps have come to their end: it hands the value out, or gives it up. -/
lemma finish (hK : Serves K) (m : Machine) (outcome : Except BuildError Unit) :
    K _ (m.finish outcome) := by
  obtain ⟨⟨args, position⟩, bottom, groups⟩ := m
  cases outcome with
  | error e => exact hK.bind (hK.release _) (fun _ => hK.ret _)
  | ok _ =>
    cases args with
    | cons arg extra => exact hK.bind (hK.release _) (fun _ => hK.ret _)
    | nil =>
      have hresult : K _ (Context.attempt (Machine.result bottom.reverse)) :=
        hK.onHeap (fun _ => Machine.marshals_result bottom.reverse)
      exact hK.bind hresult (fun _ => hK.ret _)

end Serves

namespace Hosts

variable {K : (α : Type) → ContextM α → Prop} {m : Machine} {args : List BuildArg}

lemma nullObject (hK : Hosts K) : K _ Machine.nullObject.run := by
  refine hK.run_lift_bind hK.takeError (fun pending => ?_)
  cases pending with
  | some e => exact hK.run_throw _
  | none => exact hK.run_throw _

lemma step (hK : Hosts K) (hm : m.Awaits (·.Converts K)) (s : Step) : K _ (m.step s) := by
  by_cases hnull : ∃ x cursor, s.directive = .scalar x ∧ x.read s.code m.cursor = .ok .null cursor
  · obtain ⟨x, cursor, hx, hread⟩ := hnull
    unfold Machine.step
    simp only [hx, hread]
    refine hK.bind hK.nullObject (fun outcome => ?_)
    cases outcome <;> exact hK.ret _
  · exact hK.toServes.step hm (fun x cursor hx hread => hnull ⟨x, cursor, hx, hread⟩)

lemma exec (hK : Hosts K) (hm : m.Awaits (·.Converts K)) (steps : List Step) :
    K _ (m.exec steps) := by
  induction steps generalizing m with
  | nil => exact hK.ret _
  | cons s steps ih =>
    -- The arguments to come are known to be of the kind only for a machine that the step has really
    -- led to.
    refine hK.bind_of (hK.step hm s) (fun c result c' hrun => ?_)
    obtain ⟨m', outcome⟩ := result
    cases outcome with
    | error e => exact hK.ret _
    | ok _ => exact ih (hm.step hrun)

/-! ## Builds -/

/-- A build whose conversions are of the kind `K` is of the kind itself, but for the event that is
reported at its end. -/
lemma run (hK : Hosts K) (f : Format) (hargs : ∀ arg ∈ args, arg.Converts K) :
    K _ (f.run args).run := by
  have hstart : (Machine.start args).Awaits (·.Converts K) := hargs
  rw [Machine.run_eq_finish]
  exact hK.bind (hK.exec hstart f.steps) (fun (m, outcome) => hK.toServes.finish m outcome)

end Hosts

/-! ## Builds that respect what their conversions respect -/

section Builds

variable {allowed : Object → Object → Prop} {args : List BuildArg}

lemma marshals_hosts (allowed : Object → Object → Prop) :
    Hosts (fun _ x => Marshals allowed x) where
  toSequential := Causes.sequential
  look := Causes.of_same (fun _ => rfl)
  takeError := Causes.of_same (fun _ => rfl)
  onHeap hx := Causes.onHeap (hx allowed)

lemma marshals_trace (event : TraceEvent) : Marshals allowed (Context.trace event) :=
  Causes.of_same (fun _ => rfl)

lemma Format.marshals_build (f : Format) (hargs : ∀ arg ∈ args, arg.Marshals allowed) :
    Marshals allowed (f.build args).run :=
  Causes.bind ((marshals_hosts allowed).run f hargs) (fun _ =>
    Causes.bind (marshals_trace _) (fun _ => Causes.ret _))

lemma marshals_buildValue (source : String) (hargs : ∀ arg ∈ args, arg.Marshals allowed) :
    Marshals allowed (buildValue source args).run := by
  rw [buildValue]
  cases Format.compile source with
  | ok f => exact f.marshals_build hargs
  | error e =>
    have hrelease : Marshals allowed (Context.onHeap (decRefs (args.flatMap BuildArg.owned))) :=
      Causes.onHeap (Marshals.decRefs _)
    exact Causes.bind hrelease (fun _ => Causes.bind (marshals_trace _) (fun _ => Causes.ret _))

end Builds

end NativeCall
