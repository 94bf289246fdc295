import NativeCall.Bind.Basic
import NativeCall.Proofs.Heap.Effects

/-!
# What binding does to a heap

Binding a call looks at objects and interns the names of the declaration. It owns nothing, so it
releases nothing, and it changes no object (`Call.marshals_bind`).

This is proved along the code, for any heap at all: nothing is assumed of the call, of the
references in it or of the counts, since a statement about everything that programs can do has to
cover calls that are wrong in every way. The lemmas go up as the code does, from interning one text
over the names of a declaration and the cache to the long way and the whole of a bind.
-/

namespace NativeCall

open Heap

variable {allowed : Object → Object → Prop}

/-! ## Interning names -/

lemma NameCache.marshals_internAll (p : ParamSpec) :
    Marshals allowed (NameCache.internAll p).run := by
  rw [NameCache.internAll]
  cases p.layout with
  | error e => exact Causes.run_throw _
  | ok l => exact Causes.run_adapt (Causes.run_mapM Marshals.intern l.keywordNames)

lemma NameCache.marshals_names (cache : NameCache) (p : ParamSpec) :
    Marshals allowed (cache.names p).run := by
  rw [NameCache.names]
  cases cache.get? p with
  | some refs => exact Causes.run_pure _
  | none => exact Causes.run_bind (marshals_internAll p) (fun _ => Causes.run_pure _)

namespace Call

lemma marshals_internNames (p : ParamSpec) : Marshals allowed (internNames p).run := by
  refine Causes.run_look (fun c => ?_)
  have hnames : Marshals allowed (Context.attempt (c.names.names p)) :=
    Causes.onHeap (NameCache.marshals_names c.names p)
  refine Causes.run_bind (x := ExceptT.mk (Context.attempt (c.names.names p))) hnames
    (fun learned => ?_)
  refine Causes.run_lift_bind (x := modifyThe Context ({ · with names := learned.2 }))
    (Causes.of_same (fun _ => rfl)) (fun _ => ?_)
  -- The first time is reported, which does not touch the heap.
  by_cases hnew : (c.names.get? p).isNone = true
  · rw [if_pos hnew]
    have htrace : Marshals allowed (Context.trace (.namesInterned p.fname learned.1.length)) :=
      Causes.of_same (fun _ => rfl)
    exact Causes.run_lift_bind htrace (fun _ => Causes.run_pure _)
  · rw [if_neg hnew]
    exact Causes.run_pure _

/-! ## Binding -/

lemma marshals_bindSlow (c : Call) (l : Layout) (k : Keywords) :
    Marshals allowed (c.bindSlow l k).run := by
  have hmatch : ∀ names : List Ref, Marshals allowed (do
      let h := (← getThe Context).heap
      .filled <$> liftExcept (c.slots h l k names) : ExceptT BindError ContextM BoundArgs).run := by
    intro names
    refine Causes.run_look (fun context => ?_)
    show Marshals allowed (BoundArgs.filled <$>
      (liftExcept (c.slots context.heap l k names) : ExceptT BindError ContextM _)).run
    cases c.slots context.heap l k names with
    | ok slots => exact Causes.of_same (fun _ => rfl)
    | error e => exact Causes.of_same (fun _ => rfl)
  rw [bindSlow]
  cases c.countError? l k.count with
  | some e => exact Causes.run_throw _
  | none => exact Causes.run_bind (Causes.run_adapt (marshals_internNames c.spec)) hmatch

lemma marshals_bindUntraced (c : Call) : Marshals allowed c.bindUntraced.run := by
  refine Causes.run_look (fun context => ?_)
  refine Causes.run_bind (Causes.run_liftExcept _) (fun k => ?_)
  refine Causes.run_bind (Causes.run_liftExcept _) (fun l => ?_)
  by_cases hfast : c.isFast k.count = true
  · rw [if_pos hfast]
    exact Causes.run_pure _
  · rw [if_neg hfast]
    exact Causes.run_bind (marshals_bindSlow c l k) (fun _ => Causes.run_pure _)

lemma marshals_bind (c : Call) : Marshals allowed c.bind.run := by
  refine Causes.bind (marshals_bindUntraced c) (fun outcome => ?_)
  have htrace : ∀ event : TraceEvent, Marshals allowed (Context.trace event) :=
    fun event => Causes.of_same (fun _ => rfl)
  cases outcome with
  | ok bound => exact Causes.bind (htrace _) (fun _ => Causes.ret _)
  | error e => exact Causes.bind (htrace _) (fun _ => Causes.ret _)

end Call

end NativeCall
