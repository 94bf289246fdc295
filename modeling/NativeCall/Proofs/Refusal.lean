import NativeCall.Proofs.Bind.Course
import NativeCall.Proofs.Build.Ownership
import NativeCall.Proofs.Build.Effects
import NativeCall.Proofs.Requests

/-!
# The first refusal is final

What a call makes may be refused at any scalar, at the end of any group, at the result, at a name of
a parameter, and all the same in a conversion, which may be such a call again. On its way out the
error passes clean-ups, and becomes an error of the builder, of the binder and of the runtime again.

All of this is made of charges and of what is quiet, so each operation raises what it was refused,
from allocating an object to a build and a bind. For the machine of a build that is said of the
outcome that it hands out (`Machine.Tells`), since a step that fails hands the machine out as well.
Conversions come in where a build makes an item of one: it raises what its conversions raise.

`Propagates` are the conversions that are written without catching anything. They raise what the
tracker refuses them by induction on how they are written, since a nested call is one of them
(`raises`).

## What final means

`Final` says of one run: among its requests at most one was refused, it was the last, and the answer
is that refusal. The first two are about what the run did, and the third is about what it says. A
call that went on after a refusal and asked again would fail the second even if it raised the
refusal in the end; a call that stopped asking but answered with an error of its own would fail the
third. Both are mistakes that a clean-up can make, one by building something in order to report the
error, the other by releasing too much and stopping at a misuse.

The error is fatal, and the last part of the theorem is what that means for a handler: it is an
instance of no class, so code that catches errors by their class does not catch it.

## Termination of the call

The three parts hold of runs that end. That a run does end needs the premises of the transfer
theorems, which differ from one operation to the next; `Final` takes them as `sound`, so that the
statement about a refusal is not burdened with them.
-/

namespace NativeCall

open Heap

namespace Raises

/-! ## Making values -/

lemma charge (o : Object) : Raises id (within (Heap.charge o)) :=
  Heeds.charge o

lemma allocate (o : Object) : Raises id (within (Heap.allocate o)) :=
  within_bind (within_cleanup (charge o) (fun _ => Quiet.decRefs o.children))
    (fun _ => within_quiet (Quiet.sequential.run_lift (Quiet.insert o false)))

lemma create (o : Object) : Raises ResourceError.toRunError (within (Heap.create o)) :=
  within_adapt _ (allocate o)

lemma newTuple (items : List Ref) :
    Raises ResourceError.toRunError (within (Heap.newTuple items)) := by
  cases items with
  | nil => exact within_quiet (Quiet.sequential.run_pure _)
  | cons r items => exact create _

lemma tupleOf (items : List Ref) :
    Raises ResourceError.toRunError (within (Heap.tupleOf items)) := by
  have hretained : Quiet (items.forM (fun r => (ExceptT.lift (Heap.incRef r) : RunM Unit))).run := by
    induction items with
    | nil => exact Quiet.sequential.run_pure _
    | cons r items ih =>
      exact Quiet.sequential.run_lift_bind (Quiet.incRef r) (fun _ => ih)
  exact within_bind (within_quiet hretained) (fun _ => newTuple items)

lemma builder (b : SlotBuilder) : Raises ResourceError.toRunError (within b.build) := by
  rw [SlotBuilder.build]
  cases b.firstUnset? with
  | some i =>
    exact within_lift_bind (Quiet.decRefs b.owned) (fun _ =>
      within_quiet (Quiet.sequential.run_throw _))
  | none =>
    cases b.kind with
    | tuple => exact newTuple b.owned
    | list => exact create _

/-! ## Interning names -/

lemma intern (text : String) : Raises id (within (Heap.intern text)) := by
  refine within_look (fun _ _ => rfl) (fun h => ?_)
  cases h.internedRef? text with
  | some r => exact within_quiet (Quiet.sequential.run_pure r)
  | none =>
    refine within_bind (charge _) (fun _ => ?_)
    refine within_lift_bind (Quiet.insert _ true) (fun r => ?_)
    refine within_lift_bind (x := modify fun h => { h with interned := (text, r) :: h.interned })
      (.of_modify (fun _ _ => rfl) (fun _ => rfl)) (fun _ => ?_)
    exact within_quiet (Quiet.sequential.run_pure r)

lemma internAll (p : ParamSpec) :
    Raises ResourceError.toRunError (within (NameCache.internAll p)) := by
  rw [NameCache.internAll]
  cases p.layout with
  | error e => exact within_quiet (Quiet.sequential.run_throw _)
  | ok l => exact within_adapt _ (within_mapM intern l.keywordNames)

lemma names (cache : NameCache) (p : ParamSpec) :
    Raises ResourceError.toRunError (within (cache.names p)) := by
  rw [NameCache.names]
  cases cache.get? p with
  | some refs => exact within_quiet (Quiet.sequential.run_pure _)
  | none =>
    exact within_bind (internAll p) (fun _ => within_quiet (Quiet.sequential.run_pure _))

lemma internNames (p : ParamSpec) : Raises ResourceError.toRunError (Call.internNames p) := by
  refine look (fun _ _ => rfl) (fun c => ?_)
  refine bind (names c.names p) (fun learned => ?_)
  refine lift_bind (x := modifyThe Context ({ · with names := learned.2 }))
    (.of_modify (fun _ _ => rfl) (fun _ => rfl)) (fun _ => of_quiet ?_)
  by_cases hnew : (c.names.get? p).isNone = true
  · rw [if_pos hnew]
    exact Quiet.sequential.run_lift_bind (Quiet.trace _) (fun _ => Quiet.sequential.run_pure _)
  · rw [if_neg hnew]
    exact Quiet.sequential.run_pure _

/-! ## Binding -/

/-- Matching looks at objects, which are the same under all limits. -/
lemma slots_withLimits (call : Call) (l : Layout) (k : Keywords) (names : List Ref)
    (limits : Limits) (c : Context) :
    call.slots (withLimits limits c).heap l k names = call.slots c.heap l k names := by
  -- Which slot gets which argument is decided by texts and references, and those are the same under
  -- all limits.
  have hfill : ∀ (i n : Nat) (params : List (Ref × String)),
      call.fill (withLimits limits c).heap k i n params = call.fill c.heap k i n params := by
    intro i n params
    induction params generalizing i n with
    | nil => rfl
    | cons param params ih =>
      rw [Call.fill, Call.fill]
      simp only [ih]
      rfl
  have hduplicate : ∀ (i : Nat) (params : List (Ref × String)),
      call.duplicate? (withLimits limits c).heap k i params =
        call.duplicate? c.heap k i params := by
    intro i params
    induction params generalizing i with
    | nil => rfl
    | cons param params ih =>
      rw [Call.duplicate?, Call.duplicate?, ih]
      rfl
  unfold Call.slots Call.leftoverError?
  simp only [hfill, hduplicate]
  rfl

lemma bindSlow (call : Call) (l : Layout) (k : Keywords) :
    Raises (.raised ∘ ResourceError.toRunError) (call.bindSlow l k) := by
  rw [Call.bindSlow]
  cases call.countError? l k.count with
  | some e => exact of_quiet (Quiet.sequential.run_throw _)
  | none =>
    refine bind (adapt _ (internNames call.spec)) (fun names => ?_)
    refine look (fun limits c => ?_) (fun c => of_quiet ?_)
    · simp only [slots_withLimits]
    · show Quiet (BoundArgs.filled <$>
        (liftExcept (call.slots c.heap l k names) : ExceptT BindError ContextM _)).run
      cases call.slots c.heap l k names with
      | ok slots => exact Quiet.sequential.run_pure (BoundArgs.filled slots)
      | error e => exact Quiet.sequential.run_throw e

lemma bindUntraced (call : Call) :
    Raises (.raised ∘ ResourceError.toRunError) call.bindUntraced := by
  refine look (fun _ _ => rfl) (fun c => ?_)
  refine bind (of_quiet (Quiet.sequential.run_liftExcept _)) (fun k => ?_)
  refine bind (of_quiet (Quiet.sequential.run_liftExcept _)) (fun l => ?_)
  by_cases hfast : call.isFast k.count = true
  · rw [if_pos hfast]
    exact of_quiet (Quiet.sequential.run_pure _)
  · rw [if_neg hfast]
    exact bind (bindSlow call l k) (fun _ => of_quiet (Quiet.sequential.run_pure _))

lemma bindCall (call : Call) : Raises (.raised ∘ ResourceError.toRunError) call.bind := by
  refine Heeds.quietly (x := call.bindUntraced.run) (bindUntraced call) (fun outcome => ?_) ?_
  · cases outcome with
    | ok bound =>
      exact Quiet.sequential.bind (Quiet.trace _) (fun _ => Quiet.sequential.ret _)
    | error e =>
      exact Quiet.sequential.bind (Quiet.trace _) (fun _ => Quiet.sequential.ret _)
  · rintro e _ rfl c outcome c' hrun
    obtain ⟨-, c₁, -, hret⟩ := bind_inv hrun
    cases hret
    rfl

end Raises

/-! ## Building -/

/-- The conversion of an argument, if it has one, raises what the tracker refuses it. -/
def BuildArg.Raises (arg : BuildArg) : Prop :=
  ∀ a, arg = .convert (some a) → NativeCall.Raises ResourceError.toRunError a

namespace Machine

variable {m : Machine}

lemma raises_closeGroup (kind : GroupKind) (items : List Ref) :
    Raises ResourceError.toRunError (within (closeGroup kind items)) := by
  cases kind with
  | tuple => exact .newTuple items
  | list => exact .create _
  | dict =>
    exact .within_bind (.within_quiet (Quiet.handlesDicts.dictOfPairs items))
      (fun d => .create (.dict d))

lemma raises_result (items : List Ref) :
    Raises ResourceError.toRunError (within (result items)) := by
  match items with
  | [] => exact .within_quiet (Quiet.sequential.run_pure _)
  | [r] => exact .within_quiet (Quiet.sequential.run_pure r)
  | r :: s :: rest => exact .newTuple (r :: s :: rest)

lemma quiet_nullObject : Quiet nullObject.run := by
  refine Quiet.sequential.run_lift_bind Quiet.takeError (fun pending => ?_)
  cases pending with
  | some e => exact Quiet.sequential.run_throw _
  | none => exact Quiet.sequential.run_throw _

lemma quiet_retained (code : Char) (position : Nat) (r : Ref) :
    Quiet (make code position (.retained r)).run := by
  refine Quiet.run_look (fun _ _ => rfl) (fun c => ?_)
  by_cases hlive : c.heap.isLive r = true
  · rw [if_pos hlive]
    exact Quiet.sequential.run_lift (Quiet.onHeap (Quiet.retain r))
  · rw [if_neg hlive]
    exact Quiet.sequential.run_throw _

lemma raises_make (code : Char) (position : Nat) {p : Product} (hp : p.Fits BuildArg.Raises) :
    Raises (.raised ∘ ResourceError.toRunError) (make code position p) := by
  cases p with
  | none => exact .of_quiet (Quiet.sequential.run_pure _)
  | fresh o => exact .adapt _ (.create o)
  | retained r => exact .of_quiet (quiet_retained code position r)
  | taken r => exact .of_quiet (Quiet.sequential.run_pure r)
  | converted a => exact .adapt _ (hp a rfl)
  | null => exact .of_quiet quiet_nullObject

/-- How the outcome of steps tells of a refusal. -/
def Tells (e : ResourceError) (result : Machine × Except BuildError Unit) : Prop :=
  result.2 = .error (.raised e.toRunError)

lemma heeds_step (hm : m.Awaits BuildArg.Raises) (s : Step) : Heeds Tells (m.step s) := by
  obtain ⟨code, d⟩ := s
  cases d with
  | opening kind => exact .of_quiet (Quiet.sequential.ret _)
  | closing kind =>
    obtain ⟨cursor, bottom, groups⟩ := m
    cases groups with
    | nil => exact .of_quiet (Quiet.sequential.ret _)
    | cons items outer =>
      refine Heeds.quietly (raises_closeGroup kind items.reverse) (fun outcome => ?_) ?_
      · cases outcome <;> exact Quiet.sequential.ret _
      · rintro e _ rfl c result c' hrun
        cases hrun
        rfl
  | scalar x =>
    unfold Machine.step
    dsimp only
    cases hread : x.read code m.cursor with
    | error e cursor =>
      exact .of_quiet (Quiet.sequential.bind (Quiet.onHeap (Quiet.decRefs e.rejected))
        (fun _ => Quiet.sequential.ret _))
    | ok product cursor =>
      -- What is read is made into an item, and that is the only part of the step that may ask.
      have hmake := raises_make code cursor.position (Scalar.fits_read hm hread)
      refine Heeds.quietly hmake (fun outcome => ?_) ?_
      · cases outcome <;> exact Quiet.sequential.ret _
      · rintro e _ rfl c result c' hrun
        cases hrun
        rfl

/-- Steps are run until one fails, so none is run behind one that was refused something. -/
lemma heeds_exec (hm : m.Awaits BuildArg.Raises) (steps : List Step) :
    Heeds Tells (m.exec steps) := by
  induction steps generalizing m with
  | nil => exact .of_quiet (Quiet.sequential.ret _)
  | cons s steps ih =>
    refine Heeds.seq (heeds_step hm s) (fun c result c' hrun => ?_) ?_
    · obtain ⟨m', outcome⟩ := result
      cases outcome with
      | ok _ => exact ih (hm.step hrun)
      | error e => exact .of_quiet (Quiet.sequential.ret _)
    · rintro e ⟨m', _⟩ ⟨⟩
      refine ⟨Quiet.sequential.ret _, fun c result c' hrun => ?_⟩
      cases hrun
      rfl

lemma quiet_release (m : Machine) : Quiet m.release :=
  Quiet.onHeap (Quiet.decRefs m.owned)

end Machine

/-- A build asks as its steps do, and for the tuple at its end if they succeed. -/
lemma Format.raises_run (f : Format) {args : List BuildArg} (hargs : ∀ arg ∈ args, arg.Raises) :
    Raises (.raised ∘ ResourceError.toRunError) (f.run args) := by
  have hstart : (Machine.start args).Awaits BuildArg.Raises := hargs
  unfold Raises
  rw [Machine.run_eq_finish]
  refine Heeds.seq (Machine.heeds_exec hstart f.steps) (fun _ (m, outcome) _ _ => ?_) ?_
  · obtain ⟨⟨args', position⟩, bottom, groups⟩ := m
    cases outcome with
    | error e =>
      exact .of_quiet (Quiet.sequential.bind (Machine.quiet_release _)
        (fun _ => Quiet.sequential.ret _))
    | ok _ =>
      cases args' with
      | cons arg extra =>
        exact .of_quiet (Quiet.sequential.bind (Machine.quiet_release _)
          (fun _ => Quiet.sequential.ret _))
      | nil =>
        refine Heeds.quietly (Machine.raises_result bottom.reverse)
          (fun _ => Quiet.sequential.ret _) ?_
        rintro e _ rfl c outcome c' hrun
        cases hrun
        rfl
  -- A refusal ends the steps. What is left is to release the machine, which asks for nothing.
  · rintro e ⟨m, _⟩ ⟨⟩
    refine ⟨Quiet.sequential.bind (Machine.quiet_release m) (fun _ => Quiet.sequential.ret _),
      fun c outcome c' hrun => ?_⟩
    obtain ⟨-, c₁, -, hret⟩ := bind_inv hrun
    cases hret
    rfl

lemma Format.raises_build (f : Format) {args : List BuildArg}
    (hargs : ∀ arg ∈ args, arg.Raises) :
    Raises (.raised ∘ ResourceError.toRunError) (f.build args) := by
  refine Heeds.quietly (x := (f.run args).run) (f.raises_run hargs) (fun outcome => ?_) ?_
  · exact Quiet.sequential.bind (Quiet.trace _) (fun _ => Quiet.sequential.ret _)
  · rintro e _ rfl c outcome c' hrun
    obtain ⟨-, c₁, -, hret⟩ := bind_inv hrun
    cases hret
    rfl

lemma raises_buildValue (source : String) {args : List BuildArg}
    (hargs : ∀ arg ∈ args, arg.Raises) :
    Raises (.raised ∘ ResourceError.toRunError) (buildValue source args) := by
  rw [buildValue]
  cases Format.compile source with
  | ok f => exact f.raises_build hargs
  | error e =>
    exact .of_quiet (Quiet.sequential.bind (Quiet.onHeap (Quiet.decRefs _))
      (fun _ => Quiet.sequential.bind (Quiet.trace _) (fun _ => Quiet.sequential.ret _)))

/-! ## Conversions that propagate errors -/

/-- What native code does that hands every error on: it allocates and interns, and makes nested
calls, one thing after the other. -/
inductive Propagates : {α : Type} → ExceptT RunError ContextM α → Prop where
  /-- Anything that has nothing to do with limits. It may raise errors of its own. -/
  | quiet {α : Type} {x : ExceptT RunError ContextM α} (hx : Quiet x.run) : Propagates x
  | seq {α β : Type} {x : ExceptT RunError ContextM α} {f : α → ExceptT RunError ContextM β}
      (hx : Propagates x) (hf : ∀ a, Propagates (f a)) : Propagates (x >>= f)
  /-- What was under way is given up before an error is handed on. -/
  | cleanup {α : Type} {x : ExceptT RunError ContextM α} {giveUp : RunError → ContextM Unit}
      (hx : Propagates x) (hgiveUp : ∀ e, Quiet (giveUp e)) :
      Propagates (tryCatch x (fun e => do ExceptT.lift (giveUp e); throw e))
  | create (o : Object) : Propagates (within (Heap.create o))
  | intern (text : String) :
      Propagates (within ((Heap.intern text).adapt ResourceError.toRunError))
  | tupleOf (items : List Ref) : Propagates (within (Heap.tupleOf items))
  | builder (b : SlotBuilder) : Propagates (within b.build)
  | build (f : Format) {args : List BuildArg}
      (hargs : ∀ arg ∈ args, ∀ a, arg = .convert (some a) → Propagates a) :
      Propagates ((f.build args).adapt BuildError.toRunError)
  | buildValue (source : String) {args : List BuildArg}
      (hargs : ∀ arg ∈ args, ∀ a, arg = .convert (some a) → Propagates a) :
      Propagates ((NativeCall.buildValue source args).adapt BuildError.toRunError)
  | bind (call : Call) : Propagates (call.bind.adapt BindError.toRunError)

/-- However deep calls are nested, what the tracker refuses goes all the way up. -/
lemma Propagates.raises {α : Type} {x : ExceptT RunError ContextM α} (hx : Propagates x) :
    Raises ResourceError.toRunError x := by
  induction hx with
  | quiet hx => exact .of_quiet hx
  | seq _ _ ihx ihf => exact .bind ihx ihf
  | cleanup _ hgiveUp ih => exact .cleanup ih hgiveUp
  | create o => exact .create o
  | intern text => exact .within_adapt _ (.intern text)
  | tupleOf items => exact .tupleOf items
  | builder b => exact .builder b
  | build f _ ih => exact .adapt BuildError.toRunError (f.raises_build ih)
  | buildValue source _ ih => exact .adapt BuildError.toRunError (raises_buildValue source ih)
  | bind call => exact .adapt BindError.toRunError (.bindCall call)

/-! ## The first refusal -/

/-- `Final raise x c sound`: the run of `x` on `c` makes requests of the tracker, of which all but
the last one are granted, and if that one is refused, the run ends with the error that the refusal
is `raise`d as. It does end if the state is `sound`.

The meter counts just the requests that are granted; and if all of them are, the run is the one that
there would be without limits. -/
def Final {ε α : Type} (raise : RunError → ε) (x : ExceptT ε ContextM α) (c : Context)
    (sound : Prop) : Prop :=
  ∃ log verdict, Asks x.run c log ∧ Verdict log verdict ∧
    (∀ e, verdict = some e → ∀ outcome c', x.run c = .ok outcome c' →
      outcome = .error (raise (.fatal ⟨.memoryError, some e.message⟩))) ∧
    (sound → ∃ outcome c', x.run c = .ok outcome c') ∧
    (after x.run c).heap.tracker.allocations? =
      c.heap.tracker.allocations?.map (· + log.countP (·.refusal?.isNone)) ∧
    (verdict = none → x.run (withLimits {} c) = mapState (withLimits {}) (x.run c))

lemma Raises.final {ε α : Type} (raise : RunError → ε) {x : ExceptT ε ContextM α} {sound : Prop}
    (hx : Raises (raise ∘ ResourceError.toRunError) x) (c : Context)
    (hsound : sound → ∃ outcome c', x.run c = .ok outcome c') : Final raise x c sound := by
  obtain ⟨log, verdict, hasks, hverdict, htells⟩ := hx c
  refine ⟨log, verdict, hasks, hverdict, fun e he => htells e he, hsound, hasks.allocations?, ?_⟩
  rintro rfl
  cases hverdict with
  | granted hlog => exact hasks.unlimited hlog

/-- **The first refusal is final.** Take a build from a format string or a format that was read
before, with any arguments whose conversions propagate errors; a tuple or a list that is built slot
by slot; a tuple of given objects; or a bind. Whatever runtime it is run on, of all the allocations
that the tracker is asked for while it runs, those of conversions and of calls within them among
them, only the last one may be refused. If it is, then the call does not return anything else than
this refusal, as a fatal memory error with its message, which is an instance of no class. -/
theorem refusal_final {args : List BuildArg}
    (hargs : ∀ arg ∈ args, ∀ a, arg = .convert (some a) → Propagates a) (c : Context) :
    (∀ source, Final .raised (buildValue source args) c
      (∃ kept, (∀ arg ∈ args, arg.Neutral kept) ∧ c.heap.Counted (stolen args + kept))) ∧
    (∀ f : Format, Final .raised (f.build args) c
      (∃ kept, (∀ arg ∈ args, arg.Neutral kept) ∧ c.heap.Counted (stolen args + kept) ∧
        ∃ source, Format.compile source = .ok f)) ∧
    (∀ b : SlotBuilder, Final id (within b.build) c
      (∃ others, c.heap.Counted (b.owned + others))) ∧
    (∀ items, Final id (within (tupleOf items)) c
      (∃ others, c.heap.Counted others ∧ ∀ r ∈ items, c.heap.isLive r = true)) ∧
    (∀ call : Call, Final .raised call.bind c True) ∧
    ∀ (e : ResourceError) (cls : ExcClass),
      (RunError.fatal ⟨.memoryError, some e.message⟩).isInstance cls = false := by
  have hraises : ∀ arg ∈ args, arg.Raises := fun arg harg a ha => (hargs arg harg a ha).raises
  refine ⟨fun source => (raises_buildValue source hraises).final _ c ?_,
    fun f => (f.raises_build hraises).final _ c ?_, fun b => Raises.final id (.builder b) c ?_,
    fun items => Raises.final id (.tupleOf items) c ?_,
    fun call => (Raises.bindCall call).final _ c ?_, fun e cls => e.isInstance_toRunError cls⟩
  · rintro ⟨kept, hneutral, hcounted⟩
    obtain ⟨outcome, c', hrun, -⟩ :=
      transfers_buildValue source hneutral c kept le_rfl hcounted
    exact ⟨outcome, c', hrun⟩
  · rintro ⟨kept, hneutral, hcounted, source, hf⟩
    obtain ⟨outcome, c', hrun, -⟩ :=
      Format.transfers_build hf hneutral c kept le_rfl hcounted
    exact ⟨outcome, c', hrun⟩
  · rintro ⟨others, hcounted⟩
    have hbuild : Transfers 0 b.build.run b.owned (ofOutcome (fun r => {r}) 0) := .builder b
    obtain ⟨outcome, h', hrun, -⟩ := hbuild c.heap others (Multiset.zero_le _) hcounted
    exact ⟨outcome, _, Context.onHeap_ok hrun⟩
  · rintro ⟨others, hcounted, hlive⟩
    obtain ⟨outcome, h', hrun⟩ := tupleOf_returns hcounted hlive
    exact ⟨outcome, _, Context.onHeap_ok hrun⟩
  · intro _
    obtain ⟨outcome, c', -, hrun⟩ := call.bind_course c
    exact ⟨_, _, hrun⟩

/-- The refusal strikes a build in a conversion of a build in a conversion. -/
theorem refusal_final_nested :
    let inner : Conversion := (buildValue "i" [.int 7]).adapt BuildError.toRunError
    let middle : Conversion :=
      (buildValue "O&" [.convert (some inner)]).adapt BuildError.toRunError
    let c : Context := .fresh (some ⟨some 0, none⟩) .silent
    ∃ log e c', Asks (buildValue "O&" [.convert (some middle)]).run c log ∧
      Verdict log (some e) ∧ e.message = "allocation limit exceeded: 1 > 0" ∧
      (buildValue "O&" [.convert (some middle)]).run c =
        .ok (.error (.raised (.fatal ⟨.memoryError, some e.message⟩))) c' := by
  intro inner middle c
  have hinner : Propagates inner := .buildValue "i" (fun arg harg a ha => by
    obtain rfl := List.mem_singleton.mp harg
    cases ha)
  have hmiddle : Propagates middle := .buildValue "O&" (fun arg harg a ha => by
    obtain rfl := List.mem_singleton.mp harg
    cases ha
    exact hinner)
  have hargs : ∀ arg ∈ [BuildArg.convert (some middle)], ∀ a, arg = .convert (some a) →
      Propagates a := by
    intro arg harg a ha
    obtain rfl := List.mem_singleton.mp harg
    cases ha
    exact hmiddle
  obtain ⟨log, verdict, hasks, hverdict, hraised, -, -, hunlimited⟩ :=
    (refusal_final hargs c).1 "O&"
  have hrun : ∃ c', (buildValue "O&" [.convert (some middle)]).run c =
      .ok (.error (.raised (.fatal ⟨.memoryError, some "allocation limit exceeded: 1 > 0"⟩))) c' :=
    ⟨_, rfl⟩
  obtain ⟨c', hrun⟩ := hrun
  cases verdict with
  | none =>
    have hwithout : ∃ r c', (buildValue "O&" [.convert (some middle)]).run (withLimits {} c) =
        .ok (.ok r) c' := ⟨_, _, rfl⟩
    obtain ⟨r, c'', hwithout⟩ := hwithout
    rw [hunlimited rfl, hrun] at hwithout
    cases hwithout
  | some e =>
    have hmessage := hraised e rfl _ c' hrun
    refine ⟨log, e, c', hasks, hverdict, ?_, hrun.trans (by rw [hmessage])⟩
    simpa using hmessage.symm

end NativeCall
