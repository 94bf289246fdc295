import NativeCall.Proofs.Heap.Limits

/-!
# Requests to the tracker

A request that is refused leaves no mark: the tracker is what it was before. So what a runtime was
asked for is not to be read off its state, and `Asks x c log` says it of the run of `x` on `c`: the
run is one operation after the other, each of which either charges an object, and is one request
then, or is quiet.

The log cannot leave anything out. The meter has counted one allocation for each request in it that
was granted, and no others (`Asks.allocations?`); and if the log shows no refusal, then the run
would have been the same without any limits (`Asks.unlimited`), so there was nothing that limits
could refuse.

An operation `Heeds` refusals if a refused request is the last one of its run, and the operation
says so when it ends. Operations that raise say so by the error that they raise (`Raises`), and do
not ask again as long as whoever gets the error hands it on, having released what it owns.

## How the log is pinned down

`Asks` is a relation between a run and a list, and nothing forces a derivation to call an operation
a charge. What prevents a charge from hiding is that the only other base case is `quiet`, and a
charge is not quiet: granted, it counts, and refused, it would not have been under other limits. So
whatever derivation is given for a run, the requests in it are the ones that were made. The two
theorems named above are this argument in a form that can be used.

## The rule for sequences

`Heeds.seq` is the one rule about two operations, and its last premise is the point of the whole
module. If the first operation has been refused something, it tells; and for a result that tells,
the second operation must be quiet and pass the message on. An error that is raised skips the rest
of a sequence, so for operations that raise the premise holds by itself (`Raises.bind`); a handler
has to be looked at, and one that gives up what it owns and raises again is quiet
(`Raises.cleanup`).
-/

namespace NativeCall

open Heap

/-! ## What a run asks for -/

/-- A question to a tracker: whether an object of this size may be allocated. -/
structure Request where
  tracker : Tracker
  size : Nat

/-- Why the tracker refuses, if it does. -/
def Request.refusal? (q : Request) : Option ResourceError :=
  match q.tracker.charge q.size with
  | .ok _ => none
  | .error e => some e

/-- `Asks x c log`: in the run of `x` on `c`, the tracker is asked for these allocations, in order.
-/
inductive Asks : {α : Type} → ContextM α → Context → List Request → Prop where
  /-- What has nothing to do with limits asks for nothing. -/
  | quiet {α : Type} {x : ContextM α} (hx : Quiet x) (c : Context) : Asks x c []
  | charge (o : Object) (c : Context) :
      Asks (Context.onHeap (charge o).run) c [⟨c.heap.tracker, o.size⟩]
  | seq {α β : Type} {x : ContextM α} {f : α → ContextM β} {c c' : Context} {a : α}
      {log log' : List Request} (hx : x c = .ok a c') (hfirst : Asks x c log)
      (hrest : Asks (f a) c' log') : Asks (x >>= f) c (log ++ log')
  /-- The first of two operations is stopped. -/
  | stop {α β : Type} {x : ContextM α} {f : α → ContextM β} {c c' : Context} {m : Misuse}
      {log : List Request} (hx : x c = .error m c') (hfirst : Asks x c log) :
      Asks (x >>= f) c log

lemma Tracker.allocations?_charge {t t' : Tracker} {n : Nat} (ht : t.charge n = .ok t') :
    t'.allocations? = t.allocations?.map (· + 1) := by
  cases t with
  | unlimited =>
    cases ht
    rfl
  | limited m =>
    rw [Tracker.charge] at ht
    cases hm : m.charge n with
    | error e =>
      rw [hm] at ht
      cases ht
    | ok m' =>
      rw [hm] at ht
      obtain ⟨-, -, rfl⟩ := Meter.charge_eq_ok.mp hm
      cases ht
      rfl

/-- What is granted under some limits is granted without any. -/
lemma Tracker.charge_unlimited {t t' : Tracker} {n : Nat} (ht : t.charge n = .ok t') :
    (t.withLimits {}).charge n = .ok (t'.withLimits {}) := by
  cases t with
  | unlimited =>
    cases ht
    rfl
  | limited m =>
    rw [Tracker.charge] at ht
    cases hm : m.charge n with
    | error e =>
      rw [hm] at ht
      cases ht
    | ok m' =>
      rw [hm] at ht
      obtain ⟨-, -, rfl⟩ := Meter.charge_eq_ok.mp hm
      cases ht
      rfl

namespace Asks

variable {α : Type} {x : ContextM α} {c : Context} {log : List Request}

lemma charge_refused {o : Object} {e : ResourceError}
    (he : (⟨c.heap.tracker, o.size⟩ : Request).refusal? = some e) :
    Context.onHeap (Heap.charge o).run c = .ok (.error e) c := by
  have hrun := charge_run o c.heap
  unfold Request.refusal? at he
  cases ht : c.heap.tracker.charge o.size with
  | ok t =>
    rw [ht] at he
    cases he
  | error e' =>
    rw [ht] at he hrun
    cases he
    exact Context.onHeap_ok hrun

lemma charge_granted {o : Object}
    (hgranted : (⟨c.heap.tracker, o.size⟩ : Request).refusal? = none) :
    ∃ t, c.heap.tracker.charge o.size = .ok t ∧ Context.onHeap (Heap.charge o).run c =
      .ok (.ok ()) { c with heap := { c.heap with tracker := t } } := by
  have hrun := charge_run o c.heap
  unfold Request.refusal? at hgranted
  cases ht : c.heap.tracker.charge o.size with
  | error e =>
    rw [ht] at hgranted
    cases hgranted
  | ok t =>
    rw [ht] at hrun
    exact ⟨t, rfl, Context.onHeap_ok hrun⟩

/-- The meter counts the requests that are granted. -/
lemma allocations? (ha : Asks x c log) : (after x c).heap.tracker.allocations? =
    c.heap.tracker.allocations?.map (· + log.countP (·.refusal?.isNone)) := by
  induction ha with
  | quiet hx c =>
    rw [show (after _ c).heap.tracker.allocations? = _ from hx.counts c]
    exact Option.map_id'.symm
  | charge o c =>
    cases hanswer : (⟨c.heap.tracker, o.size⟩ : Request).refusal? with
    | some e =>
      rw [after_ok (charge_refused hanswer), List.countP_singleton, hanswer]
      exact Option.map_id'.symm
    | none =>
      obtain ⟨t, ht, hrun⟩ := charge_granted hanswer
      rw [after_ok hrun, List.countP_singleton, hanswer]
      exact Tracker.allocations?_charge ht
  | seq hx hfirst hrest ihfirst ihrest =>
    rw [after_ok hx] at ihfirst
    rw [after_eq (bind_ok hx), ihrest, ihfirst, Option.map_map, List.countP_append]
    congr 1
    funext n
    exact Nat.add_assoc n _ _
  | stop hx hfirst ih =>
    rw [after_stopped hx] at ih
    rw [after_stopped (bind_stopped hx), ih]

/-- A run in which nothing is refused is the same without limits. -/
lemma unlimited (ha : Asks x c log) (hgranted : ∀ q ∈ log, q.refusal? = none) :
    x (withLimits {} c) = mapState (withLimits {}) (x c) := by
  induction ha with
  | quiet hx c => exact hx.same {} c
  | charge o c =>
    obtain ⟨t, ht, hrun⟩ := charge_granted (hgranted _ (List.mem_singleton_self _))
    have hrun' := charge_run o (withLimits {} c).heap
    rw [show (withLimits {} c).heap.tracker.charge o.size = _ from
      Tracker.charge_unlimited ht] at hrun'
    rw [hrun, Context.onHeap_ok hrun']
    rfl
  | seq hx hfirst hrest ihfirst ihrest =>
    have hfirst' := ihfirst (fun q hq => hgranted q (List.mem_append_left _ hq))
    rw [hx] at hfirst'
    rw [bind_ok hx, bind_ok hfirst']
    exact ihrest (fun q hq => hgranted q (List.mem_append_right _ hq))
  | stop hx hfirst ih =>
    have hfirst' := ih hgranted
    rw [hx] at hfirst'
    rw [bind_stopped hx, bind_stopped hfirst']
    rfl

end Asks

/-! ## Refusals that are final -/

/-- The verdict on a run from its requests: all of them were granted, or all but the last one, which
was refused. Any other log has no verdict. -/
inductive Verdict : List Request → Option ResourceError → Prop where
  | granted {log : List Request} (hlog : ∀ q ∈ log, q.refusal? = none) : Verdict log none
  | refused {log : List Request} {q : Request} {e : ResourceError}
      (hlog : ∀ q ∈ log, q.refusal? = none) (hq : q.refusal? = some e) :
      Verdict (log ++ [q]) (some e)

lemma Verdict.single {q : Request} {e : ResourceError} (hq : q.refusal? = some e) :
    Verdict [q] (some e) := by
  rw [← List.nil_append [q]]
  exact .refused nofun hq

lemma Verdict.append {log log' : List Request} {verdict : Option ResourceError}
    (hlog : Verdict log none) (hlog' : Verdict log' verdict) : Verdict (log ++ log') verdict := by
  cases hlog with
  | granted hfirst =>
    cases hlog' with
    | granted hrest => exact .granted (List.forall_mem_append.mpr ⟨hfirst, hrest⟩)
    | refused hrest hq =>
      rw [← List.append_assoc]
      exact .refused (List.forall_mem_append.mpr ⟨hfirst, hrest⟩) hq

/-- A refused request is the last one of a run of `x`, and the result of `x` tells of it if `x`
ends. -/
def Heeds {α : Type} (tells : ResourceError → α → Prop) (x : ContextM α) : Prop :=
  ∀ c, ∃ log verdict, Asks x c log ∧ Verdict log verdict ∧
    ∀ e ∈ verdict, ∀ a c', x c = .ok a c' → tells e a

namespace Heeds

variable {α β : Type} {tells : ResourceError → α → Prop} {tells' : ResourceError → β → Prop}

lemma of_quiet {x : ContextM α} (hx : Quiet x) : Heeds tells x :=
  fun c => ⟨[], none, .quiet hx c, .granted nofun, nofun⟩

lemma charge (o : Object) :
    Heeds (fun e outcome => outcome = .error e) (Context.onHeap (Heap.charge o).run) := by
  intro c
  cases hanswer : (⟨c.heap.tracker, o.size⟩ : Request).refusal? with
  | none =>
    refine ⟨_, none, .charge o c, .granted (fun q hq => ?_), nofun⟩
    rw [List.mem_singleton.mp hq, hanswer]
  | some e =>
    refine ⟨_, some e, .charge o c, .single hanswer, ?_⟩
    rintro _ ⟨⟩ outcome c' hrun
    rw [Asks.charge_refused hanswer] at hrun
    cases hrun
    rfl

/-- One operation and then another. If the first one tells of a refusal, then nothing is asked any
more, and the second one tells of the same refusal. -/
lemma seq {x : ContextM α} {f : α → ContextM β} (hx : Heeds tells x)
    (hf : ∀ c a c', x c = .ok a c' → Heeds tells' (f a))
    (hend : ∀ e a, tells e a → Quiet (f a) ∧ ∀ c b c', f a c = .ok b c' → tells' e b) :
    Heeds tells' (x >>= f) := by
  intro c
  obtain ⟨log, verdict, hasks, hverdict, htells⟩ := hx c
  cases hrun : x c with
  | error m c' =>
    refine ⟨log, verdict, .stop hrun hasks, hverdict, fun e _ b c'' hrun' => ?_⟩
    rw [bind_stopped hrun] at hrun'
    cases hrun'
  | ok a c' =>
    cases verdict with
    | none =>
      obtain ⟨log', verdict, hasks', hverdict', htells'⟩ := hf c a c' hrun c'
      refine ⟨log ++ log', verdict, .seq hrun hasks hasks', hverdict.append hverdict', ?_⟩
      rw [bind_ok hrun]
      exact htells'
    -- The second operation is quiet, so the request that was refused is the last one of the
    -- sequence too.
    | some e =>
      obtain ⟨hquiet, htells'⟩ := hend e a (htells e rfl a c' hrun)
      have hasks' : Asks (x >>= f) c (log ++ []) := .seq hrun hasks (.quiet hquiet c')
      rw [List.append_nil] at hasks'
      refine ⟨log, some e, hasks', hverdict, ?_⟩
      rintro _ ⟨⟩ b c'' hrun'
      rw [bind_ok hrun] at hrun'
      exact htells' c' b c'' hrun'

/-- What is done next is quiet, and hands on what it is told of a refusal. -/
lemma quietly {x : ContextM α} {f : α → ContextM β} (hx : Heeds tells x) (hf : ∀ a, Quiet (f a))
    (htells : ∀ e a, tells e a → ∀ c b c', f a c = .ok b c' → tells' e b) :
    Heeds tells' (x >>= f) :=
  seq hx (fun _ a _ _ => of_quiet (hf a)) (fun e a hea => ⟨hf a, htells e a hea⟩)

/-- What is done depends on the runtime, but not on the limits. -/
lemma look {f : Context → ContextM α} (hsame : ∀ limits c, f (withLimits limits c) = f c)
    (hf : ∀ c, Heeds tells (f c)) : Heeds tells (getThe Context >>= f) := by
  -- Looking at the whole runtime is not quiet, but looking what to do next is.
  let choose : ContextM (ContextM α) := fun c => .ok (f c) c
  have hchoose : Quiet choose := .of_look hsame
  intro c
  obtain ⟨log, verdict, hasks, hverdict, htells⟩ := hf c c
  have hasks' : Asks (choose >>= fun next => next) c ([] ++ log) :=
    .seq rfl (.quiet hchoose c) hasks
  exact ⟨log, verdict, hasks', hverdict, htells⟩

end Heeds

/-! ## Operations that raise -/

/-- A refused request is the last one of a run of `x`, and `x` raises it if it ends. -/
def Raises {ε α : Type} (raise : ResourceError → ε) (x : ExceptT ε ContextM α) : Prop :=
  Heeds (fun e outcome => outcome = .error (raise e)) x.run

/-- An operation on the heap that may raise, as one of a runtime. -/
def within {ε α : Type} (x : ExceptT ε HeapM α) : ExceptT ε ContextM α :=
  ExceptT.mk (Context.onHeap x.run)

section Within

variable {ε ε' α β : Type}

lemma within_bind (x : ExceptT ε HeapM α) (f : α → ExceptT ε HeapM β) :
    within (x >>= f) = within x >>= fun a => within (f a) := by
  have hrun : Context.onHeap (x >>= f).run = _ := Context.onHeap_bind x.run _
  refine ExceptT.ext (hrun.trans ?_)
  show _ = Context.onHeap x.run >>= _
  congr 1
  funext outcome
  cases outcome <;> rfl

lemma within_lift (x : HeapM α) :
    within (ExceptT.lift x : ExceptT ε HeapM α) = ExceptT.lift (Context.onHeap x) :=
  ExceptT.ext (Context.onHeap_bind x _)

lemma within_tryCatch (x : ExceptT ε HeapM α) (g : ε → ExceptT ε HeapM α) :
    within (tryCatch x g) = tryCatch (within x) (fun e => within (g e)) := by
  have hrun : Context.onHeap (tryCatch x g).run = _ := Context.onHeap_bind x.run _
  refine ExceptT.ext (hrun.trans ?_)
  show _ = Context.onHeap x.run >>= _
  congr 1
  funext outcome
  cases outcome <;> rfl

lemma within_adapt (g : ε → ε') (x : ExceptT ε HeapM α) :
    within (ExceptT.adapt g x) = ExceptT.adapt g (within x) := by
  refine ExceptT.ext ?_
  funext c
  show Context.onHeap (EStateM.map (Except.mapError g) x.run) c =
    EStateM.map (Except.mapError g) (Context.onHeap x.run) c
  rw [EStateM.map]
  cases hx : x.run c.heap <;> simp [Context.onHeap, EStateM.map, hx]

end Within

namespace Raises

variable {ε ε' α β : Type} {raise : ResourceError → ε}

lemma of_quiet {x : ExceptT ε ContextM α} (hx : Quiet x.run) : Raises raise x :=
  Heeds.of_quiet hx

lemma bind {x : ExceptT ε ContextM α} {f : α → ExceptT ε ContextM β} (hx : Raises raise x)
    (hf : ∀ a, Raises raise (f a)) : Raises raise (x >>= f) := by
  refine Heeds.seq (x := x.run) hx (fun _ outcome _ _ => ?_) ?_
  · cases outcome with
    | ok a => exact hf a
    | error e => exact Heeds.of_quiet (Quiet.sequential.ret _)
  · rintro e _ rfl
    refine ⟨Quiet.sequential.ret _, fun c outcome c' hrun => ?_⟩
    cases hrun
    rfl

lemma lift_bind {x : ContextM α} {f : α → ExceptT ε ContextM β} (hx : Quiet x)
    (hf : ∀ a, Raises raise (f a)) : Raises raise (ExceptT.lift x >>= f) :=
  bind (of_quiet (Quiet.sequential.run_lift hx)) hf

lemma adapt (g : ε → ε') {x : ExceptT ε ContextM α} (hx : Raises raise x) :
    Raises (g ∘ raise) (ExceptT.adapt g x) := by
  show Heeds _ (Except.mapError g <$> x.run)
  rw [map_eq_pure_bind]
  refine Heeds.quietly (x := x.run) hx (fun _ => Quiet.sequential.ret _) ?_
  rintro e _ rfl c outcome c' hrun
  cases hrun
  rfl

/-- What was under way is given up, and the error is handed on. -/
lemma cleanup {x : ExceptT ε ContextM α} {giveUp : ε → ContextM Unit} (hx : Raises raise x)
    (hgiveUp : ∀ e, Quiet (giveUp e)) :
    Raises raise (tryCatch x (fun e => do ExceptT.lift (giveUp e); throw e)) := by
  refine Heeds.quietly (x := x.run) hx (fun outcome => ?_) ?_
  · cases outcome with
    | ok a => exact Quiet.sequential.ret _
    | error e =>
      exact Quiet.sequential.run_lift_bind (hgiveUp e) (fun _ => Quiet.sequential.run_throw e)
  · rintro e _ rfl c outcome c' hrun
    obtain ⟨-, c₁, -, hthrow⟩ := run_lift_bind_inv hrun
    cases hthrow
    rfl

lemma look {f : Context → ExceptT ε ContextM α}
    (hsame : ∀ limits c, f (withLimits limits c) = f c) (hf : ∀ c, Raises raise (f c)) :
    Raises raise ((ExceptT.lift (getThe Context) : ExceptT ε ContextM Context) >>= f) :=
  Heeds.look (f := fun c => (f c).run) hsame hf

/-! Operations on the heap, as operations of the runtime, follow the same rules. -/

lemma within_quiet {x : ExceptT ε HeapM α} (hx : Quiet x.run) : Raises raise (within x) :=
  of_quiet (.onHeap hx)

lemma within_bind {x : ExceptT ε HeapM α} {f : α → ExceptT ε HeapM β}
    (hx : Raises raise (within x)) (hf : ∀ a, Raises raise (within (f a))) :
    Raises raise (within (x >>= f)) := by
  rw [NativeCall.within_bind]
  exact bind hx hf

lemma within_lift_bind {x : HeapM α} {f : α → ExceptT ε HeapM β} (hx : Quiet x)
    (hf : ∀ a, Raises raise (within (f a))) : Raises raise (within (ExceptT.lift x >>= f)) :=
  within_bind (within_quiet (Quiet.sequential.run_lift hx)) hf

lemma within_look {f : Heap → ExceptT ε HeapM α}
    (hsame : ∀ limits h, f (withLimits limits h) = f h) (hf : ∀ h, Raises raise (within (f h))) :
    Raises raise (within ((ExceptT.lift (getThe Heap) : ExceptT ε HeapM Heap) >>= f)) :=
  look (f := fun c => within (f c.heap)) (fun limits c => congrArg within (hsame limits c.heap))
    (fun c => hf c.heap)

lemma within_adapt (g : ε → ε') {x : ExceptT ε HeapM α} (hx : Raises raise (within x)) :
    Raises (g ∘ raise) (within (ExceptT.adapt g x)) := by
  rw [NativeCall.within_adapt]
  exact adapt g hx

lemma within_cleanup {x : ExceptT ε HeapM α} {giveUp : ε → HeapM Unit}
    (hx : Raises raise (within x)) (hgiveUp : ∀ e, Quiet (giveUp e)) :
    Raises raise (within (tryCatch x (fun e => do ExceptT.lift (giveUp e); throw e))) := by
  rw [within_tryCatch]
  simp only [NativeCall.within_bind, within_lift]
  exact cleanup hx (fun e => .onHeap (hgiveUp e))

lemma within_mapM {f : β → ExceptT ε HeapM α} (hf : ∀ b, Raises raise (within (f b)))
    (bs : List β) : Raises raise (within (bs.mapM f)) := by
  induction bs with
  | nil => exact within_quiet (Quiet.sequential.run_pure _)
  | cons b bs ih =>
    rw [List.mapM_cons]
    refine within_bind (hf b) (fun a => within_bind ih (fun _ => ?_))
    exact within_quiet (Quiet.sequential.run_pure _)

end Raises

end NativeCall
