import NativeCall.Proofs.Bind.Course
import NativeCall.Proofs.Program

/-!
# Traces are complete

A program makes calls of the builder, of the binder and of entry points, and foreign code that runs
in the middle of one may make more. So the calls of a run form trees, and `Makes x c calls` says
which trees there are when `x` is run on `c`: a node is a call that came to its end, with what it
answered and what it taught the cache of names, and below it are the calls that were made while it
was under way. A call that is stopped has no node; those below it take its place.

What is reported is a walk through the trees. `inOrder` puts every call behind those below it, each
call reports the one event that its answer makes due (`Activation.completion`), and a bind that
taught the cache something reports that right before (`Activation.announcement`). The walk and the
trace agree on every run of a program (`trace_complete`).

That names are announced once for each declaration is a statement about the cache and not about the
trace: its entries are those that there were and one for each announcement (`Leaves.names`), and
what is announced is not in it yet.

## Why trees

A trace is a list, and it would be easy to say which list by following the run and noting what each
part reports. That would repeat the program. The trees are a description of what was done, in which
nothing is said of events: a call, its answer, and the calls within it. What should be reported is
then computed from the description, by functions that know nothing of runs (`reportsAll`), and can
be compared with the documentation of the tracer line by line.

The description cannot leave a call out. Each operation that reports has a constructor in `Makes`,
and heap operations, which report nothing, have one too; the constructors for sequences put the
lists of trees one behind the other. A program's run has a description (`Program.makes`), and every
description of it has the same reports, since both are what was added to the trace.

## Re-entrance

A conversion that a build runs is a program, and so is the function behind an entry point. The
induction is therefore on how the program is written, with the conversions of a build and the
function of an entry point as hypotheses. Calls that foreign code makes are in the trees wherever it
makes them, however deep.
-/

namespace NativeCall

open Heap

/-! ## Calls and what they report -/

/-- A call that came to its end. -/
inductive Activation where
  /-- A build from a format that was written as `source`. -/
  | build (source : String) (outcome : Except BuildError Ref) (nested : List Activation)
  /-- A bind of a call with `nkwargs` keywords; what the cache learned of the declaration, if it
  knew nothing before. -/
  | bind (call : Call) (nkwargs : Nat) (outcome : Except BindError BoundArgs)
    (learned : Option (List Ref))
  /-- A call of an entry point; `ok` unless it reported failure. -/
  | entry (family : Family) (ok : Bool) (nested : List Activation)

namespace Activation

/-- The event that is due when a call comes to its end. -/
def completion : Activation → TraceEvent
  | build source outcome _ => .build source outcome.isOk
  | bind call nkwargs outcome _ => call.completion nkwargs outcome
  | entry family ok _ => .entry family ok

/-- The event that is due right before, if the cache of names learned something. -/
def announcement : Activation → Option TraceEvent
  | bind call _ _ learned => learned.map (fun refs => .namesInterned call.spec.fname refs.length)
  | _ => none

/-- What a call reports, apart from what the calls below it report. -/
def reports (a : Activation) : List TraceEvent :=
  a.announcement.toList ++ [a.completion]

/-- The declaration that the cache learned the names of. -/
def learnedId : Activation → Option Nat
  | bind call _ _ learned => learned.map (fun _ => call.spec.id)
  | _ => none

mutual

/-- A call with all calls below it, each one behind those below it. -/
def inOrder : Activation → List Activation
  | build source outcome nested => inOrderAll nested ++ [build source outcome nested]
  | bind call nkwargs outcome learned => [bind call nkwargs outcome learned]
  | entry family ok nested => inOrderAll nested ++ [entry family ok nested]

def inOrderAll : List Activation → List Activation
  | [] => []
  | a :: rest => inOrder a ++ inOrderAll rest

end

lemma inOrderAll_append (calls calls' : List Activation) :
    inOrderAll (calls ++ calls') = inOrderAll calls ++ inOrderAll calls' := by
  induction calls with
  | nil => rfl
  | cons a calls ih => rw [List.cons_append, inOrderAll, inOrderAll, ih, List.append_assoc]

end Activation

open Activation

/-- What some calls report, one after the other. -/
def reportsAll (calls : List Activation) : List TraceEvent :=
  (inOrderAll calls).flatMap Activation.reports

/-- The declarations that some calls taught the cache the names of, in order. -/
def learnedIds (calls : List Activation) : List Nat :=
  (inOrderAll calls).filterMap Activation.learnedId

/-- What the cache of names learned of a declaration from one runtime to another. -/
def ParamSpec.learned (p : ParamSpec) (c c' : Context) : Option (List Ref) :=
  if c.names.get? p = none then c'.names.get? p else none

/-- A call that ended with this result, and the calls that were made in it. -/
def ended {α : Type} (result : EStateM.Result Misuse Context α)
    (call : α → List Activation → Activation) (nested : List Activation) : List Activation :=
  match result with
  | .ok answer _ => [call answer nested]
  | .error _ _ => nested

/-- `Makes x c calls`: in the run of `x` on `c`, these calls are made. -/
inductive Makes : {α : Type} → ContextM α → Context → List Activation → Prop where
  | ret {α : Type} (a : α) (c : Context) : Makes (pure a) c []
  | seq {α β : Type} {x : ContextM α} {f : α → ContextM β} {c c' : Context} {a : α}
      {calls calls' : List Activation} (hx : x c = .ok a c') (hfirst : Makes x c calls)
      (hrest : Makes (f a) c' calls') : Makes (x >>= f) c (calls ++ calls')
  /-- The first of two operations is stopped. -/
  | stop {α β : Type} {x : ContextM α} {f : α → ContextM β} {c c' : Context} {m : Misuse}
      {calls : List Activation} (hx : x c = .error m c') (hfirst : Makes x c calls) :
      Makes (x >>= f) c calls
  | look (c : Context) : Makes (getThe Context) c []
  | heap {α : Type} (x : HeapM α) (c : Context) : Makes (Context.onHeap x) c []
  | setError (e : RunError) (c : Context) : Makes (Context.setError e) c []
  | takeError (c : Context) : Makes Context.takeError c []
  | build {f : Format} {args : List BuildArg} {c : Context} {nested : List Activation}
      (hnested : Makes (f.run args).run c nested) :
      Makes (f.build args).run c (ended ((f.build args).run c) (.build f.source) nested)
  /-- The format string is well formed. -/
  | buildValue {source : String} {f : Format} {args : List BuildArg} {c : Context}
      {calls : List Activation} (hf : Format.compile source = .ok f)
      (hbuild : Makes (f.build args).run c calls) :
      Makes (NativeCall.buildValue source args).run c calls
  /-- The format string is not well formed, so no conversion is run. -/
  | malformed {source : String} {e : FormatError} {args : List BuildArg} {c : Context}
      (he : Format.compile source = .error e) :
      Makes (NativeCall.buildValue source args).run c
        (ended ((NativeCall.buildValue source args).run c) (.build source) [])
  | bind {call : Call} {c c' : Context} {outcome : Except BindError BoundArgs}
      (hrun : call.bind.run c = .ok outcome c') :
      Makes call.bind.run c
        [.bind call (call.keywordCount c.heap) outcome (call.spec.learned c c')]
  /-- The native function runs. -/
  | admitted {α : Type} {inv : Entry.Invocation α} {impl : ContextM α} {c : Context}
      {nested : List Activation} (ha : inv.Admits c.heap impl) (hnested : Makes impl c nested) :
      Makes inv.run c
        (ended (inv.run c) (fun answer => .entry inv.family (inv.succeeded answer)) nested)
  /-- The native function does not run. -/
  | rejected {α : Type} {inv : Entry.Invocation α} {c : Context} (hm : inv.Malformed c.heap) :
      Makes inv.run c [.entry inv.family false []]
  /-- What is no instance is not destroyed. -/
  | destroy {α : Type} (f : List UInt8 → α) (obj : Word) (c : Context) :
      Makes (Entry.within (Entry.destroy f obj)) c
        (ended (Entry.within (Entry.destroy f obj) c)
          (fun answer => .entry .destroy answer.isSome) [])

/-! ## What calls leave behind -/

lemma Tracer.events?_record {t : Tracer} {before : List TraceEvent} (ht : t.events? = some before)
    (e : TraceEvent) : (t.record e).events? = some (before ++ [e]) := by
  cases t with
  | recording reversed =>
    cases ht
    exact congrArg some List.reverse_cons
  | _ => cases ht

/-- The declarations that a cache knows the names of. -/
def NameCache.ids (cache : NameCache) : List Nat :=
  cache.entries.map Prod.fst

lemma NameCache.get?_eq_none {cache : NameCache} {p : ParamSpec} :
    cache.get? p = none ↔ p.id ∉ cache.ids := by
  rw [get?, List.lookup_eq_none_iff, ids, List.mem_map]
  constructor
  · rintro hall ⟨entry, hentry, hid⟩
    simpa [hid] using hall entry hentry
  · intro hid entry hentry
    exact bne_iff_ne.mpr (fun heq => hid ⟨entry, hentry, heq.symm⟩)

lemma ParamSpec.learned_of_same {p : ParamSpec} {c c' : Context} (hn : c'.names = c.names) :
    p.learned c c' = none := by
  rw [learned, hn]
  split
  · assumption
  · rfl

lemma ParamSpec.learned_of_new {p : ParamSpec} {c c' : Context} {refs : List Ref}
    (hnew : c.names.get? p = none) (hn : c'.names = ⟨(p.id, refs) :: c.names.entries⟩) :
    p.learned c c' = some refs := by
  rw [learned, if_pos hnew, hn, NameCache.get?_cons, if_pos rfl]

/-- Between two runtimes, the trace and the cache of names grew by what these calls report. -/
structure Leaves (calls : List Activation) (c c' : Context) : Prop where
  trace : ∀ before, c.tracer.events? = some before →
    c'.tracer.events? = some (before ++ reportsAll calls)
  names : c'.names.ids = (learnedIds calls).reverse ++ c.names.ids
  nodup : (learnedIds calls).Nodup
  new : ∀ id ∈ learnedIds calls, id ∉ c.names.ids

namespace Leaves

variable {calls calls' nested : List Activation} {a : Activation} {c c₁ c' : Context}

lemma of_same (ht : c'.tracer = c.tracer) (hn : c'.names = c.names) : Leaves [] c c' where
  trace := by
    intro before hbefore
    rw [ht, hbefore]
    exact congrArg some (List.append_nil before).symm
  names := by
    rw [hn]
    rfl
  nodup := List.nodup_nil
  new := fun id hid => absurd hid List.not_mem_nil

lemma reportsAll_append (calls calls' : List Activation) :
    reportsAll (calls ++ calls') = reportsAll calls ++ reportsAll calls' := by
  rw [reportsAll, inOrderAll_append, List.flatMap_append]
  rfl

lemma learnedIds_append (calls calls' : List Activation) :
    learnedIds (calls ++ calls') = learnedIds calls ++ learnedIds calls' := by
  rw [learnedIds, inOrderAll_append, List.filterMap_append]
  rfl

lemma trans (hl : Leaves calls c c₁) (hl' : Leaves calls' c₁ c') :
    Leaves (calls ++ calls') c c' where
  trace := by
    intro before hbefore
    rw [reportsAll_append, ← List.append_assoc]
    exact hl'.trace _ (hl.trace before hbefore)
  names := by
    rw [learnedIds_append, List.reverse_append, List.append_assoc, ← hl.names, hl'.names]
  nodup := by
    rw [learnedIds_append]
    -- What the second part announces is new to the cache, and what the first part announced is in
    -- it by then.
    refine hl.nodup.append hl'.nodup (fun id hid hid' => hl'.new id hid' ?_)
    rw [hl.names]
    exact List.mem_append_left _ (List.mem_reverse.mpr hid)
  new := by
    intro id hid
    rw [learnedIds_append] at hid
    rcases List.mem_append.mp hid with hid | hid
    · exact hl.new id hid
    · intro hmem
      refine hl'.new id hid ?_
      rw [hl.names]
      exact List.mem_append_right _ hmem

/-- A call that teaches the cache nothing itself reports that it ended. -/
lemma complete (hl : Leaves nested c c₁) (horder : inOrder a = inOrderAll nested ++ [a])
    (hannounced : a.announcement = none) (hlearned : a.learnedId = none)
    (ht : c'.tracer = c₁.tracer.record a.completion) (hn : c'.names = c₁.names) :
    Leaves [a] c c' := by
  have hflat : inOrderAll [a] = inOrderAll nested ++ [a] := by
    rw [inOrderAll, inOrderAll, List.append_nil, horder]
  have hids : learnedIds [a] = learnedIds nested := by
    rw [learnedIds, hflat, List.filterMap_append, List.filterMap_cons_none hlearned,
      List.filterMap_nil, List.append_nil]
    rfl
  have hreports : reportsAll [a] = reportsAll nested ++ [a.completion] := by
    rw [reportsAll, hflat, List.flatMap_append, List.flatMap_singleton, Activation.reports,
      hannounced]
    rfl
  refine ⟨fun before hbefore => ?_, ?_, hids ▸ hl.nodup, hids ▸ hl.new⟩
  · rw [ht, hreports, ← List.append_assoc]
    exact Tracer.events?_record (hl.trace before hbefore) _
  · rw [hn, hids, hl.names]

/-- A bind reports what its answer makes due, and right before that what the cache learned. -/
lemma bind {call : Call} {outcome : Except BindError BoundArgs}
    (hrun : call.bind.run c = .ok outcome c') :
    Leaves [.bind call (call.keywordCount c.heap) outcome (call.spec.learned c c')] c c' := by
  obtain ⟨answer, c₁, hc, hrun'⟩ := call.bind_course c
  obtain ⟨rfl, hc'⟩ := EStateM.Result.ok.inj (hrun'.symm.trans hrun)
  have hn : c'.names = c₁.names := by rw [← hc']
  have ht : c'.tracer = c₁.tracer.record
      (call.completion (call.keywordCount c.heap) (answer.map (·.1))) := by
    rw [← hc']
  -- Either the cache is the one from before, or it has one entry more, which was announced right
  -- before the answer.
  rcases hc.names_cases with ⟨hnames, htracer⟩ | ⟨refs, hnew, hnames, htracer⟩
  · rw [ParamSpec.learned_of_same (hn.trans hnames)]
    rw [htracer] at ht
    exact complete (of_same rfl rfl : Leaves [] c c) rfl rfl rfl ht (hn.trans hnames)
  · rw [ParamSpec.learned_of_new hnew (hn.trans hnames)]
    have hid : call.spec.id ∉ c.names.ids := NameCache.get?_eq_none.mp hnew
    refine ⟨fun before hbefore => ?_, ?_, List.nodup_singleton _, fun id hmem => ?_⟩
    · rw [ht, htracer]
      have hannounced := Tracer.events?_record hbefore
        (.namesInterned call.spec.fname refs.length)
      have hrecord := Tracer.events?_record hannounced
        (call.completion (call.keywordCount c.heap) (answer.map (·.1)))
      rwa [List.append_assoc] at hrecord
    · rw [hn, hnames]
      rfl
    · rwa [List.mem_singleton.mp hmem]

/-- An operation that reports an event and answers is a call that came to its end. -/
lemma reported {α β : Type} {x : ContextM α} {event : α → TraceEvent}
    {call : β → List Activation → Activation} (answer : α → β) (hl : Leaves nested c (after x c))
    (horder : ∀ b, inOrder (call b nested) = inOrderAll nested ++ [call b nested])
    (hannounced : ∀ b, (call b nested).announcement = none)
    (hlearned : ∀ b, (call b nested).learnedId = none)
    (hevent : ∀ a, (call (answer a) nested).completion = event a) :
    let y : ContextM β := do
      let a ← x
      Context.trace (event a)
      return answer a
    Leaves (ended (y c) call nested) c (after y c) := by
  intro y
  cases hx : x c with
  | ok a c₁ =>
    have hy : y c = .ok (answer a) { c₁ with tracer := c₁.tracer.record (event a) } := bind_ok hx
    rw [after_ok hx] at hl
    rw [hy, after_ok hy]
    refine hl.complete (horder _) (hannounced _) (hlearned _) ?_ rfl
    rw [hevent]
  | error m c₁ =>
    have hy : y c = .error m c₁ := bind_stopped hx
    rw [after_stopped hx] at hl
    rw [hy, after_stopped hy]
    exact hl

/-- A build reports at its end whether a value came of it. -/
lemma build {f : Format} {args : List BuildArg}
    (hl : Leaves nested c (after (f.run args).run c)) :
    Leaves (ended ((f.build args).run c) (.build f.source) nested) c
      (after (f.build args).run c) :=
  reported id hl (fun _ => rfl) (fun _ => rfl) (fun _ => rfl) (fun _ => rfl)

/-- A build from a string that is no format releases what it was given and reports failure. -/
lemma malformed {source : String} {e : FormatError} {args : List BuildArg}
    (he : Format.compile source = .error e) :
    Leaves (ended ((buildValue source args).run c) (.build source) []) c
      (after (buildValue source args).run c) := by
  have hsame : Leaves [] c (after (Context.onHeap (decRefs (args.flatMap BuildArg.owned))) c) := by
    rw [after_onHeap_eq]
    exact of_same rfl rfl
  rw [buildValue, he]
  exact reported (fun _ => Except.error (BuildError.format e)) hsame (fun _ => rfl)
    (fun _ => rfl) (fun _ => rfl) (fun _ => rfl)

/-- An entry point reports at its end how its native function answered. -/
lemma admitted {α : Type} {inv : Entry.Invocation α} {impl : ContextM α}
    (ha : inv.Admits c.heap impl) (hl : Leaves nested c (after impl c)) :
    Leaves (ended (inv.run c) (fun answer => .entry inv.family (inv.succeeded answer)) nested) c
      (after inv.run c) := by
  rw [after_eq (Entry.Invocation.run_of_admits ha), Entry.Invocation.run_of_admits ha]
  exact reported id hl (fun _ => rfl) (fun _ => rfl) (fun _ => rfl) (fun _ => rfl)

lemma rejected {α : Type} {inv : Entry.Invocation α} (hm : inv.Malformed c.heap) :
    Leaves [.entry inv.family false []] c (after inv.run c) := by
  rw [after_ok (Entry.Invocation.run_of_malformed hm)]
  exact (of_same rfl rfl : Leaves [] c c).complete rfl rfl rfl rfl rfl

lemma destroyed {α : Type} (f : List UInt8 → α) (obj : Word) (c : Context) :
    Leaves (ended (Entry.within (Entry.destroy f obj) c)
        (fun answer => .entry .destroy answer.isSome) []) c
      (after (Entry.within (Entry.destroy f obj)) c) := by
  obtain ⟨answer, c', hrun, hn, ht, -⟩ := Entry.destroy_run f obj c
  rw [hrun, after_ok hrun]
  exact (of_same rfl rfl : Leaves [] c c).complete rfl rfl rfl ht hn

end Leaves

/-- What calls report and teach the cache is all that a run leaves in the trace and the cache. -/
lemma Makes.leaves {α : Type} {x : ContextM α} {c : Context} {calls : List Activation}
    (hm : Makes x c calls) : Leaves calls c (after x c) := by
  induction hm with
  | ret | look | setError | takeError => exact .of_same rfl rfl
  -- The calls of the second part come behind those of the first, in the trees as in the trace.
  | seq hx _ _ ihx ihf =>
    rw [after_ok hx] at ihx
    rw [after_eq (bind_ok hx)]
    exact ihx.trans ihf
  | stop hx _ ihx =>
    rw [after_stopped hx] at ihx
    rwa [after_stopped (bind_stopped hx)]
  | heap x c =>
    rw [after_onHeap_eq]
    exact .of_same rfl rfl
  | build _ ih => exact .build ih
  | buildValue hf _ ih => rwa [NativeCall.buildValue, hf]
  | malformed he => exact .malformed he
  | bind hrun =>
    rw [after_ok hrun]
    exact .bind hrun
  | admitted ha _ ih => exact .admitted ha ih
  | rejected hm => exact .rejected hm
  | destroy f obj c => exact .destroyed f obj c

/-! ## Programs make calls -/

lemma makes_hosts : Hosts (fun _ x => ∀ c, ∃ calls, Makes x c calls) where
  ret a c := ⟨[], .ret a c⟩
  bind_of {α β x f} hx hf c := by
    obtain ⟨calls, hfirst⟩ := hx c
    cases hrun : x c with
    | ok a c' =>
      obtain ⟨calls', hrest⟩ := hf c a c' hrun c'
      exact ⟨calls ++ calls', .seq hrun hfirst hrest⟩
    | error m c' => exact ⟨calls, .stop hrun hfirst⟩
  look c := ⟨[], .look c⟩
  takeError c := ⟨[], .takeError c⟩
  onHeap {α x} _ c := ⟨[], .heap x c⟩

variable {allowed : Object → Object → Prop} {declared : Set ParamSpec}

lemma Program.makes {α : Type} {x : ContextM α} (hx : Program allowed declared α x) (c : Context) :
    ∃ calls, Makes x c calls := by
  induction hx generalizing c with
  | ret a => exact ⟨[], .ret a c⟩
  | seq _ _ ihx ihf => exact makes_hosts.bind_of ihx (fun c a c' hrun => ihf c a c' hrun) c
  | look => exact ⟨[], .look c⟩
  | heap => exact ⟨[], .heap _ c⟩
  | setError e => exact ⟨[], .setError e c⟩
  | takeError => exact ⟨[], .takeError c⟩
  | build f _ ih =>
    obtain ⟨nested, hnested⟩ := makes_hosts.run f (fun arg harg a ha => ih arg harg a ha) c
    exact ⟨_, .build hnested⟩
  | buildValue source _ ih =>
    cases hf : Format.compile source with
    | ok f =>
      obtain ⟨nested, hnested⟩ := makes_hosts.run f (fun arg harg a ha => ih arg harg a ha) c
      exact ⟨_, .buildValue hf (.build hnested)⟩
    | error e => exact ⟨_, .malformed hf⟩
  | bind call _ =>
    obtain ⟨outcome, c', -, hrun⟩ := call.bind_course c
    exact ⟨_, .bind hrun⟩
  | entry inv _ ih =>
    rcases Entry.Invocation.malformed_or_admits c.heap inv with hm | ⟨impl, ha⟩
    · exact ⟨_, .rejected hm⟩
    · obtain ⟨nested, hnested⟩ := ih c.heap impl ha c
      exact ⟨_, .admitted ha hnested⟩
  | destroy f obj => exact ⟨_, .destroy f obj c⟩

/-- **Traces are complete.** Run a program on a runtime. There are calls that it makes, and whatever
calls they are, the following holds. If the tracer keeps events, the run adds what the calls report:
each call one event when it comes to its end, behind all that the calls below it report, with the
answer that it gave, and right before that an announcement, if it is a bind that taught the cache
the names of its declaration. No declaration is announced twice, and those announced are the ones
that were not in the cache before the run and are in it afterwards. -/
theorem trace_complete {α : Type} {x : ContextM α} (hx : Program allowed declared α x)
    (c : Context) :
    (∃ calls, Makes x c calls) ∧
    ∀ calls, Makes x c calls →
      (∀ before, c.tracer.events? = some before →
        (after x c).tracer.events? = some (before ++ reportsAll calls)) ∧
      (learnedIds calls).Nodup ∧
      ∀ p : ParamSpec, p.id ∈ learnedIds calls ↔
        c.names.get? p = none ∧ (after x c).names.get? p ≠ none := by
  refine ⟨hx.makes c, fun calls hm => ?_⟩
  have hl := hm.leaves
  refine ⟨hl.trace, hl.nodup, fun p => ?_⟩
  rw [ne_eq, NameCache.get?_eq_none, NameCache.get?_eq_none, not_not, hl.names, List.mem_append,
    List.mem_reverse]
  constructor
  · intro hid
    exact ⟨hl.new p.id hid, .inl hid⟩
  · rintro ⟨hnew, hid | hold⟩
    · exact hid
    · exact absurd hold hnew

/-- An entry point's function builds a value, and the conversion binds a call twice, in vain. -/
theorem trace_complete_nested :
    ∃ (x : ContextM Word) (calls : List Activation),
      Program (fun _ _ => True) Set.univ Word x ∧ Makes x (.fresh none (.recording [])) calls ∧
      reportsAll calls =
        [.namesInterned (some "f") 2,
          .bindError (some "f") "f() missing required argument 'b' (pos 2)",
          .bindError (some "f") "f() missing required argument 'b' (pos 2)",
          .build "O&" true, .entry .varArgs true] ∧
      7 ∈ learnedIds calls := by
  let call : Call := ⟨⟨7, ["a", "b"], some "f"⟩, [trueRef], .none, ⟨1, 1, 1⟩⟩
  let action : Conversion := ExceptT.mk (do
    let _ ← call.bind.run
    let _ ← call.bind.run
    return .ok noneRef)
  let build : ContextM Word := do
    let outcome ← (buildValue "O&" [.convert (some action)]).run
    return outcome.toOption
  let inv : Entry.Invocation Word := .varArgs (fun _ _ => build) none (some emptyTupleRef)
  have hbind : Program (fun _ _ => True) Set.univ _ call.bind.run := .bind call (Set.mem_univ _)
  have hbuild : Program (fun _ _ => True) Set.univ Word build := by
    refine .seq (.buildValue "O&" (fun arg harg a ha => ?_)) (fun _ _ _ _ => .ret _)
    obtain rfl := List.mem_singleton.mp harg
    cases ha
    exact .seq hbind (fun _ _ _ _ => .seq hbind (fun _ _ _ _ => .ret _))
  have hx : Program (fun _ _ => True) Set.univ Word inv.run := by
    refine .entry inv (fun h impl ha => ?_)
    obtain ⟨items, -, rfl⟩ := ha
    exact hbuild
  obtain ⟨⟨calls, hm⟩, hcalls⟩ := trace_complete hx (.fresh none (.recording []))
  obtain ⟨htrace, -, hids⟩ := hcalls calls hm
  have hevents : (after inv.run (.fresh none (.recording []))).tracer.events? =
      some [.namesInterned (some "f") 2,
        .bindError (some "f") "f() missing required argument 'b' (pos 2)",
        .bindError (some "f") "f() missing required argument 'b' (pos 2)",
        .build "O&" true, .entry .varArgs true] := by
    decide +kernel
  have hnames : (after inv.run (.fresh none (.recording []))).names.get? call.spec ≠ none := by
    decide +kernel
  refine ⟨inv.run, calls, hx, hm, ?_, (hids call.spec).mpr ⟨rfl, hnames⟩⟩
  exact Option.some.inj ((htrace [] rfl).symm.trans hevents)

end NativeCall
