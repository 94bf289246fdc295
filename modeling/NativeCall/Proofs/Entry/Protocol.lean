import NativeCall.Entry.Point
import NativeCall.Proofs.Heap.Effects
import NativeCall.Proofs.Heap.Keys

/-!
# The protocol of entry points

The nine adapters share one protocol, and an `Invocation` is what they have in common: a native
function of some family with the words that are passed to it. Its sentinel, what it is to be called
with and when its answer counts as a success are read off the family, in tables that do not refer to
the adapters. That each adapter answers with the sentinel of the table is then something to prove.

Whether there is a context comes first. An adapter that has none answers at once, and one that has
one runs in it (`Invocation.call_eq`); so what remains to be described is a computation in a
context, `Invocation.run`.

`Malformed` says which words do not fit, and `Admits` which computation stands for the native
function where they do. Exactly one of them applies (`Invocation.malformed_or_admits`,
`Admits.not_malformed`, `Admits.unique`), the adapter rejects what is malformed
(`Invocation.run_of_malformed`) and otherwise does what is admitted and reports it
(`Invocation.run_of_admits`).

## How often the native function runs

A statement about one native function could not tell an adapter that runs it twice from one that
runs it once, if running it again happens to change nothing. Here the function is arbitrary, and the
statement is an equation for what the adapter does: the run of the function, in the context as it
is, and one event behind it. An adapter that ran the function twice, ran it in a changed context, or
did something to the heap on its own would not satisfy this for every function. For a function that
destroys there is nothing to run, since it only looks at bytes. What stands for it is to look at the
instance and to release it (the case of `destroy` in `Admits`), with the one difference that an
immortal instance stays.
-/

namespace NativeCall.Entry

/-! ## With a context -/

/-- An entry point that is called by code that has a context. -/
def within {α : Type} (call : EntryM α) : ContextM α := fun c =>
  match call (some c) with
  | .ok a context => .ok a (context.getD c)
  | .error m context => .error m (context.getD c)

lemma within_withContext {α : Type} (sentinel : α) (body : ContextM α) :
    within (withContext sentinel body) = body := by
  funext c
  cases hbody : body c <;> simp only [within, withContext, hbody, Option.getD_some]

/-! ## Invocations -/

/-- A native function with the words that it is called with, by the type of what the adapter answers
with. -/
inductive Invocation : Type → Type 1 where
  | noArgs (f : Word → ContextM Word) (self unused : Word) : Invocation Word
  | oneArg (f : Word → Word → ContextM Word) (self arg : Word) : Invocation Word
  | varArgs (f : Word → List Ref → ContextM Word) (self args : Word) : Invocation Word
  | keywords (f : Word → List Ref → Word → ContextM Word) (self args kw : Word) : Invocation Word
  | init (f : Word → List Ref → Word → ContextM Int) (self args kw : Word) : Invocation Int
  | destroy {α : Type} (f : List UInt8 → α) (obj : Word) : Invocation (Option α)
  | richCompare (f : Word → Word → CompareOp → ContextM Word) (self other : Word) (op : Int) :
    Invocation Word
  | getBuffer (f : Word → BufferView → Int → ContextM (BufferView × Int)) (self : Word)
    (view : Option BufferView) (flags : Int) : Invocation (Option BufferView × Int)
  | releaseBuffer (f : Word → BufferView → ContextM BufferView) (self : Word)
    (view : Option BufferView) : Invocation (Option BufferView)

/-- The word is not null, and the object that it stands for is `o`. -/
def Denotes (h : Heap) (w : Word) (o : Object) : Prop :=
  ∃ r ∈ w, h.object? r = some o

/-- The word is null or stands for a dict. -/
def DictOrNull (h : Heap) (w : Word) : Prop :=
  w = none ∨ ∃ d, Denotes h w (.dict d)

namespace Invocation

variable {β : Type}

def family : Invocation β → Family
  | noArgs .. => .noArgs
  | oneArg .. => .oneArg
  | varArgs .. => .varArgs
  | keywords .. => .keywords
  | init .. => .init
  | destroy .. => .destroy
  | richCompare .. => .richCompare
  | getBuffer .. => .getBuffer
  | releaseBuffer .. => .releaseBuffer

/-- The adapter of the family. -/
def call : Invocation β → EntryM β
  | noArgs f self unused => Entry.noArgs f self unused
  | oneArg f self arg => Entry.oneArg f self arg
  | varArgs f self args => Entry.varArgs f self args
  | keywords f self args kw => Entry.keywords f self args kw
  | init f self args kw => Entry.init f self args kw
  | destroy f obj => Entry.destroy f obj
  | richCompare f self other op => Entry.richCompare f self other op
  | getBuffer f self view flags => Entry.getBuffer f self view flags
  | releaseBuffer f self view => Entry.releaseBuffer f self view

/-- The adapter, called by code that has a context. -/
def run (inv : Invocation β) : ContextM β :=
  within inv.call

/-- The answer of a call that failed: null, a negative status, or nothing. A view that was passed is
not written to. -/
def sentinel : Invocation β → β
  | noArgs .. | oneArg .. | varArgs .. | keywords .. | richCompare .. => (none : Word)
  | init .. => failure
  | destroy .. => none
  | getBuffer _ _ view _ => (view, failure)
  | releaseBuffer _ _ view => view

/-- The answer reports success: a word that is not null, or a status that is not negative. Who
answers with nothing cannot fail. -/
def succeeded : Invocation β → β → Bool
  | noArgs .. | oneArg .. | varArgs .. | keywords .. | richCompare .. => Option.isSome
  | init .. => fun status => 0 ≤ status
  | getBuffer .. => fun answer => 0 ≤ answer.2
  | destroy .. | releaseBuffer .. => fun _ => true

/-- The words do not fit the family. -/
def Malformed (h : Heap) : Invocation β → Prop
  | noArgs .. | oneArg .. => False
  | varArgs _ _ args => ∀ items, ¬ Denotes h args (.tuple items)
  | keywords _ _ args kw | init _ _ args kw =>
    (∀ items, ¬ Denotes h args (.tuple items)) ∨ ¬ DictOrNull h kw
  | destroy _ obj => ∀ o, ¬ Denotes h obj (.native o)
  | richCompare _ _ _ op => op < 0 ∨ 5 < op
  | getBuffer _ _ view _ | releaseBuffer _ _ view => view = none

/-- What stands for the native function: the function itself, applied to the receiver and to what
its family hands over. A function that destroys sees the bytes of the instance, whose slot is empty
afterwards, unless the instance is immortal. -/
def Admits (h : Heap) : Invocation β → ContextM β → Prop
  | noArgs f self _, impl => impl = f self
  | oneArg f self arg, impl => impl = f self arg
  | varArgs f self args, impl => ∃ items, Denotes h args (.tuple items) ∧ impl = f self items
  | keywords f self args kw, impl => ∃ items, Denotes h args (.tuple items) ∧
      DictOrNull h kw ∧ impl = f self items kw
  | init f self args kw, impl => ∃ items, Denotes h args (.tuple items) ∧
      DictOrNull h kw ∧ impl = f self items kw
  | destroy f obj, impl => ∃ r ∈ obj, ∃ refs immortal o,
      h.slot? r = some ⟨refs, immortal, .native o⟩ ∧
      impl = fun c => .ok (some (f o.destructorView)) { c with
        heap := if immortal then c.heap else c.heap.vacate r (.native o) }
  | richCompare f self other op, impl => ∃ op' : CompareOp, (op'.toNumber : Int) = op ∧
      impl = f self other op'
  | getBuffer f self view flags, impl => ∃ v ∈ view,
      impl = (fun answer => (some answer.1, answer.2)) <$> f self v flags
  | releaseBuffer f self view, impl => ∃ v ∈ view, impl = some <$> f self v

/-- Does what stands for the native function, and reports the answer. -/
def report (inv : Invocation β) (impl : ContextM β) : ContextM β := do
  let answer ← impl
  Context.trace (.entry inv.family (inv.succeeded answer))
  return answer

end Invocation

/-! ## What fits -/

section Fits

variable {h : Heap} {w : Word} {r : Ref}

lemma Denotes.unique {o o' : Object} (ho : Denotes h w o) (ho' : Denotes h w o') : o = o' := by
  obtain ⟨r, rfl, hr⟩ := ho
  obtain ⟨q, hq, hr'⟩ := ho'
  cases hq
  exact Option.some.inj (hr.symm.trans hr')

lemma tupleItems?_eq {items : List Ref} :
    h.tupleItems? r = some items ↔ h.object? r = some (.tuple items) :=
  Heap.tupleItems?_eq_some.trans Heap.object?_eq_some.symm

lemma dict?_eq {d : Dict} : h.dict? r = some d ↔ h.object? r = some (.dict d) :=
  Heap.dict?_eq_some.trans Heap.object?_eq_some.symm

lemma native?_eq {o : NativeObject} : h.native? r = some o ↔ h.object? r = some (.native o) := by
  rw [Heap.native?]
  cases h.object? r with
  | none => simp
  | some o' => cases o' <;> simp [Object.native?]

lemma arguments?_eq_some {items : List Ref} :
    arguments? h w = some items ↔ Denotes h w (.tuple items) := by
  rw [arguments?, Option.bind_eq_some_iff]
  exact exists_congr (fun r => and_congr_right (fun _ => tupleItems?_eq))

lemma arguments?_eq_none : arguments? h w = none ↔ ∀ items, ¬ Denotes h w (.tuple items) := by
  rw [Option.eq_none_iff_forall_ne_some]
  exact forall_congr' (fun items => not_congr arguments?_eq_some)

/-- What `keywords?` finds in a word that is not null. -/
lemma keywords?_some : keywords? h (some r) = if (h.dict? r).isSome then some (some r) else none :=
  rfl

lemma keywords?_of_dictOrNull (hw : DictOrNull h w) : keywords? h w = some w := by
  rcases hw with rfl | ⟨d, r, rfl, hd⟩
  · rfl
  · rw [keywords?_some, dict?_eq.mpr hd]
    rfl

lemma keywords?_eq_none (hw : ¬ DictOrNull h w) : keywords? h w = none := by
  cases w with
  | none => exact absurd (.inl rfl) hw
  | some r =>
    rw [keywords?_some, if_neg]
    intro hdict
    obtain ⟨d, hd⟩ := Option.isSome_iff_exists.mp hdict
    exact hw (.inr ⟨d, r, rfl, dict?_eq.mp hd⟩)

lemma ofNumber?_eq_none {n : Int} (hn : n < 0 ∨ 5 < n) : CompareOp.ofNumber? n = none := by
  refine List.find?_eq_none.mpr (fun op _ hop => ?_)
  have hnumber : (op.toNumber : Int) = n := of_decide_eq_true hop
  have hle : op.toNumber ≤ 5 := by cases op <;> decide
  omega

lemma exists_toNumber {n : Int} (hn : ¬ (n < 0 ∨ 5 < n)) :
    ∃ op : CompareOp, (op.toNumber : Int) = n := by
  obtain ⟨op, hop⟩ : ∃ op : CompareOp, op.toNumber = n.toNat := by
    have hall : ∀ k < 6, ∃ op ∈ CompareOp.all, op.toNumber = k := by decide
    obtain ⟨op, -, hop⟩ := hall n.toNat (by omega)
    exact ⟨op, hop⟩
  exact ⟨op, by omega⟩

/-- An instance holds nothing, so that its storage is all there is to release. -/
lemma releaseStorage_native {refs : Nat} {immortal : Bool} {o : NativeObject}
    (hs : h.slot? r = some ⟨refs, immortal, .native o⟩) :
    Heap.releaseStorage r h =
      .ok () (if immortal then h else h.vacate r (.native o)) := by
  rw [Heap.releaseStorage, bind_ok (Heap.demand_of_slot? hs)]
  cases immortal with
  | true => rfl
  | false =>
    show Heap.drain [] (h.vacate r (.native o)) = _
    rw [Heap.drain]
    rfl

end Fits

namespace Invocation

variable {β : Type} {c : Context} {inv : Invocation β} {impl impl' : ContextM β}

/-! ## Either malformed or admitted -/

lemma Admits.not_malformed (ha : inv.Admits c.heap impl) : ¬ inv.Malformed c.heap := by
  cases inv with
  | noArgs f self unused | oneArg f self arg => exact id
  | varArgs f self args =>
    obtain ⟨items, hargs, -⟩ := ha
    exact fun hm => hm items hargs
  | keywords f self args kw | init f self args kw =>
    obtain ⟨items, hargs, hkw, -⟩ := ha
    exact fun hm => hm.elim (fun hm => hm items hargs) (fun hm => hm hkw)
  | destroy f obj =>
    obtain ⟨r, hr, refs, immortal, o, hs, -⟩ := ha
    exact fun hm => hm o ⟨r, hr, Heap.object?_eq_some.mpr ⟨_, hs, rfl⟩⟩
  | richCompare f self other op =>
    obtain ⟨op', rfl, -⟩ := ha
    intro hm
    have hnone := ofNumber?_eq_none hm
    rw [CompareOp.ofNumber?_toNumber] at hnone
    cases hnone
  | getBuffer f self view flags | releaseBuffer f self view =>
    obtain ⟨v, rfl, -⟩ := ha
    exact Option.some_ne_none v

lemma Admits.unique (ha : inv.Admits c.heap impl) (ha' : inv.Admits c.heap impl') :
    impl = impl' := by
  cases inv with
  | noArgs f self unused | oneArg f self arg => exact ha.trans ha'.symm
  | varArgs f self args =>
    obtain ⟨items, hargs, rfl⟩ := ha
    obtain ⟨items', hargs', rfl⟩ := ha'
    obtain rfl := Object.tuple.inj (hargs.unique hargs')
    rfl
  | keywords f self args kw | init f self args kw =>
    obtain ⟨items, hargs, -, rfl⟩ := ha
    obtain ⟨items', hargs', -, rfl⟩ := ha'
    obtain rfl := Object.tuple.inj (hargs.unique hargs')
    rfl
  | destroy f obj =>
    obtain ⟨r, rfl, refs, immortal, o, hs, rfl⟩ := ha
    obtain ⟨r', hr, refs', immortal', o', hs', rfl⟩ := ha'
    cases hr
    cases hs.symm.trans hs'
    rfl
  | richCompare f self other op =>
    obtain ⟨op, rfl, rfl⟩ := ha
    obtain ⟨op', hop, rfl⟩ := ha'
    have heq := CompareOp.ofNumber?_toNumber op'
    rw [hop, CompareOp.ofNumber?_toNumber] at heq
    rw [Option.some.inj heq]
  | getBuffer f self view flags | releaseBuffer f self view =>
    obtain ⟨v, rfl, rfl⟩ := ha
    obtain ⟨v', hv, rfl⟩ := ha'
    cases hv
    rfl

lemma malformed_or_admits (h : Heap) (inv : Invocation β) :
    inv.Malformed h ∨ ∃ impl, inv.Admits h impl := by
  have htuple : ∀ args, (∀ items, ¬ Denotes h args (.tuple items)) ∨
      ∃ items, Denotes h args (.tuple items) :=
    fun args => (Classical.em (∃ items, Denotes h args (.tuple items))).symm.imp_left
      not_exists.mp
  cases inv with
  | noArgs f self unused | oneArg f self arg => exact .inr ⟨_, rfl⟩
  | varArgs f self args =>
    exact (htuple args).imp id (fun ⟨items, hargs⟩ => ⟨_, items, hargs, rfl⟩)
  | keywords f self args kw | init f self args kw =>
    rcases htuple args with hargs | ⟨items, hargs⟩
    · exact .inl (.inl hargs)
    · exact (Classical.em (DictOrNull h kw)).symm.imp .inr
        (fun hkw => ⟨_, items, hargs, hkw, rfl⟩)
  | destroy f obj =>
    by_cases hobj : ∃ o, Denotes h obj (.native o)
    · obtain ⟨o, r, hr, ho⟩ := hobj
      obtain ⟨⟨refs, immortal, _⟩, hs, rfl⟩ := Option.map_eq_some_iff.mp ho
      exact .inr ⟨_, r, hr, refs, immortal, o, hs, rfl⟩
    · exact .inl (not_exists.mp hobj)
  | richCompare f self other op =>
    by_cases hop : op < 0 ∨ 5 < op
    · exact .inl hop
    · obtain ⟨op', hop'⟩ := exists_toNumber hop
      exact .inr ⟨_, op', hop', rfl⟩
  | getBuffer f self view flags | releaseBuffer f self view =>
    cases view with
    | none => exact .inl rfl
    | some v => exact .inr ⟨_, v, rfl, rfl⟩

/-! ## What the adapters do -/

lemma looked (c : Context) : (getThe Context : ContextM Context) c = .ok c c := rfl

/-- Malformed words leave everything but the pending error and the trace alone. -/
lemma run_of_malformed (hm : inv.Malformed c.heap) :
    inv.run c = .ok inv.sentinel { c with
      pending := some .badInternalCall
      tracer := c.tracer.record (.entry inv.family false) } := by
  cases inv with
  | noArgs f self unused | oneArg f self arg => exact hm.elim
  | varArgs f self args =>
    have hargs := arguments?_eq_none.mpr hm
    rw [run, call, Entry.varArgs, within_withContext, bind_ok (looked c), hargs]
    rfl
  | keywords f self args kw =>
    rw [run, call, Entry.keywords, within_withContext, bind_ok (looked c)]
    -- The adapter looks at both words before it decides, so it does not matter which of them is
    -- wrong.
    rcases hm with hargs | hkw
    · rw [arguments?_eq_none.mpr hargs]
      rfl
    · rw [keywords?_eq_none hkw]
      cases arguments? c.heap args <;> rfl
  | init f self args kw =>
    rw [run, call, Entry.init, within_withContext, bind_ok (looked c)]
    rcases hm with hargs | hkw
    · rw [arguments?_eq_none.mpr hargs]
      rfl
    · rw [keywords?_eq_none hkw]
      cases arguments? c.heap args <;> rfl
  | destroy f obj =>
    cases obj with
    | none => rfl
    | some r =>
      have hnative : c.heap.native? r = none :=
        Option.eq_none_iff_forall_ne_some.mpr (fun o ho => hm o ⟨r, rfl, native?_eq.mp ho⟩)
      rw [run, call, Entry.destroy, within_withContext, bind_ok (looked c), hnative]
      rfl
  | richCompare f self other op =>
    rw [run, call, Entry.richCompare, within_withContext, ofNumber?_eq_none hm]
    rfl
  | getBuffer f self view flags | releaseBuffer f self view =>
    cases hm
    rfl

lemma run_of_admits (ha : inv.Admits c.heap impl) : inv.run c = inv.report impl c := by
  cases inv with
  | noArgs f self unused | oneArg f self arg =>
    cases ha
    exact congrFun (within_withContext _ _) c
  | varArgs f self args =>
    obtain ⟨items, hargs, rfl⟩ := ha
    rw [run, call, Entry.varArgs, within_withContext, bind_ok (looked c),
      arguments?_eq_some.mpr hargs]
    rfl
  | keywords f self args kw =>
    obtain ⟨items, hargs, hkw, rfl⟩ := ha
    rw [run, call, Entry.keywords, within_withContext, bind_ok (looked c),
      arguments?_eq_some.mpr hargs, keywords?_of_dictOrNull hkw]
    rfl
  | init f self args kw =>
    obtain ⟨items, hargs, hkw, rfl⟩ := ha
    rw [run, call, Entry.init, within_withContext, bind_ok (looked c),
      arguments?_eq_some.mpr hargs, keywords?_of_dictOrNull hkw]
    rfl
  | destroy f obj =>
    obtain ⟨r, rfl, refs, immortal, o, hs, rfl⟩ := ha
    have hrelease : (Context.onHeap (Heap.releaseStorage r)) c = _ :=
      Context.onHeap_ok (releaseStorage_native hs)
    -- The function looks at the bytes of the instance, and after that its storage is released
    -- whatever its count is.
    have hnative := native?_eq.mpr (Heap.object?_eq_some.mpr ⟨_, hs, rfl⟩)
    rw [run, call, Entry.destroy, within_withContext, bind_ok (looked c), hnative]
    exact bind_ok hrelease
  | richCompare f self other op =>
    obtain ⟨op, rfl, rfl⟩ := ha
    rw [run, call, Entry.richCompare, within_withContext, CompareOp.ofNumber?_toNumber]
    rfl
  | getBuffer f self view flags | releaseBuffer f self view =>
    obtain ⟨v, rfl, rfl⟩ := ha
    rw [report, bind_map_left]
    exact congrFun (within_withContext _ _) c

/-- A run that reports, by the result of the function that it runs. -/
lemma report_eq (inv : Invocation β) (impl : ContextM β) (c : Context) :
    inv.report impl c =
      match impl c with
      | .ok answer c' => .ok answer { c' with
          tracer := c'.tracer.record (.entry inv.family (inv.succeeded answer)) }
      | .error m c' => .error m c' := by
  rw [report]
  cases himpl : impl c with
  | ok answer c' => exact bind_ok himpl
  | error m c' => exact bind_stopped himpl

/-- An adapter does nothing without a context, and runs in the one that it is given. -/
lemma call_eq (inv : Invocation β) : inv.call = withContext inv.sentinel inv.run := by
  have hbody : ∀ body : ContextM β, withContext inv.sentinel body =
      withContext inv.sentinel (within (withContext inv.sentinel body)) := by
    intro body
    rw [within_withContext]
  -- Each adapter names the sentinel of its family itself.
  cases inv <;> exact hbody _

lemma call_ok {answer : β} {c' : Context} (h : inv.run c = .ok answer c') :
    inv.call (some c) = .ok answer (some c') := by
  rw [call_eq, withContext, h]

end Invocation

/-- Destroying is never stopped. It reports whether it found an instance, and all that happens on
the heap is that the instance is released. -/
lemma destroy_run {α : Type} (f : List UInt8 → α) (obj : Word) (c : Context) :
    ∃ answer c', within (Entry.destroy f obj) c = .ok answer c' ∧ c'.names = c.names ∧
      c'.tracer = c.tracer.record (.entry .destroy answer.isSome) ∧
      ∃ log, Heap.History c.heap log c'.heap ∧ ∀ event ∈ log, event.isCounting = true := by
  rcases Invocation.malformed_or_admits c.heap (.destroy f obj) with hm | ⟨impl, ha⟩
  · exact ⟨_, _, Invocation.run_of_malformed hm, rfl, rfl, Heap.History.exists_nil rfl⟩
  · have hrun := (Invocation.run_of_admits ha).trans (Invocation.report_eq _ _ c)
    obtain ⟨r, -, refs, immortal, o, hs, rfl⟩ := ha
    have hrelease := Heap.Causes.releaseStorage r c.heap
    rw [after_ok (releaseStorage_native hs)] at hrelease
    exact ⟨_, _, hrun, rfl, rfl, hrelease⟩

/-- **Entry points keep their protocol.** Without a context an adapter answers with the sentinel of
its family, and there is nothing for it to change. With a context there are two cases. If its words
are malformed, no native function is admitted; the adapter answers with the sentinel, and the
context is the same but for the pending error, which is a bad internal call now, and one event that
reports a failure. If they are not malformed, there is one computation that stands for the native
function, and the adapter starts it in the context as it is. Where it answers, the adapter passes
the answer on and leaves the context as the function left it, but for one event behind those of the
function, which tells whether the answer reports success. Where it is stopped, so is the adapter. -/
theorem invoke_protocol {β : Type} (inv : Invocation β) :
    inv.call none = .ok inv.sentinel none ∧
    ∀ c : Context,
      (inv.Malformed c.heap ∧ (∀ impl, ¬ inv.Admits c.heap impl) ∧
        inv.call (some c) = .ok inv.sentinel (some { c with
          pending := some .badInternalCall
          tracer := c.tracer.record (.entry inv.family false) })) ∨
      (¬ inv.Malformed c.heap ∧ ∃ impl, inv.Admits c.heap impl ∧
        (∀ impl', inv.Admits c.heap impl' → impl' = impl) ∧
        inv.call (some c) =
          match impl c with
          | .ok answer c' => .ok answer (some { c' with
              tracer := c'.tracer.record (.entry inv.family (inv.succeeded answer)) })
          | .error m c' => .error m (some c')) := by
  rw [inv.call_eq]
  refine ⟨rfl, fun c => ?_⟩
  by_cases hm : inv.Malformed c.heap
  · refine .inl ⟨hm, fun impl ha => ha.not_malformed hm, ?_⟩
    rw [withContext, Invocation.run_of_malformed hm]
  · obtain ⟨impl, ha⟩ := (Invocation.malformed_or_admits c.heap inv).resolve_left hm
    refine .inr ⟨hm, impl, ha, fun impl' ha' => ha'.unique ha, ?_⟩
    rw [withContext, Invocation.run_of_admits ha, Invocation.report_eq]
    cases impl c <;> rfl

end NativeCall.Entry
