import NativeCall.Proofs.Bind.Binding
import NativeCall.Proofs.Heap.Effects
import NativeCall.Proofs.Heap.Steps

/-!
# Binding the same call again

Binding reads the heap, but the first time a call goes the long way it interns the names of the
declaration, and the tracker may refuse one of them in the middle. So a repeated call starts from
another runtime, and may find the names in the cache, or some of them interned.

It comes to the same answer nevertheless. Interning adds immortal strings in empty slots and leaves
everything else as it was (`Heap.AddsNames`), so the keywords of the call are what they were. Names
that were interned are found again, and a name that was refused is refused again, since nothing was
added by the refusal (`Heap.intern_mapM_again`).

## What is added

`Heap.AddsNames` says of two heaps that strings were added for certain texts and nothing else
happened to objects, both ways: what was there is unchanged, and what was not there is one of these
strings, interned now and not before. The tracker is left out, as it has paid for the strings. The
relation is closed under composition (`Heap.AddsNames.trans`), where a text may occur in both parts:
then it counts as added by the first one.

Which texts are added depends on the tracker. It is always a prefix of the declared names, without
those that have no name, so the prefix is quantified over and not computed.

## Repeating an operation

`Call.Repeats` puts a run and its repetition into one statement, and is proved for every operation
on the way up to `bind`. The repetition may begin with any tracer. It has to, since a bind reports
its answer at the end, and the repetition starts after that report. A statement that only spoke of
the same tracer could not be used by the next operation.

That a second refusal is the same error as the first holds because a refused charge leaves the
tracker as it was; so the second run asks for the same charge of the same tracker.
-/

namespace NativeCall

namespace Heap

variable {h h' h'' : Heap} {s : Holdings} {t : String} {texts texts' : List String}

/-! ## What interning adds -/

/-- `AddsNames h texts h'`: between `h` and `h'`, the strings of `texts` that were not interned
before were made, and nothing else happened to objects. -/
structure AddsNames (h : Heap) (texts : List String) (h' : Heap) : Prop where
  /-- No object was changed, counted anew or freed. -/
  kept : ∀ r e, h.slot? r = some e → h'.slot? r = some e
  /-- Every object that was made is an immortal string of a text that was not interned before. -/
  made : ∀ r e, h.slot? r = none → h'.slot? r = some e →
    ∃ t ∈ texts, h.internedRef? t = none ∧ h'.internedRef? t = some r ∧ e = ⟨1, true, .str t⟩
  /-- What was interned still is. -/
  known : ∀ t r, h.internedRef? t = some r → h'.internedRef? t = some r
  /-- All of the texts are interned. -/
  interned : ∀ t ∈ texts, ∃ r, h'.internedRef? t = some r
  /-- No other text got interned, and those that did have strings that were made. -/
  new : ∀ t r, h.internedRef? t = none → h'.internedRef? t = some r →
    t ∈ texts ∧ h.slot? r = none ∧ h'.slot? r = some ⟨1, true, .str t⟩
  levels : h'.levels = h.levels

namespace AddsNames

/-- Where the texts are interned, there is nothing to add. -/
lemma of_interned (hall : ∀ t ∈ texts, ∃ r, h.internedRef? t = some r) : AddsNames h texts h where
  kept := fun _ _ he => he
  made := by
    intro r e hnone hsome
    simp [hnone] at hsome
  known := fun _ _ ht => ht
  interned := hall
  new := by
    intro t r hnone hsome
    simp [hnone] at hsome
  levels := rfl

lemma refl (h : Heap) : AddsNames h [] h :=
  of_interned (by simp)

lemma toExtends (ha : AddsNames h texts h') : Extends h h' :=
  ⟨ha.kept, ha.known⟩

lemma slot?_eq_none (ha : AddsNames h texts h') {r : Ref} (hr : h'.slot? r = none) :
    h.slot? r = none := by
  by_contra hne
  obtain ⟨e, he⟩ := Option.ne_none_iff_exists'.mp hne
  simp [ha.kept r e he] at hr

lemma internedRef?_eq_none (ha : AddsNames h texts h') (ht : h'.internedRef? t = none) :
    h.internedRef? t = none := by
  by_contra hne
  obtain ⟨r, hr⟩ := Option.ne_none_iff_exists'.mp hne
  simp [ha.known t r hr] at ht

/-- What is there in the end was made at first, or was not there after that and was made then. -/
lemma trans (ha : AddsNames h texts h') (hb : AddsNames h' texts' h'') :
    AddsNames h (texts ++ texts') h'' where
  kept := fun r e he => hb.kept r e (ha.kept r e he)
  made := by
    intro r e hnone hsome
    cases hs : h'.slot? r with
    | none =>
      obtain ⟨t, ht, hnew, hr, he⟩ := hb.made r e hs hsome
      exact ⟨t, List.mem_append_right _ ht, ha.internedRef?_eq_none hnew, hr, he⟩
    | some f =>
      obtain rfl : f = e := Option.some.inj ((hb.kept r f hs).symm.trans hsome)
      obtain ⟨t, ht, hnew, hr, he⟩ := ha.made r f hnone hs
      exact ⟨t, List.mem_append_left _ ht, hnew, hb.known t r hr, he⟩
  known := fun t r ht => hb.known t r (ha.known t r ht)
  interned := by
    intro t ht
    rcases List.mem_append.mp ht with ht | ht
    · obtain ⟨r, hr⟩ := ha.interned t ht
      exact ⟨r, hb.known t r hr⟩
    · exact hb.interned t ht
  new := by
    intro t r hnone hsome
    cases hs : h'.internedRef? t with
    | none =>
      obtain ⟨ht, hr, he⟩ := hb.new t r hs hsome
      exact ⟨List.mem_append_right _ ht, ha.slot?_eq_none hr, he⟩
    | some q =>
      obtain rfl : q = r := Option.some.inj ((hb.known t q hs).symm.trans hsome)
      obtain ⟨ht, hr, he⟩ := ha.new t q hnone hs
      exact ⟨List.mem_append_left _ ht, hr, hb.kept q _ he⟩
  levels := hb.levels.trans ha.levels

end AddsNames

/-- A string that is placed and entered in the table of interned strings is all that is new. -/
lemma addsNames_of_placed {tracker : Tracker} {h₁ : Heap} {r : Ref}
    (hr : h.internedRef? t = none)
    (hp : Placed { h with tracker := tracker } ⟨1, true, .str t⟩ r h₁) :
    AddsNames h [t] { h₁ with interned := (t, r) :: h₁.interned } := by
  -- Both tables after placing the string, at every entry: from here on it is a question of which
  -- text and which slot is looked at.
  have htable : ∀ u, internedRef? { h₁ with interned := (t, r) :: h₁.interned } u =
      if u = t then some r else h.internedRef? u := by
    intro u
    rw [internedRef?_cons]
    unfold internedRef?
    rw [hp.interned]
  have hslot : ∀ q, slot? { h₁ with interned := (t, r) :: h₁.interned } q =
      if q = r then some ⟨1, true, .str t⟩ else h.slot? q := by
    intro q
    show h₁.slot? q = _
    rw [hp.slots, Function.update_apply]
    rfl
  have hempty : h.slot? r = none := hp.empty
  constructor
  case kept =>
    intro q e he
    have hne : q ≠ r := by
      rintro rfl
      simp [hempty] at he
    rw [hslot, if_neg hne, he]
  case made =>
    intro q e hnone hsome
    rw [hslot] at hsome
    by_cases hq : q = r
    · rw [if_pos hq] at hsome
      refine ⟨t, List.mem_singleton_self t, hr, ?_, (Option.some.inj hsome).symm⟩
      simp [htable, hq]
    · simp [hq, hnone] at hsome
  case known =>
    intro u q hu
    have hne : u ≠ t := by
      rintro rfl
      simp [hr] at hu
    rw [htable, if_neg hne, hu]
  case interned =>
    intro u hu
    exact ⟨r, by rw [htable, if_pos (List.mem_singleton.mp hu)]⟩
  case new =>
    intro u q hnone hsome
    rw [htable] at hsome
    by_cases hu : u = t
    · obtain rfl : r = q := by simpa [hu] using hsome
      exact ⟨List.mem_singleton.mpr hu, hempty, by simp [hslot, hu]⟩
    · simp [hu, hnone] at hsome
  case levels => exact hp.levels

lemma Interns.addsNames {r : Ref} (hi : Interns h t (.ok r) h') : AddsNames h [t] h' := by
  cases hi with
  | known hr => exact .of_interned (by simp [hr])
  | made hr hp => exact addsNames_of_placed hr hp

/-! ## Interning again -/

/-- Interning texts one after the other adds the strings of those that come before the first one
that is refused. Doing it again has the same outcome and adds nothing. -/
lemma intern_mapM_again (hs : h.Sound s) (texts : List String) :
    ∃ outcome h' added, (texts.mapM intern).run h = .ok outcome h' ∧ added <+: texts ∧
      AddsNames h added h' ∧ (texts.mapM intern).run h' = .ok outcome h' := by
  induction texts generalizing h with
  | nil => exact ⟨.ok [], h, [], rfl, List.prefix_rfl, .refl h, rfl⟩
  | cons t texts ih =>
    obtain ⟨first, h₁, hfirst, hi⟩ := intern_run hs.counted t
    obtain ⟨hs₁, -, hinterned⟩ := hi.sound hs
    cases first with
    | error e =>
      cases hi
      exact ⟨.error e, h, [], run_mapM_raised hfirst texts, List.nil_prefix, .refl h,
        run_mapM_raised hfirst texts⟩
    | ok r =>
      -- The first text stays interned while the others are, so the second run finds it.
      obtain ⟨rest, h₂, added, hrest, hprefix, hadds, hagain⟩ := ih hs₁
      have hknown := intern_known (hadds.known t r (hinterned r rfl))
      exact ⟨rest.map (r :: ·), h₂, t :: added, run_mapM_cons hfirst hrest,
        List.cons_prefix_cons.mpr ⟨rfl, hprefix⟩, hi.addsNames.trans hadds,
        run_mapM_cons hknown hagain⟩

end Heap

/-! ## The keywords of a repeated call -/

/-- Keywords that were read are read again where nothing was changed. -/
lemma Keywords.resolve_of_extends {h h' : Heap} {source : KeywordSource} {k : Keywords}
    (hk : resolve h source = .ok k) (he : h.Extends h') : resolve h' source = .ok k := by
  cases source with
  | none => exact hk
  | dict r =>
    rw [resolve] at hk ⊢
    cases hd : h.dict? r with
    | none =>
      rw [hd] at hk
      cases hk
    | some d =>
      rw [hd] at hk
      obtain ⟨e, hslot, ho⟩ := Heap.dict?_eq_some.mp hd
      rw [Heap.dict?_eq_some.mpr ⟨e, he.slot r e hslot, ho⟩]
      exact hk
  | names r values =>
    rw [resolve] at hk ⊢
    cases hi : h.tupleItems? r with
    | none =>
      simp only [hi] at hk
      cases hk
    | some items =>
      simp only [hi] at hk
      obtain ⟨e, hslot, ho⟩ := Heap.tupleItems?_eq_some.mp hi
      simp only [Heap.tupleItems?_eq_some.mpr ⟨e, he.slot r e hslot, ho⟩]
      exact hk

/-! ## Operations that can be repeated -/

namespace Call

variable {declared : Set ParamSpec} {c c' : Context} {s : Holdings} {p : ParamSpec} {call : Call}
  {l : Layout} {k : Keywords} {texts : List String}

/-- Between two runtimes, names of a declaration were interned and possibly learned, and nothing
else happened but what the tracer saw. -/
structure LearnsNames (c : Context) (p : ParamSpec) (texts : List String) (c' : Context) :
    Prop where
  heap : c.heap.AddsNames texts c'.heap
  pending : c'.pending = c.pending
  names : c'.names = c.names ∨ ∃ refs, c'.names = ⟨(p.id, refs) :: c.names.entries⟩

/-- Running an operation interns some first names of a declaration at most. Running it again,
whatever the tracer is, gives the same answer and changes nothing but the tracer. -/
def Repeats {α : Type} (x : ContextM α) (p : ParamSpec) (c : Context) : Prop :=
  ∃ answer c' texts, x c = .ok answer c' ∧ texts <+: p.keywords.dropWhile String.isEmpty ∧
    LearnsNames c p texts c' ∧
    ∀ t, ∃ t', x { c' with tracer := t } = .ok answer { c' with tracer := t' }

/-- An operation that changes nothing can be repeated. -/
lemma Repeats.of_run {α : Type} {x : ContextM α} {answer : α}
    (hrun : ∀ t, x { c with tracer := t } = .ok answer { c with tracer := t }) :
    Repeats x p c :=
  ⟨answer, c, [], hrun c.tracer, List.nil_prefix, ⟨.refl c.heap, rfl, .inl rfl⟩,
    fun t => ⟨t, hrun t⟩⟩

lemma keywordNames_of_layout (hl : p.layout = .ok l) :
    l.keywordNames = p.keywords.dropWhile String.isEmpty := by
  simp only [ParamSpec.layout] at hl
  split at hl
  · cases hl
  · cases hl
    rfl

lemma internAll_run_of_layout {h h' : Heap} {outcome : Except ResourceError (List Ref)}
    (hl : p.layout = .ok l) (hrun : (l.keywordNames.mapM Heap.intern).run h = .ok outcome h') :
    (NameCache.internAll p).run h = .ok (outcome.mapError ResourceError.toRunError) h' := by
  rw [NameCache.internAll]
  simp only [hl]
  exact run_adapt _ hrun

/-- The names of a declaration are found in the cache the next time, or those that were interned
before one was refused are found on the heap. -/
lemma repeats_internNames (hs : c.heap.Sound s) (p : ParamSpec) :
    Repeats (internNames p).run p c := by
  cases hknown : c.names.get? p with
  | some refs => exact .of_run (fun t => internNames_run_known hknown)
  | none =>
    cases hl : p.layout with
    | error e =>
      have hall : (NameCache.internAll p).run c.heap = .ok (.error e.toRunError) c.heap := by
        rw [NameCache.internAll]
        simp only [hl]
        rfl
      exact .of_run (fun t => internNames_run_refused hknown hall)
    | ok l =>
      obtain ⟨outcome, h', added, hrun, hprefix, hadds, hagain⟩ :=
        Heap.intern_mapM_again hs l.keywordNames
      rw [keywordNames_of_layout hl] at hprefix
      have hall := internAll_run_of_layout hl hrun
      cases outcome with
      | error e =>
        have hall' := internAll_run_of_layout hl hagain
        exact ⟨_, _, added, internNames_run_refused hknown hall, hprefix,
          ⟨hadds, rfl, .inl rfl⟩, fun t => ⟨t, internNames_run_refused hknown hall'⟩⟩
      | ok refs =>
        refine ⟨_, _, added, internNames_run_new hknown hall, hprefix,
          ⟨hadds, rfl, .inr ⟨refs, rfl⟩⟩, fun t => ⟨t, internNames_run_known ?_⟩⟩
        exact (c.names.get?_cons p p refs).trans (if_pos rfl)

/-! ## Binding again -/

lemma repeats_bindSlow (hs : c.heap.Sound s) (call : Call) (l : Layout) (k : Keywords) :
    Repeats (call.bindSlow l k).run call.spec c := by
  cases hc : call.countError? l k.count with
  | some e => exact .of_run (fun t => bindSlow_run_of_countError? hc)
  | none =>
    obtain ⟨outcome, c', texts, hnames, hprefix, hlearns, hagain⟩ :=
      repeats_internNames hs call.spec
    cases outcome with
    | error e =>
      refine ⟨_, c', texts, bindSlow_run_refused hc hnames, hprefix, hlearns, fun t => ?_⟩
      obtain ⟨t', hnames'⟩ := hagain t
      exact ⟨t', bindSlow_run_refused hc hnames'⟩
    | ok names =>
      refine ⟨_, c', texts, bindSlow_run hc hnames, hprefix, hlearns, fun t => ?_⟩
      obtain ⟨t', hnames'⟩ := hagain t
      exact ⟨t', bindSlow_run hc hnames'⟩

lemma repeats_bindUntraced (hs : c.heap.Sound s) (call : Call) :
    Repeats call.bindUntraced.run call.spec c := by
  cases hk : Keywords.resolve c.heap call.keywords with
  | error e => exact .of_run (fun t => bindUntraced_run_unread hk)
  | ok k =>
    cases hl : call.spec.layout with
    | error e => exact .of_run (fun t => bindUntraced_run_invalid hl hk)
    | ok l =>
      by_cases hfast : call.isFast k.count = true
      · exact .of_run (fun t => bindUntraced_run_fast hl hk hfast)
      · obtain ⟨answer, c', texts, hslow, hprefix, hlearns, hagain⟩ := repeats_bindSlow hs call l k
        have hk' := Keywords.resolve_of_extends hk hlearns.heap.toExtends
        refine ⟨_, c', texts, bindUntraced_run_slow hl hk hfast hslow, hprefix, hlearns,
          fun t => ?_⟩
        obtain ⟨t', hslow'⟩ := hagain t
        exact ⟨t', bindUntraced_run_slow hl hk' hfast hslow'⟩

/-- **Binding can be repeated.** In every reachable runtime and for every call, binding changes no
object and frees none, and it leaves the pending error and the depth budget alone; all that it adds
are immortal strings, for those texts of a prefix of the declared names that were not interned
before. Whether it succeeds or fails, doing it again gives the same answer and leaves the heap, with
what the tracker has counted, and the cache of names as they are. -/
theorem bind_again (hr : Reachable declared c s) (call : Call) :
    ∃ answer c' texts, call.bind.run c = .ok answer c' ∧
      texts <+: call.spec.keywords.dropWhile String.isEmpty ∧
      LearnsNames c call.spec texts c' ∧
      ∃ t, call.bind.run c' = .ok answer { c' with tracer := t } := by
  obtain ⟨outcome, c', texts, hrun, hprefix, hlearns, hagain⟩ :=
    repeats_bindUntraced hr.sound.heap call
  obtain ⟨t, hbind⟩ := bind_run hrun
  obtain ⟨t', hrun'⟩ := hagain t
  obtain ⟨t'', hbind'⟩ := bind_run hrun'
  exact ⟨_, _, texts, hbind, hprefix, ⟨hlearns.heap, hlearns.pending, hlearns.names⟩, t'', hbind'⟩

/-- Where one object more is allowed, the second name of a declaration is refused, and refused
again when the first one is interned. -/
theorem bind_again_refused : ∃ (c c' : Context) (e : RunError) (t : Tracer),
    Reachable ∅ c .empty ∧
      (bind ⟨⟨0, ["a", "b"], some "f"⟩, [], .none, ⟨1, 2, 0⟩⟩).run c =
        .ok (.error (.raised e)) c' ∧
      c'.heap.internedRef? "a" = some ⟨4⟩ ∧ c'.heap.internedRef? "b" = none ∧
      (bind ⟨⟨0, ["a", "b"], some "f"⟩, [], .none, ⟨1, 2, 0⟩⟩).run c' =
        .ok (.error (.raised e)) { c' with tracer := t } := by
  let f : Call := ⟨⟨0, ["a", "b"], some "f"⟩, [], .none, ⟨1, 2, 0⟩⟩
  have hfresh := Reachable.fresh (some ⟨some 1, none⟩) .silent
  obtain ⟨answer, c', texts, hrun, -, -, t, hagain⟩ := bind_again hfresh f
  have hrefused : f.bind.run (.fresh (some ⟨some 1, none⟩) .silent) =
      .ok (.error (.raised _)) _ := rfl
  cases hrefused.symm.trans hrun
  exact ⟨_, _, _, t, hfresh, hrun, rfl, rfl, hagain⟩

end Call

end NativeCall
