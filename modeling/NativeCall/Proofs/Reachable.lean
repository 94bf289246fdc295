import NativeCall.Bind.Basic
import NativeCall.Proofs.Heap.Client

/-!
# Reachable runtimes

`Reachable declared c s` says that a program with the declarations `declared` can bring a fresh
runtime to the context `c`, with the holdings `s` left to it: by declaring functions, by steps on
the heap, by interning the names of its declarations, and by setting the pending error or the tracer
to anything.

In a reachable runtime the heap is sound, and the cache has the interned strings of the names of
those declarations that it knows (`Context.Sound`). It is right about a declaration since the entry
was made from the same one: a declaration has an identity that no earlier one has.

The identity is a number, and the cache knows nothing else of a declaration. A declaration that
reuses a number would be given the names of another one. In the program a number is drawn from a
counter that only goes up, for each declaration; here that is the hypothesis of `declare`, and
`Set.InjOn` in `Context.Sound` is what comes of it.

Binding does not appear among the steps. What a bind does to a runtime, beside its answer, is to
intern names, and a client that has bound a call is in the same position as one that asked for the
names. Builds do not appear either: all that they do to the heap are steps on the heap.
-/

namespace NativeCall

/-- What a program can bring a runtime to. -/
inductive Reachable : Set ParamSpec → Context → Holdings → Prop where
  | fresh (limits : Option Limits) (tracer : Tracer) :
      Reachable ∅ (.fresh limits tracer) .empty
  /-- It declares a function. -/
  | declare {declared : Set ParamSpec} {c : Context} {s : Holdings} {p : ParamSpec}
      (hr : Reachable declared c s) (hnew : ∀ q ∈ declared, q.id ≠ p.id) :
      Reachable (insert p declared) c s
  /-- It uses the heap. -/
  | heap {declared : Set ParamSpec} {c : Context} {s s' : Holdings} {h' : Heap}
      (hr : Reachable declared c s) (hstep : Heap.Step c.heap s h' s') :
      Reachable declared { c with heap := h' } s'
  /-- It has the names of a declaration interned, or tries to. -/
  | names {declared : Set ParamSpec} {c c' : Context} {s : Holdings} {p : ParamSpec}
      {outcome : Except RunError (List Ref)} (hr : Reachable declared c s) (hp : p ∈ declared)
      (hrun : (Call.internNames p).run c = .ok outcome c') : Reachable declared c' s
  /-- An error becomes pending or is taken away. -/
  | pending {declared : Set ParamSpec} {c : Context} {s : Holdings} (hr : Reachable declared c s)
      (e : Option RunError) : Reachable declared { c with pending := e } s
  | tracer {declared : Set ParamSpec} {c : Context} {s : Holdings} (hr : Reachable declared c s)
      (t : Tracer) : Reachable declared { c with tracer := t } s

/-! ## Interned names -/

namespace Heap

/-- References to the interned strings of some texts. -/
def InternedAs (h : Heap) (refs : List Ref) (texts : List String) : Prop :=
  List.Forall₂ (fun r t => h.internedRef? t = some r) refs texts

variable {h h' : Heap} {s : Holdings} {refs : List Ref} {texts : List String}

lemma InternedAs.mono (hn : h.InternedAs refs texts)
    (hi : ∀ t r, h.internedRef? t = some r → h'.internedRef? t = some r) :
    h'.InternedAs refs texts :=
  hn.imp (fun r t ht => hi t r ht)

/-- Interning texts one after the other ends with all of them interned, unless one is refused. -/
lemma intern_mapM (hs : h.Sound s) (texts : List String) :
    ∃ outcome h', (texts.mapM intern).run h = .ok outcome h' ∧ h'.Sound s ∧ Extends h h' ∧
      ∀ refs, outcome = .ok refs → h'.InternedAs refs texts := by
  induction texts generalizing h with
  | nil =>
    refine ⟨.ok [], h, rfl, hs, .refl h, fun refs hrefs => ?_⟩
    cases hrefs
    exact .nil
  | cons t texts ih =>
    obtain ⟨first, h₁, hrun₁, hi⟩ := intern_run hs.counted t
    obtain ⟨hs₁, hext₁, hfirst⟩ := hi.sound hs
    cases first with
    | error e =>
      refine ⟨.error e, h₁, run_mapM_raised hrun₁ texts, hs₁, hext₁, fun refs hrefs => ?_⟩
      cases hrefs
    | ok r =>
      obtain ⟨rest, h₂, hrun₂, hs₂, hext₂, hrest⟩ := ih hs₁
      refine ⟨rest.map (r :: ·), h₂, run_mapM_cons hrun₁ hrun₂, hs₂, hext₁.trans hext₂,
        fun refs hrefs => ?_⟩
      cases rest with
      | error e => cases hrefs
      | ok rs =>
        cases hrefs
        exact .cons (hext₂.interned t r (hfirst r rfl)) (hrest rs rfl)

end Heap

/-- The names of a declaration on a heap. -/
def ParamSpec.InternedAs (p : ParamSpec) (h : Heap) (refs : List Ref) : Prop :=
  ∃ l, p.layout = .ok l ∧ h.InternedAs refs l.keywordNames

lemma internAll_run {h : Heap} {s : Holdings} (hs : h.Sound s) (p : ParamSpec) :
    ∃ outcome h', (NameCache.internAll p).run h = .ok outcome h' ∧ h'.Sound s ∧
      h.Extends h' ∧ ∀ refs, outcome = .ok refs → p.InternedAs h' refs := by
  cases hl : p.layout with
  | error e =>
    refine ⟨.error e.toRunError, h, ?_, hs, .refl h, fun refs hrefs => ?_⟩
    · rw [NameCache.internAll]
      simp only [hl]
      rfl
    · cases hrefs
  | ok l =>
    obtain ⟨outcome, h', hrun, hs', hext, hrefs⟩ := Heap.intern_mapM hs l.keywordNames
    refine ⟨outcome.mapError ResourceError.toRunError, h', ?_, hs', hext, fun refs hok => ?_⟩
    · rw [NameCache.internAll]
      simp only [hl]
      exact run_adapt _ hrun
    · cases outcome with
      | error e => cases hok
      | ok rs =>
        cases hok
        exact ⟨l, hl, hrefs refs rfl⟩

/-! ## Soundness -/

/-- What holds of a reachable runtime. -/
structure Context.Sound (declared : Set ParamSpec) (c : Context) (s : Holdings) : Prop where
  heap : c.heap.Sound s
  ids : Set.InjOn ParamSpec.id declared
  names : ∀ p refs, c.names.get? p = some refs →
    ∃ q ∈ declared, q.id = p.id ∧ q.InternedAs c.heap refs

variable {declared : Set ParamSpec} {c c' : Context} {s : Holdings} {p : ParamSpec}

lemma Context.Sound.internedAs (hs : c.Sound declared s) (hp : p ∈ declared) {refs : List Ref}
    (hrefs : c.names.get? p = some refs) : p.InternedAs c.heap refs := by
  obtain ⟨q, hq, hid, hnames⟩ := hs.names p refs hrefs
  rwa [hs.ids hq hp hid] at hnames

/-- The cache stays right on a heap that keeps what was interned. -/
lemma Context.Sound.onHeap {s' : Holdings} {h' : Heap} (hs : c.Sound declared s)
    (hs' : h'.Sound s') (hi : ∀ t r, c.heap.internedRef? t = some r → h'.internedRef? t = some r) :
    ({ c with heap := h' } : Context).Sound declared s' := by
  refine ⟨hs', hs.ids, fun p refs hrefs => ?_⟩
  obtain ⟨q, hq, hid, l, hl, hnames⟩ := hs.names p refs hrefs
  exact ⟨q, hq, hid, l, hl, hnames.mono hi⟩

lemma NameCache.get?_cons (cache : NameCache) (p q : ParamSpec) (refs : List Ref) :
    NameCache.get? ⟨(p.id, refs) :: cache.entries⟩ q =
      if q.id = p.id then some refs else cache.get? q := by
  by_cases hq : q.id = p.id
  · rw [if_pos hq, NameCache.get?, hq, List.lookup_cons_self]
  · rw [if_neg hq, NameCache.get?, List.lookup_cons, beq_false_of_ne hq]
    rfl

/-- The cache stays right when it learns the names of a declaration. -/
lemma Context.Sound.learn {refs : List Ref} (hs : c.Sound declared s) (hp : p ∈ declared)
    (hnames : p.InternedAs c.heap refs) (t : Tracer) :
    ({ c with names := ⟨(p.id, refs) :: c.names.entries⟩, tracer := t } : Context).Sound
      declared s := by
  refine ⟨hs.heap, hs.ids, fun q refs' hrefs => ?_⟩
  have hlookup : (if q.id = p.id then some refs else c.names.get? q) = some refs' :=
    (c.names.get?_cons p q refs).symm.trans hrefs
  -- The new entry is found for declarations with its number, and the entry was made from one of
  -- these.
  by_cases hqp : q.id = p.id
  · rw [if_pos hqp] at hlookup
    obtain rfl := Option.some.inj hlookup
    exact ⟨p, hp, hqp.symm, hnames⟩
  · rw [if_neg hqp] at hlookup
    exact hs.names q refs' hlookup

namespace Call

/-- The runtime after a heap operation that the names of a declaration needed. -/
lemma lift_run {α : Type} {x : RunM α} {outcome : Except RunError α} {h' : Heap}
    (hrun : x.run c.heap = .ok outcome h') :
    (liftM x : ExceptT RunError ContextM α).run c = .ok outcome { c with heap := h' } :=
  Context.onHeap_ok hrun

lemma internNames_run_known {refs : List Ref} (hknown : c.names.get? p = some refs) :
    (internNames p).run c = .ok (.ok refs) c := by
  have hnames : (c.names.names p).run c.heap = .ok (.ok (refs, c.names)) c.heap := by
    rw [NameCache.names]
    simp only [hknown]
    rfl
  refine (run_bind_ok (run_getThe c)).trans ((run_bind_ok (lift_run hnames)).trans ?_)
  simp only [hknown, Option.isNone_some]
  rfl

lemma internNames_run_refused {e : RunError} {h' : Heap} (hnew : c.names.get? p = none)
    (hall : (NameCache.internAll p).run c.heap = .ok (.error e) h') :
    (internNames p).run c = .ok (.error e) { c with heap := h' } := by
  have hnames : (c.names.names p).run c.heap = .ok (.error e) h' := by
    rw [NameCache.names]
    simp only [hnew]
    exact run_bind_raised hall
  exact (run_bind_ok (run_getThe c)).trans (run_bind_raised (lift_run hnames))

lemma internNames_run_new {refs : List Ref} {h' : Heap} (hnew : c.names.get? p = none)
    (hall : (NameCache.internAll p).run c.heap = .ok (.ok refs) h') :
    (internNames p).run c = .ok (.ok refs)
      { c with
        heap := h'
        names := ⟨(p.id, refs) :: c.names.entries⟩
        tracer := c.tracer.record (.namesInterned p.fname refs.length) } := by
  have hnames : (c.names.names p).run c.heap =
      .ok (.ok (refs, ⟨(p.id, refs) :: c.names.entries⟩)) h' := by
    rw [NameCache.names]
    simp only [hnew]
    exact run_bind_ok hall
  refine (run_bind_ok (run_getThe c)).trans ((run_bind_ok (lift_run hnames)).trans ?_)
  simp only [hnew, Option.isNone_none]
  rfl

lemma internNames_run (hs : c.Sound declared s) (hp : p ∈ declared) :
    ∃ outcome c', (internNames p).run c = .ok outcome c' ∧ c'.Sound declared s ∧
      c.heap.Extends c'.heap ∧ ∀ refs, outcome = .ok refs → p.InternedAs c'.heap refs := by
  cases hknown : c.names.get? p with
  | some refs =>
    refine ⟨.ok refs, c, internNames_run_known hknown, hs, .refl c.heap, fun refs' hok => ?_⟩
    cases hok
    exact hs.internedAs hp hknown
  | none =>
    obtain ⟨outcome, h', hall, hs', hext, hrefs⟩ := internAll_run hs.heap p
    have hkept : ({ c with heap := h' } : Context).Sound declared s := hs.onHeap hs' hext.interned
    cases outcome with
    | error e =>
      refine ⟨.error e, _, internNames_run_refused hknown hall, hkept, hext, fun refs hok => ?_⟩
      cases hok
    | ok refs =>
      have hnames : p.InternedAs h' refs := hrefs refs rfl
      refine ⟨.ok refs, _, internNames_run_new hknown hall, hkept.learn hp hnames _, hext,
        fun refs' hok => ?_⟩
      cases hok
      exact hnames

end Call

/-- A new declaration is not in the cache. -/
lemma Context.Sound.declare (hs : c.Sound declared s) (hnew : ∀ q ∈ declared, q.id ≠ p.id) :
    c.Sound (insert p declared) s := by
  refine ⟨hs.heap, ?_, fun q refs hrefs => ?_⟩
  · intro q hq q' hq' hid
    rcases Set.mem_insert_iff.mp hq with hqp | hold
    · rcases Set.mem_insert_iff.mp hq' with hqp' | hold'
      · exact hqp.trans hqp'.symm
      · rw [hqp] at hid
        exact absurd hid.symm (hnew q' hold')
    · rcases Set.mem_insert_iff.mp hq' with hqp' | hold'
      · rw [hqp'] at hid
        exact absurd hid (hnew q hold)
      · exact hs.ids hold hold' hid
  · obtain ⟨q', hq', hid, hnames⟩ := hs.names q refs hrefs
    exact ⟨q', Set.mem_insert_of_mem p hq', hid, hnames⟩

/-- **Reachable runtimes are sound.** -/
theorem Reachable.sound (hr : Reachable declared c s) : c.Sound declared s := by
  induction hr with
  | fresh limits tracer =>
    refine ⟨Heap.sound_fresh _, Set.injOn_empty _, fun p refs hrefs => ?_⟩
    cases hrefs
  | declare hr hnew ih => exact ih.declare hnew
  -- Interned strings are not taken out of the table, so the cache stays right through any step on
  -- the heap.
  | heap hr hstep ih =>
    have hheap := ih.heap.step hstep
    exact ih.onHeap hheap (fun t r ht => Heap.internedRef?_of_step ih.heap hstep ht)
  | names hr hp hrun ih =>
    obtain ⟨outcome, c', hrun', hs, -⟩ := Call.internNames_run ih hp
    cases hrun'.symm.trans hrun
    exact hs
  | pending hr e ih => exact ⟨ih.heap, ih.ids, ih.names⟩
  | tracer hr t ih => exact ⟨ih.heap, ih.ids, ih.names⟩

end NativeCall
