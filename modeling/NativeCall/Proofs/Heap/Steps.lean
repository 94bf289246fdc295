import NativeCall.Proofs.Heap.Client
import NativeCall.Proofs.Heap.Keys

/-!
# What a step of a client does

A client has many ways to use a heap, but they come to little. To the objects of the heap a step
does one of three things: it adds none, it leaves all that there are, or it changes one in its slot
(`step_cases`). The dicts that are known after a step were known before, up to one that is new and
empty or that a pair was put into (`knows_of_step`). Both are said here once, so that an invariant
of all that a client does need not go through the ways of doing it.

A dict is known if it is on the heap or in the hands of the client, and a step may move it from one
to the other. That is the point of the second statement: whether an entry is filed right is asked of
a dict wherever it is, and the answer does not change when it is handed over, taken apart or put in
the place of another one. What remains are the two ways for an entry to appear, neither of which
involves the heap's slots.
-/

namespace NativeCall

namespace Heap

variable {h h' : Heap} {s s' : Holdings} {r : Ref} {d : Dict} {o o' : Object}

/-! ## Objects -/

/-- The objects that are changed in place. -/
def Changeable (o : Object) : Prop :=
  Mutable o ∨ ∃ d, o = .dict d

lemma object?_of_slot? {f : Entry} (hs : h.slot? r = some f) : h.object? r = some f.object :=
  object?_eq_some.mpr ⟨f, hs, rfl⟩

lemma NothingNew.object?_eq (hn : NothingNew h h') (ho : h.object? r = some o)
    (ho' : h'.object? r = some o') : o' = o := by
  obtain ⟨f', hf', rfl⟩ := object?_eq_some.mp ho'
  obtain ⟨f, hf, hsame⟩ := hn.object r f' hf'
  rw [object?_of_slot? hf] at ho
  exact hsame.trans (Option.some.inj ho)

lemma Extends.object?_eq (he : Extends h h') (ho : h.object? r = some o)
    (ho' : h'.object? r = some o') : o' = o := by
  obtain ⟨f, hf, rfl⟩ := object?_eq_some.mp ho
  rw [object?_of_slot? (he.slot r f hf)] at ho'
  exact (Option.some.inj ho').symm

lemma Placed.extends {f : Entry} {q : Ref} (hp : Placed h f q h') : Extends h h' := by
  refine ⟨fun _ _ hs => hp.slot?_of_slot? hs, fun t q' hq => ?_⟩
  rwa [internedRef?, hp.interned]

lemma extends_of_allocate {owned : Multiset Ref} (hc : h.Counted owned)
    (hrun : (allocate o).run h = .ok (.ok r) h') : Extends h h' := by
  rcases allocate_inv hc hrun with ⟨_, _, -, hp⟩ | ⟨_, he, -⟩
  · exact ⟨hp.extends.slot, hp.extends.interned⟩
  · cases he

/-- What a client does to the objects of a heap: none is new, or all stay, or one that can be
changed is changed in its slot. -/
lemma step_cases (hs : h.Sound s) (hstep : Step h s h' s') :
    NothingNew h h' ∨ Extends h h' ∨
      ∃ q f o', h.slot? q = some f ∧ h' = h.setSlot q (some { f with object := o' }) ∧
        Changeable f.object ∧ Changeable o' := by
  cases hstep with
  | retain hrun => exact .inl (.incRef hrun)
  | release hrun => exact .inl (.drain hrun)
  | destroy he hlast hrun =>
    rw [releaseStorage_eq_decRef he hlast] at hrun
    exact .inl (.drain hrun)
  | allocate ho hrun => exact .inr (.inl (extends_of_allocate hs.counted hrun))
  | finishDict hrun => exact .inr (.inl (extends_of_allocate hs.counted hrun))
  | refuse hrun =>
    rcases allocate_inv hs.counted hrun with ⟨_, _, hq, -⟩ | ⟨_, -, hdrop⟩
    · cases hq
    · exact .inl (.decRefs hdrop)
  | @intern _ _ text outcome hrun =>
    -- Interning a text may find it, make it or be refused; in each case what was there stays.
    obtain ⟨outcome', h₁, hrun', hi⟩ := intern_run hs.counted text
    cases hrun'.symm.trans hrun
    exact .inr (.inl (hi.sound hs).2.1)
  | setItem hrun => exact .inl (hs.nothingNew_setItem hrun)
  | rejectItem hrun => exact .inl (hs.nothingNew_setItem hrun)
  | newDict => exact .inl (.refl h)
  | openDict => exact .inl (.refl h)
  | update ho hm hm' ht hrun =>
    obtain ⟨f, hf, rfl⟩ := update_inv hrun
    obtain rfl := Option.some.inj ((object?_of_slot? hf).symm.trans ho)
    exact .inr (.inr ⟨_, f, _, hf, rfl, .inl hm, .inl hm'⟩)
  | swapDict hd hrun =>
    obtain ⟨f, hf, rfl⟩ := update_inv hrun
    obtain ⟨f', hf', hdict⟩ := dict?_eq_some.mp hd
    obtain rfl := Option.some.inj (hf.symm.trans hf')
    exact .inr (.inr ⟨_, f, _, hf, rfl, .inr ⟨_, hdict⟩, .inr ⟨_, rfl⟩⟩)
  | levels n => exact .inr (.inl ⟨fun _ _ hq => hq, fun _ _ hq => hq⟩)

/-! ## Dicts -/

/-- A dict that is known where nothing is new was known before. -/
lemma NothingNew.knows (hn : NothingNew h h') (hd : Holdings.Knows s' h' d)
    (hdicts : ∀ d ∈ s'.dicts, d ∈ s.dicts) : s.Knows h d := by
  rcases hd with ⟨r, hr⟩ | hmem
  · exact .inl ⟨r, hn.dict? hr⟩
  · exact .inr (hdicts d hmem)

/-- A dict that is known where an object was placed was known before, or is that object. -/
lemma knows_of_allocate {owned : Multiset Ref} (hc : h.Counted owned)
    (hrun : (allocate o).run h = .ok (.ok r) h') (hd : Holdings.Knows s' h' d)
    (hdicts : ∀ d ∈ s'.dicts, d ∈ s.dicts) : s.Knows h d ∨ o = .dict d := by
  rcases allocate_inv hc hrun with ⟨q, t, -, hp⟩ | ⟨_, he, -⟩
  · rcases hd with ⟨q', hq⟩ | hmem
    · exact (hp.dict? hq).imp_left (fun hq => .inl ⟨q', hq⟩)
    · exact .inl (.inr (hdicts d hmem))
  · cases he

/-- A dict that is known after a step was known before, or is new and empty, or comes from one that
was known by putting a pair into it. -/
lemma knows_of_step (hs : h.Sound s) (hstep : Step h s h' s') (hd : s'.Knows h' d) :
    s.Knows h d ∨ d = .empty ∨
      ∃ key value refs dicts d₀, s = ⟨key ::ₘ value ::ₘ refs, d₀ ::ₘ dicts⟩ ∧
        (setItem d₀ key value).run h = .ok (.ok d) h' := by
  cases hstep with
  | retain hrun => exact .inl ((NothingNew.incRef hrun).knows hd (fun _ hd => hd))
  | release hrun => exact .inl ((NothingNew.drain hrun).knows hd (fun _ hd => hd))
  | destroy he hlast hrun =>
    rw [releaseStorage_eq_decRef he hlast] at hrun
    exact .inl ((NothingNew.drain hrun).knows hd (fun _ hd => hd))
  | allocate ho hrun =>
    rcases knows_of_allocate hs.counted hrun hd (fun _ hd => hd) with hd | rfl
    · exact .inl hd
    · cases ho
  | finishDict hrun =>
    rcases knows_of_allocate (s := ⟨_, _ ::ₘ _⟩) hs.counted hrun hd
      (fun _ hd => Multiset.mem_cons_of_mem hd) with hd | hnew
    · exact .inl hd
    · cases hnew
      exact .inl (.inr (Multiset.mem_cons_self _ _))
  | refuse hrun =>
    rcases allocate_inv hs.counted hrun with ⟨_, _, hq, -⟩ | ⟨_, -, hdrop⟩
    · cases hq
    · exact .inl ((NothingNew.decRefs hdrop).knows hd (fun _ hd => hd))
  | @intern _ _ text outcome hrun =>
    obtain ⟨outcome', h₁, hrun', hi⟩ := intern_run hs.counted text
    cases hrun'.symm.trans hrun
    refine .inl (hd.imp_left ?_)
    rintro ⟨q, hq⟩
    cases hi with
    | known | refused => exact ⟨q, hq⟩
    | made hr hp =>
      rcases hp.dict? hq with hq | hplaced
      · exact ⟨q, hq⟩
      · cases hplaced
  | newDict =>
    rcases hd with hheap | hmem
    · exact .inl (.inl hheap)
    · rcases Multiset.mem_cons.mp hmem with rfl | hmem
      · exact .inr (.inl rfl)
      · exact .inl (.inr hmem)
  | setItem hrun =>
    rcases hd with ⟨q, hq⟩ | hmem
    · exact .inl (.inl ⟨q, (hs.nothingNew_setItem hrun).dict? hq⟩)
    · rcases Multiset.mem_cons.mp hmem with rfl | hmem
      · exact .inr (.inr ⟨_, _, _, _, _, rfl, hrun⟩)
      · exact .inl (.inr (Multiset.mem_cons_of_mem hmem))
  | rejectItem hrun => exact .inl ((hs.nothingNew_setItem hrun).knows hd (fun _ hd => hd))
  | openDict => exact .inl (hd.imp_right Multiset.mem_cons_of_mem)
  | update ho hm hm' ht hrun =>
    obtain ⟨f, hf, rfl⟩ := update_inv hrun
    refine .inl (hd.imp_left ?_)
    rintro ⟨q, hq⟩
    rcases dict?_of_setSlot hf hq with hq | rfl
    · exact ⟨q, hq⟩
    · exact hm'.elim
  | swapDict hd₀ hrun =>
    obtain ⟨f, hf, rfl⟩ := update_inv hrun
    rcases hd with ⟨q, hq⟩ | hmem
    · rcases dict?_of_setSlot hf hq with hq | hnew
      · exact .inl (.inl ⟨q, hq⟩)
      · cases hnew
        exact .inl (.inr (Multiset.mem_cons_self _ _))
    · rcases Multiset.mem_cons.mp hmem with rfl | hmem
      · exact .inl (.inl ⟨_, hd₀⟩)
      · exact .inl (.inr (Multiset.mem_cons_of_mem hmem))
  | levels n => exact .inl hd

end Heap

end NativeCall
