import Mathlib.Algebra.BigOperators.Group.Multiset.Basic
import NativeCall.Proofs.Heap.Filed

/-!
# Sound heaps

A client of a heap owns references to objects, and dicts that it is still filling (`Holdings`). A
heap is *sound* for these holdings if counts are right, interned strings are where the table says,
and every dict on the heap or in the hands of the client is filed.

A slot can be emptied and filled again, so it matters what an operation does to the objects that
others refer to. There are three kinds of operations: those after which nothing is new
(`NothingNew`), those that fill an empty slot (`Placed`), and those that change an object in place.
Each kind keeps a heap sound, by one lemma: `NothingNew.sound`, `Placed.sound`, `Sound.update`.

## The three parts together

Of the three parts of soundness only the counts are about who owns what, and yet none could be kept
without the others. That a dict is filed is a statement about the texts of its key objects; it stays
true as long as these live and are not changed, and they live because the dict's references to them
are counted. That an interned string stays in its slot is what lets the binder compare names by
reference, and it needs that mortal objects alone are freed.

The lemmas for the three kinds have the same shape. The counts of the new heap are a hypothesis,
since they are known from the transfer of the operation at hand; the texts that live on are compared
(`SameTexts`); and each dict that is known afterwards has to have been filed before.
`Sound.of_sameTexts` puts these together.

## Nothing new

`NothingNew` allows objects to go and counts to change, and nothing else. It is transitive, so all
that a release sets off comes under it at once (`NothingNew.drain`), and also what is done to a
dict, where a key is computed and then something may be released (`NothingNew.setItem`). Placing and
changing are single steps in this sense, and nothing has to be composed.
-/

namespace NativeCall

/-! ## Holdings -/

/-- What a client owns. -/
structure Holdings where
  refs : Multiset Ref
  /-- The dicts that are not on the heap. -/
  dicts : Multiset Dict

namespace Holdings

/-- A client that owns nothing. -/
def empty : Holdings := ⟨0, 0⟩

/-- Every reference that a client owns, those in its dicts included. -/
def owned (s : Holdings) : Multiset Ref :=
  s.refs + (s.dicts.map (fun d => (d.refs : Multiset Ref))).sum

variable {refs rs : Multiset Ref} {dicts : Multiset Dict} {d : Dict} {r : Ref}

lemma owned_cons : owned ⟨r ::ₘ refs, dicts⟩ = r ::ₘ owned ⟨refs, dicts⟩ :=
  Multiset.cons_add r refs _

lemma owned_add : owned ⟨rs + refs, dicts⟩ = rs + owned ⟨refs, dicts⟩ :=
  add_assoc rs refs _

lemma owned_cons_dict : owned ⟨refs, d ::ₘ dicts⟩ = ↑d.refs + owned ⟨refs, dicts⟩ := by
  rw [owned, Multiset.map_cons, Multiset.sum_cons]
  exact add_left_comm refs _ _

/-- A dict on the heap or in the hands of the client. -/
def Knows (s : Holdings) (h : Heap) (d : Dict) : Prop :=
  (∃ r, h.dict? r = some d) ∨ d ∈ s.dicts

end Holdings

namespace Heap

variable {h h' h'' : Heap} {s s' : Holdings} {r : Ref} {e : Entry} {d : Dict}

/-! ## Soundness -/

/-- What holds of a heap whose client has the holdings `s`. -/
structure Sound (h : Heap) (s : Holdings) : Prop where
  counted : h.Counted s.owned
  interned : ∀ t r, h.internedRef? t = some r → h.slot? r = some ⟨1, true, .str t⟩
  filed : ∀ d, s.Knows h d → d.Filed h

/-- What a known dict refers to is alive. -/
lemma live_of_knows (hc : h.Counted s.owned) (hd : s.Knows h d) :
    ∀ q ∈ d.refs, h.slot? q ≠ none := by
  intro q hq
  rcases hd with ⟨r, hr⟩ | hmem
  · obtain ⟨e, hs, he⟩ := dict?_eq_some.mp hr
    refine hc.slot?_child hs ?_
    rw [he]
    exact hq
  · obtain ⟨rest, hrest⟩ := Multiset.exists_cons_of_mem hmem
    refine hc.slot?_ne_none ?_
    have howned : s.owned = ↑d.refs + Holdings.owned ⟨s.refs, rest⟩ := by
      rw [← Holdings.owned_cons_dict, ← hrest]
    rw [howned]
    exact Multiset.mem_add.mpr (.inl hq)

lemma Sound.live (hs : h.Sound s) (hd : s.Knows h d) : ∀ q ∈ d.refs, h.slot? q ≠ none :=
  live_of_knows hs.counted hd

/-- Soundness is kept where texts are, if every dict that is known then was filed before. -/
lemma Sound.of_sameTexts (hc : h'.Counted s'.owned) (ht : SameTexts h h')
    (hi : ∀ t r, h'.internedRef? t = some r → h'.slot? r = some ⟨1, true, .str t⟩)
    (hd : ∀ d, s'.Knows h' d → d.Filed h ∧ ∀ q ∈ d.refs, h.slot? q ≠ none) : h'.Sound s' := by
  refine ⟨hc, hi, fun d hk => ?_⟩
  obtain ⟨hfiled, hl⟩ := hd d hk
  exact filed_of_sameTexts hfiled ht hl (live_of_knows hc hk)

lemma Sound.known (hs : h.Sound s) (hd : ∀ d, s'.Knows h' d → s.Knows h d) :
    ∀ d, s'.Knows h' d → d.Filed h ∧ ∀ q ∈ d.refs, h.slot? q ≠ none :=
  fun d hk => ⟨hs.filed d (hd d hk), hs.live (hd d hk)⟩

/-- A fresh heap is sound for a client that owns nothing. -/
lemma sound_fresh (t : Tracker) : (fresh t).Sound .empty := by
  refine ⟨counted_fresh t, fun s r hr => ?_, fun d hd => ?_⟩
  · cases hr
  · rcases hd with ⟨r, hr⟩ | hmem
    · obtain ⟨e, hs, he⟩ := dict?_eq_some.mp hr
      rw [slot?_fresh] at hs
      obtain ⟨o, ho, rfl⟩ := Option.map_eq_some_iff.mp hs
      have hmem : Object.dict d ∈ singletons := by
        rw [← show o = .dict d from he]
        exact List.mem_of_getElem? ho
      simp [singletons] at hmem
    · exact absurd hmem (Multiset.notMem_zero d)

/-! ## Steps after which nothing is new -/

/-- Every object of `h'` was there on `h`, and what is immortal stays. -/
structure NothingNew (h h' : Heap) : Prop where
  object : ∀ r e', h'.slot? r = some e' → ∃ e, h.slot? r = some e ∧ e'.object = e.object
  immortal : ∀ r e, h.slot? r = some e → e.immortal = true → h'.slot? r = some e
  interned : h'.interned = h.interned

namespace NothingNew

lemma refl (h : Heap) : NothingNew h h :=
  ⟨fun _ e he => ⟨e, he, rfl⟩, fun _ _ he _ => he, rfl⟩

lemma trans (hn : NothingNew h h') (hn' : NothingNew h' h'') : NothingNew h h'' := by
  refine ⟨fun r e'' he'' => ?_, fun r e he hm => ?_, hn'.interned.trans hn.interned⟩
  · obtain ⟨e', he', ho'⟩ := hn'.object r e'' he''
    obtain ⟨e, he, ho⟩ := hn.object r e' he'
    exact ⟨e, he, ho'.trans ho⟩
  · exact hn'.immortal r e (hn.immortal r e he hm) hm

/-- The object of a slot goes or is counted anew. -/
lemma of_update {t : Option Entry} (hs : h.slot? r = some e) (hm : e.immortal = false)
    (hslot : h'.slot? = Function.update h.slot? r t)
    (ht : ∀ f, t = some f → f.object = e.object) (hi : h'.interned = h.interned) :
    NothingNew h h' := by
  refine ⟨fun q f hf => ?_, fun q f hf hfm => ?_, hi⟩
  · rw [hslot] at hf
    by_cases hqr : q = r
    · rw [hqr, Function.update_self] at hf
      rw [hqr]
      exact ⟨e, hs, ht f hf⟩
    · rw [Function.update_of_ne hqr] at hf
      exact ⟨f, hf, rfl⟩
  · rw [hslot, Function.update_of_ne, hf]
    rintro rfl
    obtain rfl := Option.some.inj (hs.symm.trans hf)
    rw [hm] at hfm
    cases hfm

lemma incRef (hrun : Heap.incRef r h = .ok () h') : NothingNew h h' := by
  cases hs : h.slot? r with
  | none =>
    rw [Heap.incRef, bind_stopped (demand_of_slot?_eq_none hs).choose_spec] at hrun
    cases hrun
  | some e =>
    rw [Heap.incRef, bind_ok (demand_of_slot? hs)] at hrun
    by_cases hi : e.immortal = true
    · rw [if_pos hi] at hrun
      cases hrun
      exact refl _
    · rw [if_neg hi] at hrun
      cases hrun
      refine of_update hs (Bool.eq_false_iff.mpr hi) (slot?_setSlot _ (lt_size_of_slot? hs)) ?_ rfl
      rintro f ⟨rfl⟩
      rfl

lemma dropReference {o : Option Object} (hrun : Heap.dropReference r h = .ok o h') :
    NothingNew h h' := by
  cases hs : h.slot? r with
  | none =>
    rw [Heap.dropReference, bind_stopped (demand_of_slot?_eq_none hs).choose_spec] at hrun
    cases hrun
  | some e =>
    have hr := lt_size_of_slot? hs
    rw [dropReference_eq hs] at hrun
    by_cases hi : e.immortal = true
    · rw [if_pos hi] at hrun
      cases hrun
      exact refl _
    · rw [if_neg hi] at hrun
      have hm := Bool.eq_false_iff.mpr hi
      by_cases h1 : 1 < e.refs
      · rw [if_pos h1] at hrun
        cases hrun
        refine of_update hs hm (slot?_setSlot _ hr) ?_ rfl
        rintro f ⟨rfl⟩
        rfl
      · rw [if_neg h1] at hrun
        cases hrun
        refine of_update hs hm (slot?_vacate _ hr) ?_ rfl
        rintro f ⟨⟩

lemma drain {rs : List Ref} (hrun : Heap.drain rs h = .ok () h') : NothingNew h h' := by
  induction rs, h using Heap.drain.induct with
  | case1 h =>
    rw [Heap.drain] at hrun
    cases hrun
    exact refl _
  | case2 h r rest m h₁ hr =>
    rw [drain_stopped hr] at hrun
    cases hrun
  | case3 h r rest h₁ hr ih =>
    rw [drain_cons hr] at hrun
    exact (dropReference hr).trans (ih hrun)
  | case4 h r rest o h₁ hr ih =>
    rw [drain_cons hr] at hrun
    exact (dropReference hr).trans (ih hrun)

lemma decRefs {rs : List Ref} (hrun : Heap.decRefs rs h = .ok () h') : NothingNew h h' := by
  rw [decRefs_eq_drain] at hrun
  exact drain hrun

lemma sameTexts (hn : NothingNew h h') : SameTexts h h' := by
  intro r _ hr'
  obtain ⟨e', he'⟩ := Option.ne_none_iff_exists'.mp hr'
  obtain ⟨e, he, ho⟩ := hn.object r e' he'
  rw [text?_of_slot? he', text?_of_slot? he, ho]

lemma dict? (hn : NothingNew h h') (hd : h'.dict? r = some d) : h.dict? r = some d := by
  obtain ⟨e', he', hdict⟩ := dict?_eq_some.mp hd
  obtain ⟨e, he, ho⟩ := hn.object r e' he'
  exact dict?_eq_some.mpr ⟨e, he, ho.symm.trans hdict⟩

/-- Where nothing is new, soundness depends on what the client holds. -/
lemma sound (hn : NothingNew h h') (hs : h.Sound s) (hc : h'.Counted s'.owned)
    (hd : ∀ d ∈ s'.dicts, d ∈ s.dicts ∨ (d.Filed h ∧ ∀ q ∈ d.refs, h.slot? q ≠ none)) :
    h'.Sound s' := by
  refine .of_sameTexts hc hn.sameTexts (fun t r hr => ?_) (fun d hk => ?_)
  · rw [internedRef?, hn.interned] at hr
    exact hn.immortal r _ (hs.interned t r hr) rfl
  · rcases hk with ⟨r, hr⟩ | hmem
    · have hk : s.Knows h d := .inl ⟨r, hn.dict? hr⟩
      exact ⟨hs.filed d hk, hs.live hk⟩
    · rcases hd d hmem with hmem | hfiled
      · exact ⟨hs.filed d (.inr hmem), hs.live (.inr hmem)⟩
      · exact hfiled

/-- Putting a pair into a dict looks at its key, and then at most releases something. -/
lemma setItem {key value : Ref} {outcome : Except RunError Dict} (hc : h.Counted s.owned)
    (hkey : h.slot? key ≠ none) (hrun : (Heap.setItem d key value).run h = .ok outcome h') :
    NothingNew h h' := by
  obtain ⟨projected, hproj⟩ := reads_projection hc hkey
  rw [Heap.setItem] at hrun
  cases projected with
  | error e =>
    -- A key that has no projection is released along with its value.
    have hreleased : ∀ {α : Type} {raised : Except RunError α} {h' : Heap},
        (ExceptT.lift (decRef key) >>= fun _ => ExceptT.lift (decRef value) >>= fun _ =>
          (throw e : RunM α)).run h = .ok raised h' →
        (∃ e', raised = .error e') ∧ NothingNew h h' := by
      intro α raised h' hraise
      obtain ⟨⟨⟩, h₂, hdrop, hraise⟩ := run_lift_bind_inv hraise
      obtain ⟨⟨⟩, h₃, hdrop', hraise⟩ := run_lift_bind_inv hraise
      cases hraise
      exact ⟨⟨e, rfl⟩, (drain hdrop).trans (drain hdrop')⟩
    rcases run_bind_cases hrun with ⟨e', htry, -⟩ | ⟨k, h₁, htry, -⟩
    · rw [run_tryCatch_raised hproj] at htry
      exact (hreleased htry).2
    · rw [run_tryCatch_raised hproj] at htry
      obtain ⟨e', he'⟩ := (hreleased htry).1
      cases he'
  | ok k =>
    rw [run_bind_ok (run_tryCatch_ok hproj)] at hrun
    cases hk : d.find? k with
    | some old =>
      simp only [hk] at hrun
      obtain ⟨⟨⟩, h₂, hdrop, hrun⟩ := run_lift_bind_inv hrun
      obtain ⟨⟨⟩, h₃, hdrop', hrun⟩ := run_lift_bind_inv hrun
      cases hrun
      exact (drain hdrop).trans (drain hdrop')
    | none =>
      simp only [hk] at hrun
      cases hrun
      exact refl _

end NothingNew

/-! ## Steps that fill a slot -/

/-- What is on `h` is on `h'`, and so are the interned strings. -/
structure Extends (h h' : Heap) : Prop where
  slot : ∀ r e, h.slot? r = some e → h'.slot? r = some e
  interned : ∀ t r, h.internedRef? t = some r → h'.internedRef? t = some r

namespace Extends

lemma refl (h : Heap) : Extends h h :=
  ⟨fun _ _ he => he, fun _ _ hr => hr⟩

lemma trans (he : Extends h h') (he' : Extends h' h'') : Extends h h'' :=
  ⟨fun r e hs => he'.slot r e (he.slot r e hs), fun t r hr => he'.interned t r (he.interned t r hr)⟩

lemma text? (he : Extends h h') (hr : h.slot? r ≠ none) : h'.text? r = h.text? r := by
  obtain ⟨e, hs⟩ := Option.ne_none_iff_exists'.mp hr
  rw [text?_of_slot? hs, text?_of_slot? (he.slot r e hs)]

lemma sameTexts (he : Extends h h') : SameTexts h h' :=
  fun _ hr _ => he.text? hr

end Extends

namespace Placed

lemma slot?_of_slot? (hp : Placed h e r h') {q : Ref} {f : Entry} (hq : h.slot? q = some f) :
    h'.slot? q = some f := by
  rw [hp.slots, Function.update_of_ne, hq]
  rintro rfl
  cases hp.empty.symm.trans hq

/-- A dict that is there now was there before, unless it was placed. -/
lemma dict? (hp : Placed h e r h') {q : Ref} (hd : h'.dict? q = some d) :
    h.dict? q = some d ∨ e.object = .dict d := by
  obtain ⟨f, hf, hdict⟩ := dict?_eq_some.mp hd
  rw [hp.slots] at hf
  by_cases hqr : q = r
  · rw [hqr, Function.update_self] at hf
    obtain rfl := Option.some.inj hf
    exact .inr hdict
  · rw [Function.update_of_ne hqr] at hf
    exact .inl (dict?_eq_some.mpr ⟨f, hf, hdict⟩)

/-- Filling a slot keeps a heap sound, if a dict that is placed was known. -/
lemma sound (hp : Placed h e r h') (hs : h.Sound s) (hc : h'.Counted s'.owned)
    (hdict : ∀ d, e.object = .dict d → s.Knows h d) (hd : ∀ d ∈ s'.dicts, d ∈ s.dicts) :
    h'.Sound s' := by
  have hext : Extends h h' := by
    refine ⟨fun _ _ hq => hp.slot?_of_slot? hq, fun t q hq => ?_⟩
    rwa [internedRef?, hp.interned]
  refine .of_sameTexts hc hext.sameTexts (fun t q hq => ?_) (hs.known fun d hk => ?_)
  · rw [internedRef?, hp.interned] at hq
    exact hp.slot?_of_slot? (hs.interned t q hq)
  · rcases hk with ⟨q, hq⟩ | hmem
    · rcases hp.dict? hq with hq | hplaced
      · exact .inl ⟨q, hq⟩
      · exact hdict d hplaced
    · exact .inr (hd d hmem)

end Placed

lemma Sound.withTracker (hs : h.Sound s) (t : Tracker) : Sound { h with tracker := t } s :=
  ⟨hs.counted.withTracker t, hs.interned,
    fun d hd => ⟨(hs.filed d hd).distinct, (hs.filed d hd).text⟩⟩

/-- A new object is placed, or what it holds is released. -/
lemma allocate_inv {o : Object} {outcome : Except ResourceError Ref} {owned : Multiset Ref}
    (hc : h.Counted owned) (hrun : (allocate o).run h = .ok outcome h') :
    (∃ r t, outcome = .ok r ∧ Placed { h with tracker := t } ⟨1, false, o⟩ r h') ∨
      (∃ e, outcome = .error e ∧ decRefs o.children h = .ok () h') := by
  rw [allocate] at hrun
  cases ht : h.tracker.charge o.size with
  | ok t =>
    have hcharge : (charge o).run h = .ok (.ok ()) { h with tracker := t } := by
      rw [charge_run, ht]
    rw [run_bind_ok (run_tryCatch_ok hcharge)] at hrun
    have hp := (hc.withTracker t).placed ⟨1, false, o⟩
    cases hrun
    exact .inl ⟨_, t, rfl, hp⟩
  | error e =>
    have hcharge : (charge o).run h = .ok (.error e) h := by rw [charge_run, ht]
    rcases run_bind_cases hrun with ⟨e', htry, rfl⟩ | ⟨u, h₁, htry, -⟩
    · rw [run_tryCatch_raised hcharge] at htry
      obtain ⟨⟨⟩, h₂, hdrop, htry⟩ := run_lift_bind_inv htry
      cases htry
      exact .inr ⟨e, rfl, hdrop⟩
    · rw [run_tryCatch_raised hcharge] at htry
      obtain ⟨⟨⟩, h₂, hdrop, htry⟩ := run_lift_bind_inv htry
      cases htry

/-! ## Interning -/

/-- What asking for the interned string of a text leads to. -/
inductive Interns (h : Heap) (t : String) : Except ResourceError Ref → Heap → Prop where
  | known {r : Ref} (hr : h.internedRef? t = some r) : Interns h t (.ok r) h
  | refused {e : ResourceError} : Interns h t (.error e) h
  | made {r : Ref} {tracker : Tracker} {h₁ : Heap} (hr : h.internedRef? t = none)
      (hp : Placed { h with tracker := tracker } ⟨1, true, .str t⟩ r h₁) :
      Interns h t (.ok r) { h₁ with interned := (t, r) :: h₁.interned }

lemma intern_run {owned : Multiset Ref} (hc : h.Counted owned) (t : String) :
    ∃ outcome h', (intern t).run h = .ok outcome h' ∧ Interns h t outcome h' := by
  cases hr : h.internedRef? t with
  | some r =>
    refine ⟨.ok r, h, (run_bind_ok (run_getThe h)).trans ?_, .known hr⟩
    simp only [hr]
    rfl
  | none =>
    cases ht : h.tracker.charge (Object.str t).size with
    | error e =>
      have hcharge : (charge (.str t)).run h = .ok (.error e) h := by rw [charge_run, ht]
      refine ⟨.error e, h, (run_bind_ok (run_getThe h)).trans ?_, .refused⟩
      simp only [hr]
      exact run_bind_raised hcharge
    | ok tracker =>
      have hcharge : (charge (.str t)).run h = .ok (.ok ()) { h with tracker := tracker } := by
        rw [charge_run, ht]
      have hp := (hc.withTracker tracker).placed ⟨1, true, .str t⟩
      refine ⟨.ok _, _, (run_bind_ok (run_getThe h)).trans ?_, .made hr hp⟩
      simp only [hr]
      exact run_bind_ok hcharge

/-- Interning a text keeps a heap sound and everything on it in its place. -/
lemma Interns.sound {t : String} {outcome : Except ResourceError Ref} (hi : Interns h t outcome h')
    (hs : h.Sound s) :
    h'.Sound s ∧ Extends h h' ∧ ∀ r, outcome = .ok r → h'.internedRef? t = some r := by
  cases hi with
  | known hr =>
    refine ⟨hs, .refl h, fun r he => ?_⟩
    cases he
    exact hr
  | refused =>
    refine ⟨hs, .refl h, fun r he => ?_⟩
    cases he
  | @made r tracker h₁ hr hp =>
    have hslot : h₁.slot? r = some ⟨1, true, .str t⟩ := by rw [hp.slots, Function.update_self]
    -- The table has one more entry in front, which is found for the new text and for no other.
    have hlookup : ∀ u, Heap.internedRef? { h₁ with interned := (t, r) :: h₁.interned } u =
        if u = t then some r else h.internedRef? u := by
      intro u
      have hsame : h₁.internedRef? u = h.internedRef? u := by rw [internedRef?, hp.interned]; rfl
      rw [internedRef?_cons, hsame]
    have hcounted : h₁.Counted s.owned :=
      hp.counted_immortal rfl rfl rfl (hs.counted.withTracker tracker)
    have hs₁ : h₁.Sound s :=
      hp.sound (hs.withTracker tracker) hcounted (fun d hd => by cases hd) (fun d hd => hd)
    refine ⟨⟨?_, fun u q hq => ?_, fun d hd => ?_⟩, ⟨fun _ _ hq => hp.slot?_of_slot? hq, ?_⟩, ?_⟩
    · exact ⟨hcounted.live, hcounted.refs, hcounted.nodup_freeList, hcounted.mem_freeList,
        hcounted.singleton⟩
    · rw [hlookup] at hq
      by_cases hu : u = t
      · rw [if_pos hu] at hq
        obtain rfl := Option.some.inj hq
        rw [hu]
        exact hslot
      · rw [if_neg hu] at hq
        exact hp.slot?_of_slot? (hs.interned u q hq)
    · have hfiled := hs₁.filed d hd
      exact ⟨hfiled.distinct, hfiled.text⟩
    · intro u q hq
      rw [hlookup, if_neg]
      · exact hq
      · rintro rfl
        cases hr.symm.trans hq
    · intro q he
      cases he
      rw [hlookup, if_pos rfl]

/-! ## Steps that change an object in place -/

lemma update_inv {o : Object} (hrun : update r (fun _ => o) h = .ok () h') :
    ∃ e, h.slot? r = some e ∧ h' = h.setSlot r (some { e with object := o }) := by
  cases hs : h.slot? r with
  | none =>
    rw [update, bind_stopped (demand_of_slot?_eq_none hs).choose_spec] at hrun
    cases hrun
  | some e =>
    rw [update, bind_ok (demand_of_slot? hs)] at hrun
    cases hrun
    exact ⟨e, rfl, rfl⟩

/-- Neither a string nor an object that is always there becomes another object. -/
lemma Sound.update (hs : h.Sound s) (he : h.slot? r = some e) {o : Object}
    (ht : e.object.text? = none) (ht' : o.text? = none) (hne : e.object ∉ singletons)
    (howned : (↑o.children + s'.owned : Multiset Ref) = ↑e.object.children + s.owned)
    (hd : ∀ d, s'.Knows (h.setSlot r (some { e with object := o })) d → s.Knows h d) :
    (h.setSlot r (some { e with object := o })).Sound s' := by
  have hslot := slot?_setSlot (some { e with object := o }) (lt_size_of_slot? he)
  refine .of_sameTexts (hs.counted.update he hne howned) (fun q _ _ => ?_) (fun t q hq => ?_)
    (hs.known hd)
  · by_cases hqr : q = r
    · rw [hqr, text?_of_slot? he, ht, text?_of_slot? (e := { e with object := o }), ht']
      rw [hslot, Function.update_self]
    · rw [text?, object?, hslot, Function.update_of_ne hqr]
      rfl
  · have hi := hs.interned t q hq
    rw [hslot, Function.update_of_ne, hi]
    rintro rfl
    obtain rfl := Option.some.inj (he.symm.trans hi)
    cases ht

/-- A dict is on the heap after another object changed, if it was before. -/
lemma dict?_of_setSlot (he : h.slot? r = some e) {o : Object} {q : Ref}
    (hd : (h.setSlot r (some { e with object := o })).dict? q = some d) :
    h.dict? q = some d ∨ o = .dict d := by
  obtain ⟨f, hf, hdict⟩ := dict?_eq_some.mp hd
  rw [slot?_setSlot _ (lt_size_of_slot? he)] at hf
  by_cases hqr : q = r
  · rw [hqr, Function.update_self] at hf
    obtain rfl := Option.some.inj hf
    exact .inr hdict
  · rw [Function.update_of_ne hqr] at hf
    exact .inl (dict?_eq_some.mpr ⟨f, hf, hdict⟩)

end Heap

end NativeCall
