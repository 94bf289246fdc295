import Mathlib.Algebra.BigOperators.Group.List.Basic
import NativeCall.Heap.Allocate
import NativeCall.Proofs.Heap.View

/-!
# Counted heaps

A reference to an object is held by another object or owned from outside, by native code or by an
operation under way. `h.Counted owned` says that the heap and its owners agree about that: whoever
owns the references `owned`, every object that is not immortal counts as many references as are held
and owned, and at least one of them; every reference that is held or owned denotes an object; the
free list has every empty slot once; and the objects that are always there are there.

The owned references are a multiset and a parameter of the statement, not a field of the heap. No
part of the running program knows who owns what: a reference on the stack of an operation, in a slot
of a builder or in a variable of a client is the same number, and only the proof keeps the book. So
an operation that takes a reference over is one that begins on `h.Counted (r ::ₘ owned)` and ends on
`h'.Counted owned`, and one that returns a reference is the other way round.

The sum `owned + h.held` is all that counts depend on. Handing references from an owner to an object
and back leaves the sum alone, and so leaves the heap counted. That is why changing an object in its
slot (`Counted.setSlot`), freeing one (`Counted.vacate`) and placing one (`Placed.counted`) need one
argument each, whatever the object holds. The three differ in what they do to the free list and to
the set of live slots, and agree in the calculation with multisets, which each states first under
the name `htotal`.

## What goes wrong elsewhere

Two operations of the heap do not fit this pattern, and both have modules of their own. Emptying a
slot that is still referred to leaves references to nothing, so that `live` fails at once
(`Proofs.Heap.Cascade`). Putting something into a list that is on the heap already keeps the counts
and breaks the accounts instead (`Proofs.Growth`); counts know nothing of bytes.

## Heaps to try it on

`freshWith` lays objects out behind those that are always there, and `counted_freshWith` reduces the
counts of such a heap to one check for each entry. A concrete heap with a cycle or with shared
objects is then counted by evaluation.
-/

namespace NativeCall

/-! ## References held on a heap -/

/-- The references held by the object in a slot. -/
def heldBy : Option Entry → Multiset Ref
  | some e => e.object.children
  | none => 0

@[simp] lemma heldBy_none : heldBy none = 0 := rfl

@[simp] lemma heldBy_some (e : Entry) : heldBy (some e) = e.object.children := rfl

namespace Heap

/-- The references held by all objects of a heap. -/
def held (h : Heap) : Multiset Ref :=
  (h.slots.toList.map heldBy).sum

lemma held_setSlot {h : Heap} {r : Ref} {s : Option Entry} (hr : r.index < h.slots.size)
    (t : Option Entry) (hs : h.slot? r = s) :
    (h.setSlot r t).held + heldBy s = h.held + heldBy t := by
  have hs' : h.slots.toList[r.index]? = some s := by
    rw [slot?, Array.getElem?_eq_getElem hr] at hs
    rw [Array.getElem?_toList, Array.getElem?_eq_getElem hr]
    exact congrArg some hs
  have hsum := sum_map_set heldBy h.slots.toList r.index s t hs'
  simpa [held, setSlot] using hsum

lemma held_vacate {h : Heap} {r : Ref} {e : Entry} (hs : h.slot? r = some e) :
    ↑e.object.children + (h.vacate r e.object).held = h.held := by
  have hheld := held_setSlot (lt_size_of_slot? hs) none hs
  rw [heldBy_none, add_zero, heldBy_some, add_comm] at hheld
  exact hheld

/-! ## Counts -/

/-- The counts of a heap are right, if the references `owned` are owned from outside. -/
structure Counted (h : Heap) (owned : Multiset Ref) : Prop where
  live : ∀ r ∈ owned + h.held, h.slot? r ≠ none
  refs : ∀ r e, h.slot? r = some e → e.immortal = false →
    0 < e.refs ∧ e.refs = (owned + h.held).count r
  nodup_freeList : h.freeList.Nodup
  mem_freeList : ∀ r, r ∈ h.freeList ↔ r.index < h.slots.size ∧ h.slot? r = none
  singleton : ∀ i o, singletons[i]? = some o → h.slot? ⟨i⟩ = some ⟨1, true, o⟩

namespace Counted

variable {h : Heap} {owned rs : Multiset Ref} {r : Ref} {e : Entry}

lemma slot?_ne_none (hc : h.Counted owned) (hr : r ∈ owned) : h.slot? r ≠ none :=
  hc.live r (Multiset.mem_add.mpr (.inl hr))

lemma exists_slot? (hc : h.Counted owned) (hr : r ∈ owned) : ∃ e, h.slot? r = some e :=
  Option.ne_none_iff_exists'.mp (hc.slot?_ne_none hr)

lemma mem_held (hs : h.slot? r = some e) {q : Ref} (hq : q ∈ e.object.children) : q ∈ h.held := by
  rw [← held_vacate hs]
  exact Multiset.mem_add.mpr (.inl hq)

/-- What an object holds is alive. -/
lemma slot?_child (hc : h.Counted owned) (hs : h.slot? r = some e) {q : Ref}
    (hq : q ∈ e.object.children) : h.slot? q ≠ none :=
  hc.live q (Multiset.mem_add.mpr (.inr (mem_held hs hq)))

/-- Counts do not depend on what was paid. -/
lemma withTracker (hc : h.Counted owned) (t : Tracker) :
    Counted { h with tracker := t } owned :=
  ⟨hc.live, hc.refs, hc.nodup_freeList, hc.mem_freeList, hc.singleton⟩

/-- An object that is mortal, or another one, is none of those that are always there. -/
lemma singleton_ne (hc : h.Counted owned) (hs : h.slot? r = some e)
    (hne : e.immortal = false ∨ e.object ∉ singletons) {i : Nat} {o : Object}
    (ho : singletons[i]? = some o) : (⟨i⟩ : Ref) ≠ r := by
  rintro rfl
  obtain rfl := Option.some.inj (hs.symm.trans (hc.singleton i o ho))
  rcases hne with hm | hother
  · cases hm
  · exact hother (List.mem_of_getElem? ho)

/-- Another entry in a slot leaves counts right if it counts its own references, and as many
references to every other object are held and owned as before. -/
lemma setSlot (hc : h.Counted owned) (hs : h.slot? r = some e)
    (hne : e.immortal = false ∨ e.object ∉ singletons) {e' : Entry} {owned' : Multiset Ref}
    (hself : e'.immortal = false →
      0 < e'.refs ∧ e'.refs = (owned' + (h.setSlot r (some e')).held).count r)
    (hother : ∀ q, q ≠ r →
      (owned' + (h.setSlot r (some e')).held).count q = (owned + h.held).count q) :
    (h.setSlot r (some e')).Counted owned' := by
  have hslot := slot?_setSlot (some e') (lt_size_of_slot? hs)
  -- Reference by reference: the written slot is what the hypotheses are about, the others are as
  -- they were. An object that is always there is not in the written slot.
  refine ⟨fun q hq => ?_, fun q f hf hfm => ?_, hc.nodup_freeList, fun q => ?_, fun i o ho => ?_⟩
  · rw [hslot]
    by_cases hqr : q = r
    · rw [hqr, Function.update_self]
      exact Option.some_ne_none _
    · rw [Function.update_of_ne hqr]
      refine hc.live q (Multiset.count_pos.mp ?_)
      rw [← hother q hqr]
      exact Multiset.count_pos.mpr hq
  · rw [hslot] at hf
    by_cases hqr : q = r
    · rw [hqr, Function.update_self] at hf
      obtain rfl := Option.some.inj hf
      rw [hqr]
      exact hself hfm
    · rw [Function.update_of_ne hqr] at hf
      rw [hother q hqr]
      exact hc.refs q f hf hfm
  · rw [hslot]
    show q ∈ h.freeList ↔ q.index < (h.slots.setIfInBounds _ _).size ∧ _
    rw [hc.mem_freeList, Array.size_setIfInBounds]
    by_cases hqr : q = r
    · rw [hqr, Function.update_self, hs]
      simp
    · rw [Function.update_of_ne hqr]
  · rw [hslot, Function.update_of_ne (hc.singleton_ne hs hne ho)]
    exact hc.singleton i o ho

/-- A count changes along with the references that are held and owned. -/
lemma setRefs (hc : h.Counted owned) (hs : h.slot? r = some e) (hm : e.immortal = false)
    {n : Nat} {owned' : Multiset Ref} (hn : 0 < n) (hcount : n = (owned' + h.held).count r)
    (hne : ∀ q, q ≠ r → owned'.count q = owned.count q) :
    (h.setSlot r (some { e with refs := n })).Counted owned' := by
  have hheld : (h.setSlot r (some { e with refs := n })).held = h.held := by
    have hsum := held_setSlot (lt_size_of_slot? hs) (some { e with refs := n }) hs
    rw [heldBy_some, heldBy_some] at hsum
    exact add_right_cancel hsum
  refine hc.setSlot hs (.inl hm) (fun _ => ?_) (fun q hqr => ?_)
  · rw [hheld]
    exact ⟨hn, hcount⟩
  · rw [hheld, Multiset.count_add, hne q hqr, ← Multiset.count_add]

/-- An object that changes in place trades references with its owner. -/
lemma update (hc : h.Counted owned) (hs : h.slot? r = some e) (hne : e.object ∉ singletons)
    {o : Object} {owned' : Multiset Ref} (ht : o.children + owned' = e.object.children + owned) :
    (h.setSlot r (some { e with object := o })).Counted owned' := by
  -- What the object in the slot holds and what is owned outside change places, so the sum of the
  -- two does not change.
  have htotal : owned' + (h.setSlot r (some { e with object := o })).held = owned + h.held := by
    have hsum := held_setSlot (lt_size_of_slot? hs) (some { e with object := o }) hs
    rw [heldBy_some, heldBy_some] at hsum
    refine add_right_cancel (b := (e.object.children : Multiset Ref)) ?_
    rw [add_assoc, hsum, add_comm h.held, ← add_assoc, add_comm owned', ht,
      add_comm (e.object.children : Multiset Ref), add_right_comm]
  refine hc.setSlot hs (.inr hne) (fun hm => ?_) (fun q _ => ?_)
  · rw [htotal]
    exact hc.refs r e hs hm
  · rw [htotal]

/-- The last reference to an object is the only one. -/
lemma not_mem_of_last (hc : h.Counted (r ::ₘ owned)) (hs : h.slot? r = some e)
    (hm : e.immortal = false) (hlast : ¬ 1 < e.refs) : r ∉ owned + h.held := by
  obtain ⟨-, hcount⟩ := hc.refs r e hs hm
  rw [Multiset.cons_add, Multiset.count_cons_self] at hcount
  intro hr
  have := Multiset.count_pos.mpr hr
  omega

lemma vacate (hc : h.Counted (r ::ₘ owned)) (hs : h.slot? r = some e) (hm : e.immortal = false)
    (hlast : ¬ 1 < e.refs) :
    (h.vacate r e.object).Counted (e.object.children + owned) := by
  have hr := lt_size_of_slot? hs
  -- The only reference is the one that goes, so that nobody is left with a reference to the empty
  -- slot.
  have hgone := hc.not_mem_of_last hs hm hlast
  have htotal : (e.object.children + owned) + (h.vacate r e.object).held = owned + h.held := by
    rw [← held_vacate hs]
    abel
  have hslot := slot?_vacate e.object hr
  refine ⟨?_, ?_, ?_, ?_, ?_⟩
  · intro q hq
    rw [htotal] at hq
    have hqr : q ≠ r := by
      rintro rfl
      exact hgone hq
    rw [hslot, Function.update_of_ne hqr]
    refine hc.live q ?_
    rw [Multiset.cons_add]
    exact Multiset.mem_cons_of_mem hq
  · intro q f hf hfm
    rw [hslot] at hf
    rw [htotal]
    by_cases hqr : q = r
    · rw [hqr, Function.update_self] at hf
      cases hf
    · rw [Function.update_of_ne hqr] at hf
      have := hc.refs q f hf hfm
      rwa [Multiset.cons_add, Multiset.count_cons_of_ne hqr] at this
  · refine List.nodup_cons.mpr ⟨fun hf => ?_, hc.nodup_freeList⟩
    rw [hc.mem_freeList, hs] at hf
    cases hf.2
  · intro q
    rw [hslot]
    show q ∈ r :: h.freeList ↔ q.index < (h.slots.setIfInBounds _ _).size ∧ _
    rw [List.mem_cons, hc.mem_freeList, Array.size_setIfInBounds]
    by_cases hqr : q = r
    · rw [hqr, Function.update_self]
      simp [hr]
    · rw [Function.update_of_ne hqr]
      simp [hqr]
  · intro i o ho
    rw [hslot, Function.update_of_ne (hc.singleton_ne hs (.inl hm) ho)]
    exact hc.singleton i o ho

/-- An immortal object may be owned or not. -/
lemma of_immortal (hs : h.slot? r = some e) (hm : e.immortal = true) :
    h.Counted (r ::ₘ owned) ↔ h.Counted owned := by
  -- The counts of mortal objects do not see the reference, since it is not to one of them.
  have hcount : ∀ q f, h.slot? q = some f → f.immortal = false →
      (r ::ₘ owned + h.held).count q = (owned + h.held).count q := by
    intro q f hf hfm
    rw [Multiset.cons_add, Multiset.count_cons_of_ne]
    rintro rfl
    obtain rfl := Option.some.inj (hs.symm.trans hf)
    rw [hm] at hfm
    cases hfm
  constructor
  · intro hc
    refine ⟨fun q hq => hc.live q ?_, fun q f hf hfm => ?_, hc.nodup_freeList, hc.mem_freeList,
      hc.singleton⟩
    · rw [Multiset.cons_add]
      exact Multiset.mem_cons_of_mem hq
    · rw [← hcount q f hf hfm]
      exact hc.refs q f hf hfm
  · intro hc
    refine ⟨fun q hq => ?_, fun q f hf hfm => ?_, hc.nodup_freeList, hc.mem_freeList,
      hc.singleton⟩
    · rw [Multiset.cons_add] at hq
      rcases Multiset.mem_cons.mp hq with rfl | hq
      · rw [hs]
        exact Option.some_ne_none e
      · exact hc.live q hq
    · rw [hcount q f hf hfm]
      exact hc.refs q f hf hfm

/-- Dropping an owned reference keeps counts right; the references that it set free are the
owner's. -/
lemma dropReference (hc : h.Counted (r ::ₘ owned)) :
    ∃ o h', Heap.dropReference r h = .ok o h' ∧ h'.Counted (↑(released o) + owned) := by
  obtain ⟨e, hs⟩ := hc.exists_slot? (Multiset.mem_cons_self r owned)
  rw [dropReference_eq hs]
  by_cases hi : e.immortal = true
  · rw [if_pos hi]
    refine ⟨none, h, rfl, ?_⟩
    rw [released, Multiset.coe_nil, zero_add]
    exact (of_immortal hs hi).mp hc
  · rw [if_neg hi]
    have hm := Bool.eq_false_iff.mpr hi
    by_cases h1 : 1 < e.refs
    · rw [if_pos h1]
      refine ⟨none, _, rfl, ?_⟩
      rw [released, Multiset.coe_nil, zero_add]
      obtain ⟨-, hcount⟩ := hc.refs r e hs hm
      rw [Multiset.cons_add, Multiset.count_cons_self] at hcount
      refine hc.setRefs hs hm (by omega) (by omega) (fun q hqr => ?_)
      rw [Multiset.count_cons_of_ne hqr]
    · rw [if_neg h1]
      exact ⟨some e.object, _, rfl, hc.vacate hs hm h1⟩

/-- References that are owned can be released. -/
lemma drain {rs : List Ref} (hc : h.Counted (↑rs + owned)) :
    ∃ h', Heap.drain rs h = .ok () h' ∧ h'.Counted owned := by
  have hround : ∀ {h h₁ : Heap} {r : Ref} {o : Option Object} {rest : List Ref},
      h.Counted (↑(r :: rest) + owned) → Heap.dropReference r h = .ok o h₁ →
      h₁.Counted (↑((released o).reverse ++ rest) + owned) := by
    intro h h₁ r o rest hc hr
    rw [← Multiset.cons_coe, Multiset.cons_add] at hc
    obtain ⟨o', h₂, hr', hc'⟩ := hc.dropReference
    cases hr.symm.trans hr'
    rwa [← Multiset.coe_add, Multiset.coe_reverse, add_assoc]
  -- The induction is on the rounds of the loop: each begins with one reference more that is owned,
  -- and ends with those that it set free in its place.
  induction rs, h using Heap.drain.induct with
  | case1 h =>
    rw [Multiset.coe_nil, zero_add] at hc
    exact ⟨h, by rw [Heap.drain], hc⟩
  | case2 h r rest m h₁ hr =>
    rw [← Multiset.cons_coe, Multiset.cons_add] at hc
    obtain ⟨o', h₂, hr', -⟩ := hc.dropReference
    cases hr.symm.trans hr'
  | case3 h r rest h₁ hr ih =>
    obtain ⟨h', hd, hc'⟩ := ih (hround hc hr)
    exact ⟨h', (drain_cons hr rest).trans hd, hc'⟩
  | case4 h r rest o h₁ hr ih =>
    obtain ⟨h', hd, hc'⟩ := ih (hround hc hr)
    exact ⟨h', (drain_cons hr rest).trans hd, hc'⟩

lemma decRefs {rs : List Ref} (hc : h.Counted (↑rs + owned)) :
    ∃ h', Heap.decRefs rs h = .ok () h' ∧ h'.Counted owned := by
  rw [decRefs_eq_drain]
  exact hc.drain

/-- A new reference to an object is owned by whoever asked for it. -/
lemma incRef (hc : h.Counted owned) (hs : h.slot? r = some e) :
    ∃ h', Heap.incRef r h = .ok () h' ∧ h'.Counted (r ::ₘ owned) := by
  rw [Heap.incRef, bind_ok (demand_of_slot? hs)]
  by_cases hi : e.immortal = true
  · rw [if_pos hi]
    exact ⟨h, rfl, (of_immortal hs hi).mpr hc⟩
  · rw [if_neg hi]
    have hm := Bool.eq_false_iff.mpr hi
    obtain ⟨hpos, hcount⟩ := hc.refs r e hs hm
    refine ⟨_, rfl, hc.setRefs hs hm (Nat.succ_pos _) ?_ (fun q hqr => ?_)⟩
    · rw [Multiset.cons_add, Multiset.count_cons_self, ← hcount]
    · rw [Multiset.count_cons_of_ne hqr]

end Counted

/-! ## Placing an object -/

/-- `Placed h e r h'`: the entry `e` was put into the empty slot of `r`. -/
structure Placed (h : Heap) (e : Entry) (r : Ref) (h' : Heap) : Prop where
  empty : h.slot? r = none
  slots : h'.slot? = Function.update h.slot? r (some e)
  held : h'.held = e.object.children + h.held
  nodup_freeList : h'.freeList.Nodup
  mem_freeList : ∀ q, q ∈ h'.freeList ↔ q.index < h'.slots.size ∧ h'.slot? q = none
  tracker : h'.tracker = h.tracker
  interned : h'.interned = h.interned
  levels : h'.levels = h.levels

/-- The slot that the free list offers is filled. -/
lemma placed_setSlot {h : Heap} {r : Ref} {rest : List Ref} (hf : h.freeList = r :: rest)
    (hn : h.freeList.Nodup)
    (hm : ∀ q, q ∈ h.freeList ↔ q.index < h.slots.size ∧ h.slot? q = none) (e : Entry) :
    Placed h e r { h.setSlot r (some e) with freeList := rest } := by
  rw [hf] at hn hm
  obtain ⟨hr, hempty⟩ := (hm r).mp List.mem_cons_self
  obtain ⟨hrest, hnodup⟩ := List.nodup_cons.mp hn
  have hslot := slot?_setSlot (some e) hr
  refine ⟨hempty, hslot, ?_, hnodup, fun q => ?_, rfl, rfl, rfl⟩
  · have hheld := held_setSlot hr (some e) hempty
    rw [heldBy_none, add_zero, heldBy_some, add_comm] at hheld
    exact hheld
  · show q ∈ rest ↔ q.index < (h.slots.setIfInBounds _ _).size ∧ (h.setSlot r (some e)).slot? q = _
    rw [hslot, Array.size_setIfInBounds]
    by_cases hqr : q = r
    · rw [hqr, Function.update_self]
      simp [hrest]
    · rw [Function.update_of_ne hqr, ← hm q, List.mem_cons]
      simp [hqr]

/-- Without an empty slot, a new one is filled. -/
lemma placed_push {h : Heap} (hf : h.freeList = [])
    (hm : ∀ q, q ∈ h.freeList ↔ q.index < h.slots.size ∧ h.slot? q = none) (e : Entry) :
    Placed h e ⟨h.slots.size⟩ { h with slots := h.slots.push (some e) } := by
  have hslot : ({ h with slots := h.slots.push (some e) } : Heap).slot? =
      Function.update h.slot? ⟨h.slots.size⟩ (some e) := by
    funext q
    by_cases hq : q = ⟨h.slots.size⟩
    · rw [hq, Function.update_self]
      simp [slot?]
    · have hi : q.index ≠ h.slots.size := fun hi => hq (by cases q; simp_all)
      rw [Function.update_of_ne hq]
      simp [slot?, Array.getElem?_push, hi]
  refine ⟨by simp [slot?], hslot, ?_, ?_, fun q => ?_, rfl, rfl, rfl⟩
  · simp [held, add_comm]
  · show h.freeList.Nodup
    rw [hf]
    exact List.nodup_nil
  · show q ∈ h.freeList ↔ q.index < (h.slots.push _).size ∧ _
    rw [hslot, Array.size_push]
    by_cases hq : q = ⟨h.slots.size⟩
    · rw [hq, Function.update_self]
      simp [hf]
    · have hi : q.index ≠ h.slots.size := fun hi => hq (by cases q; simp_all)
      rw [Function.update_of_ne hq, hm q]
      refine and_congr_left (fun _ => ?_)
      omega

/-- An entry is placed in an empty slot, if the free list has every empty slot once. -/
lemma placed_place {h : Heap} (hn : h.freeList.Nodup)
    (hm : ∀ q, q ∈ h.freeList ↔ q.index < h.slots.size ∧ h.slot? q = none) (e : Entry) :
    Placed h e (h.place e).1 (h.place e).2 := by
  cases hf : h.freeList with
  | nil =>
    have hplace : h.place e = (⟨h.slots.size⟩, { h with slots := h.slots.push (some e) }) := by
      simp only [place, hf]
    rw [hplace]
    exact placed_push hf hm e
  | cons r rest =>
    have hplace : h.place e = (r, { h.setSlot r (some e) with freeList := rest }) := by
      simp only [place, hf]
    rw [hplace]
    exact placed_setSlot hf hn hm e

/-- Placing an object leaves the table of interned strings alone. -/
lemma interned_place (h : Heap) (e : Entry) : (h.place e).2.interned = h.interned := by
  unfold place
  cases h.freeList <;> rfl

lemma internedRef?_cons (h : Heap) (t u : String) (r : Ref) :
    internedRef? { h with interned := (t, r) :: h.interned } u =
      if u = t then some r else h.internedRef? u := by
  by_cases hu : u = t
  · rw [if_pos hu, hu, internedRef?, List.lookup_cons_self]
  · rw [if_neg hu, internedRef?, List.lookup_cons, beq_false_of_ne hu]
    rfl

lemma Counted.placed {h : Heap} {owned : Multiset Ref} (hc : h.Counted owned) (e : Entry) :
    Placed h e (h.place e).1 (h.place e).2 :=
  placed_place hc.nodup_freeList hc.mem_freeList e

/-- A placed object takes over the references that it holds, and whoever placed it owns the
reference to it. -/
lemma Placed.counted {h h' : Heap} {e : Entry} {r : Ref} {owned : Multiset Ref}
    (hp : Placed h e r h') (he : e.refs = 1) (hc : h.Counted (e.object.children + owned)) :
    h'.Counted (r ::ₘ owned) := by
  have htotal : r ::ₘ owned + h'.held = r ::ₘ (e.object.children + owned + h.held) := by
    rw [hp.held, Multiset.cons_add]
    congr 1
    abel
  refine ⟨fun q hq => ?_, fun q f hf hfm => ?_, hp.nodup_freeList, hp.mem_freeList,
    fun i o ho => ?_⟩
  · rw [htotal] at hq
    rw [hp.slots]
    by_cases hqr : q = r
    · rw [hqr, Function.update_self]
      exact Option.some_ne_none e
    · rw [Function.update_of_ne hqr]
      exact hc.live q ((Multiset.mem_cons.mp hq).resolve_left hqr)
  · rw [hp.slots] at hf
    rw [htotal]
    by_cases hqr : q = r
    · rw [hqr, Function.update_self] at hf
      obtain rfl := Option.some.inj hf
      -- Nothing refers to a slot that is empty, so the one new reference is the whole count.
      have hnew : r ∉ e.object.children + owned + h.held := fun hr => hc.live r hr hp.empty
      rw [hqr, Multiset.count_cons_self, Multiset.count_eq_zero.mpr hnew, he]
      exact ⟨Nat.one_pos, rfl⟩
    · rw [Function.update_of_ne hqr] at hf
      rw [Multiset.count_cons_of_ne hqr]
      exact hc.refs q f hf hfm
  · have hi := hc.singleton i o ho
    rw [hp.slots, Function.update_of_ne, hi]
    rintro rfl
    cases hp.empty.symm.trans hi

/-- An immortal object that holds nothing changes no counts. -/
lemma Placed.counted_immortal {h h' : Heap} {e : Entry} {r : Ref} {owned : Multiset Ref}
    (hp : Placed h e r h') (hm : e.immortal = true) (he : e.refs = 1)
    (hn : e.object.children = []) (hc : h.Counted owned) : h'.Counted owned := by
  have hslot : h'.slot? r = some e := by rw [hp.slots, Function.update_self]
  refine (Counted.of_immortal hslot hm).mp (hp.counted he ?_)
  rw [hn, Multiset.coe_nil, zero_add]
  exact hc

/-! ## Fresh heaps -/

/-- A fresh heap has its immortal objects and no others. -/
lemma slot?_fresh (t : Tracker) (r : Ref) :
    (fresh t).slot? r = (singletons[r.index]?).map (fun o => ⟨1, true, o⟩) := by
  rw [slot?, fresh]
  simp only [List.getElem?_toArray, List.getElem?_map]
  cases singletons[r.index]? <;> rfl

lemma held_fresh (t : Tracker) : (fresh t).held = 0 := rfl

/-- On a fresh heap nothing is owned. -/
lemma counted_fresh (t : Tracker) : (fresh t).Counted 0 := by
  refine ⟨fun r hr => ?_, fun r e he hm => ?_, List.nodup_nil, fun r => ?_, fun i o ho => ?_⟩
  · rw [held_fresh, add_zero] at hr
    exact absurd hr (Multiset.notMem_zero r)
  · rw [slot?_fresh] at he
    obtain ⟨o, -, rfl⟩ := Option.map_eq_some_iff.mp he
    cases hm
  · rw [slot?_fresh, Option.map_eq_none_iff, List.getElem?_eq_none_iff]
    show r ∈ [] ↔ r.index < singletons.length ∧ _
    simp
  · rw [slot?_fresh, ho]
    rfl

/-! ## Heaps given by their entries -/

/-- A heap with some objects behind those that are always there. -/
def freshWith (t : Tracker) (entries : List Entry) : Heap where
  slots := ((fresh t).slots.toList ++ entries.map some).toArray
  freeList := []
  tracker := t
  interned := []
  levels := maxLevels

lemma slot?_freshWith (t : Tracker) (entries : List Entry) (r : Ref) :
    (freshWith t entries).slot? r = if r.index < singletons.length
      then (fresh t).slot? r else entries[r.index - singletons.length]? := by
  have hlength : (fresh t).slots.toList.length = singletons.length := rfl
  have hget : (freshWith t entries).slot? r =
      ((fresh t).slots.toList ++ entries.map some)[r.index]?.join := by
    simp [slot?, freshWith]
  rw [hget, List.getElem?_append, hlength]
  by_cases hr : r.index < singletons.length
  · rw [if_pos hr, if_pos hr, Array.getElem?_toList]
    rfl
  · rw [if_neg hr, if_neg hr, List.getElem?_map]
    cases entries[r.index - singletons.length]? <;> rfl

/-- The counts of a heap without empty slots are right if they are right entry by entry. -/
lemma counted_freshWith {t : Tracker} {entries : List Entry} {owned : Multiset Ref}
    (hlive : ∀ r ∈ owned + (freshWith t entries).held,
      r.index < singletons.length + entries.length)
    (hrefs : ∀ i : Fin entries.length, entries[i].immortal = false → 0 < entries[i].refs ∧
      entries[i].refs = (owned + (freshWith t entries).held).count ⟨singletons.length + i⟩) :
    (freshWith t entries).Counted owned := by
  have hsize : (freshWith t entries).slots.size = singletons.length + entries.length := by
    simp [freshWith, fresh]
  have hfull : ∀ r, (freshWith t entries).slot? r ≠ none ↔
      r.index < singletons.length + entries.length := by
    intro r
    rw [slot?_freshWith, slot?_fresh]
    by_cases hr : r.index < singletons.length
    · simp [hr, Nat.lt_add_right]
    · simp only [if_neg hr, ne_eq, List.getElem?_eq_none_iff]
      omega
  refine ⟨fun r hr => (hfull r).mpr (hlive r hr), fun r e he hm => ?_, List.nodup_nil, fun r => ?_,
    fun i o ho => ?_⟩
  · rw [slot?_freshWith] at he
    by_cases hr : r.index < singletons.length
    · rw [if_pos hr, slot?_fresh] at he
      obtain ⟨o, -, rfl⟩ := Option.map_eq_some_iff.mp he
      cases hm
    · rw [if_neg hr] at he
      obtain ⟨hi, rfl⟩ := List.getElem?_eq_some_iff.mp he
      have hcount := hrefs ⟨r.index - singletons.length, hi⟩ hm
      rwa [Nat.add_sub_cancel' (Nat.le_of_not_lt hr)] at hcount
  · show r ∈ [] ↔ _
    rw [hsize, ← hfull r]
    simp
  · have hi := (List.getElem?_eq_some_iff.mp ho).1
    rw [slot?_freshWith, if_pos hi, slot?_fresh, ho]
    rfl

end Heap

end NativeCall
