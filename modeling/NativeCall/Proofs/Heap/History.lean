import NativeCall.Proofs.Heap.Transfer

/-!
# Histories of heaps

Whatever an operation does to a heap comes down to six kinds of events. An object is allocated, or a
text is interned for the first time; a mortal object is counted anew or freed; an object is changed
in its slot; the depth budget is changed. `h.Happens event h'` says what each of them does, and
`History h log h'` that the events of `log`, one after the other, lead from `h` to `h'`.

Nothing is asked of whoever causes the events. References may be wrong, counts may be wrong, and an
operation may stop in the middle; there is still a history of what it did. A statement about all
heaps is therefore shown for each kind of event, and follows for histories (`History.keeps`).

The first such statement is `Tidy`: the free list has the empty slots, each once, and the slots of
the objects that are always there are never among them.

## Which events there are

The events are chosen so that each of them is one write to the heap as far as an invariant can tell.
Allocation and interning are one event each, and not a charge followed by a placement, because
between the two a meter is ahead of the heap and nothing that relates them holds. Freeing is the
emptying of one slot; the references that the object held are dropped later, by events of their own,
so that a cascade is a history with one event for each object that goes. A new count is any number:
that it is one more or one less is what counts are about, and the statements here are for heaps
whose counts need not be right.

A refused request is no event. It leaves the heap as it was, and what it releases is in the history
that follows.

## Events and logs

A log keeps what a reader of the whole run needs and no more: who was allocated and what, which text
was interned where, what an object was when it was freed. From these the meter's record can be
computed again (`Event.isGrant`, `Event.bytesFreed`), and the table of interned strings
(`History.internedRef?_eq_some`). `Respects` restricts the one event that is not the heap's own
doing, the change of an object in its slot.
-/

namespace NativeCall

/-! ## Events -/

/-- What can happen to a heap. -/
inductive Event where
  /-- An allocation was granted. -/
  | allocated (r : Ref) (o : Object)
  /-- A text was interned for the first time. -/
  | interned (r : Ref) (text : String)
  /-- A mortal object was counted anew. -/
  | recounted (r : Ref)
  /-- A mortal object was freed. -/
  | freed (r : Ref) (o : Object)
  /-- An object was changed in its slot. -/
  | changed (r : Ref) (old new : Object)
  /-- The depth budget was changed. -/
  | leveled
  deriving DecidableEq, Repr

namespace Event

/-- The event needed the consent of the tracker. -/
def isGrant : Event → Bool
  | allocated _ _ | interned _ _ => true
  | _ => false

/-- The event belongs to counting references. -/
def isCounting : Event → Bool
  | recounted _ | freed _ _ => true
  | _ => false

/-- Changes in place respect the relation `allowed`; other events always do. -/
def Respects (allowed : Object → Object → Prop) : Event → Prop
  | changed _ old new => allowed old new
  | _ => True

lemma Respects.of_isCounting {allowed : Object → Object → Prop} {event : Event}
    (hev : event.isCounting = true) : event.Respects allowed := by
  cases event with
  | changed => cases hev
  | _ => trivial

lemma isGrant_of_isCounting {event : Event} (hev : event.isCounting = true) :
    event.isGrant = false := by
  cases event with
  | recounted | freed => rfl
  | _ => cases hev

/-- The bytes that an event gives back. -/
def bytesFreed : Event → Nat
  | freed _ o => o.size
  | _ => 0

end Event

namespace Heap

/-- One event leads from a heap to another. -/
inductive Happens : Heap → Event → Heap → Prop where
  | allocated {h h' : Heap} {o : Object} {r : Ref} (hrun : (allocate o).run h = .ok (.ok r) h') :
      Happens h (.allocated r o) h'
  | interned {h h' : Heap} {text : String} {r : Ref} (hnew : h.internedRef? text = none)
      (hrun : (intern text).run h = .ok (.ok r) h') : Happens h (.interned r text) h'
  | recounted {h : Heap} {r : Ref} {e : Entry} (he : h.slot? r = some e) (hm : e.immortal = false)
      (n : Nat) : Happens h (.recounted r) (h.setSlot r (some { e with refs := n }))
  | freed {h : Heap} {r : Ref} {e : Entry} (he : h.slot? r = some e) (hm : e.immortal = false) :
      Happens h (.freed r e.object) (h.vacate r e.object)
  | changed {h : Heap} {r : Ref} {e : Entry} (he : h.slot? r = some e) (o : Object) :
      Happens h (.changed r e.object o) (h.setSlot r (some { e with object := o }))
  | leveled {h : Heap} (n : Nat) : Happens h .leveled { h with levels := n }

/-- The events of a log lead from a heap to another. -/
inductive History : Heap → List Event → Heap → Prop where
  | nil (h : Heap) : History h [] h
  | cons {h h₁ h₂ : Heap} {event : Event} {log : List Event} (hev : Happens h event h₁)
      (rest : History h₁ log h₂) : History h (event :: log) h₂

namespace History

variable {h h₁ h₂ : Heap} {event : Event} {log log₁ log₂ : List Event} {p : Event → Prop}

lemma single (hev : Happens h event h₁) : History h [event] h₁ :=
  .cons hev (.nil h₁)

lemma append (hl : History h log₁ h₁) (hl' : History h₁ log₂ h₂) :
    History h (log₁ ++ log₂) h₂ := by
  induction hl with
  | nil => exact hl'
  | cons hev _ ih => exact .cons hev (ih hl')

/-- A history can be looked at after any number of events. -/
lemma split (hl : History h (log₁ ++ log₂) h₂) :
    ∃ h₁, History h log₁ h₁ ∧ History h₁ log₂ h₂ := by
  induction log₁ generalizing h with
  | nil => exact ⟨h, .nil h, hl⟩
  | cons event log₁ ih =>
    rw [List.cons_append] at hl
    cases hl with
    | cons hev rest =>
      obtain ⟨h₁, hfirst, hlast⟩ := ih rest
      exact ⟨h₁, .cons hev hfirst, hlast⟩

/-- Nothing happened. -/
lemma exists_nil (hsame : h₁ = h) : ∃ log, History h log h₁ ∧ ∀ event ∈ log, p event := by
  refine ⟨[], ?_, fun event he => absurd he List.not_mem_nil⟩
  rw [hsame]
  exact .nil h

lemma exists_single (hev : Happens h event h₁) (hp : p event) :
    ∃ log, History h log h₁ ∧ ∀ event ∈ log, p event := by
  refine ⟨[event], .single hev, fun event' he => ?_⟩
  rw [List.mem_singleton.mp he]
  exact hp

lemma exists_append (hl : ∃ log, History h log h₁ ∧ ∀ event ∈ log, p event)
    (hl' : ∃ log, History h₁ log h₂ ∧ ∀ event ∈ log, p event) :
    ∃ log, History h log h₂ ∧ ∀ event ∈ log, p event := by
  obtain ⟨log, hl, hp⟩ := hl
  obtain ⟨log', hl', hp'⟩ := hl'
  refine ⟨log ++ log', hl.append hl', fun event he => ?_⟩
  rcases List.mem_append.mp he with he | he
  · exact hp event he
  · exact hp' event he

/-- What every event of some kind keeps, a history of such events keeps. -/
lemma keeps {I : Heap → Prop} (hl : History h log h₁)
    (hp : ∀ event ∈ log, p event)
    (hstep : ∀ h event h', p event → Happens h event h' → I h → I h') (hi : I h) : I h₁ := by
  induction hl with
  | nil => exact hi
  | @cons h h₁ h₂ event log hev _ ih =>
    have hev' := hstep h event h₁ (hp event List.mem_cons_self) hev hi
    exact ih (fun event he => hp event (List.mem_cons_of_mem _ he)) hev'

end History

/-! ## Granted requests -/

variable {h h' : Heap} {r : Ref} {e : Entry} {o : Object}

/-- A granted allocation was paid for and placed. -/
lemma allocate_granted (hrun : (allocate o).run h = .ok (.ok r) h') :
    ∃ t, h.tracker.charge o.size = .ok t ∧
      ({ h with tracker := t } : Heap).place ⟨1, false, o⟩ = (r, h') := by
  rw [allocate] at hrun
  -- Only a granted charge leads to a reference, so the run itself tells which case this is.
  cases ht : h.tracker.charge o.size with
  | ok t =>
    have hcharge : (charge o).run h = .ok (.ok ()) { h with tracker := t } := by
      rw [charge_run, ht]
    rw [run_bind_ok (run_tryCatch_ok hcharge)] at hrun
    refine ⟨t, rfl, ?_⟩
    cases hrun
    rfl
  | error e =>
    have hcharge : (charge o).run h = .ok (.error e) h := by rw [charge_run, ht]
    obtain ⟨a, t, htry, -⟩ := run_bind_inv hrun
    rw [run_tryCatch_raised hcharge] at htry
    obtain ⟨a, t, -, hthrow⟩ := run_lift_bind_inv htry
    cases hthrow

/-- A text that is new was paid for, placed and entered in the table. -/
lemma intern_granted {text : String} (hnew : h.internedRef? text = none)
    (hrun : (intern text).run h = .ok (.ok r) h') :
    ∃ t h₁, h.tracker.charge (Object.str text).size = .ok t ∧
      ({ h with tracker := t } : Heap).place ⟨1, true, .str text⟩ = (r, h₁) ∧
      h' = { h₁ with interned := (text, r) :: h₁.interned } := by
  replace hrun := (run_bind_ok (run_getThe h)).symm.trans hrun
  simp only [hnew] at hrun
  cases ht : h.tracker.charge (Object.str text).size with
  | ok t =>
    have hcharge : (charge (.str text)).run h = .ok (.ok ()) { h with tracker := t } := by
      rw [charge_run, ht]
    rw [run_bind_ok hcharge] at hrun
    refine ⟨t, (({ h with tracker := t } : Heap).place ⟨1, true, .str text⟩).2, rfl, ?_, ?_⟩
    · cases hrun
      rfl
    · cases hrun
      rfl
  | error e =>
    have hcharge : (charge (.str text)).run h = .ok (.error e) h := by rw [charge_run, ht]
    obtain ⟨a, t, hpaid, -⟩ := run_bind_inv hrun
    rw [hcharge] at hpaid
    cases hpaid

/-- A text that was interned for the first time is all that is new in the table. -/
lemma internedRef?_of_intern (hnew : h.internedRef? t = none)
    (hrun : (intern t).run h = .ok (.ok r) h') (u : String) :
    h'.internedRef? u = if u = t then some r else h.internedRef? u := by
  obtain ⟨tracker, h₁, -, hplace, rfl⟩ := intern_granted hnew hrun
  have htable : h₁.interned = h.interned := by
    have hsame := interned_place { h with tracker := tracker } ⟨1, true, .str t⟩
    rwa [hplace] at hsame
  rw [internedRef?_cons, internedRef?, internedRef?, htable]

/-! ## What is interned -/

/-- The strings that are interned after an event are those that were, and the one that the event
made. -/
lemma Happens.internedRef?_eq_some {event : Event} (hev : Happens h event h') {u : String}
    {q : Ref} : h'.internedRef? u = some q ↔ event = .interned q u ∨ h.internedRef? u = some q := by
  cases hev with
  | @allocated _ o r hrun =>
    obtain ⟨t, -, hplace⟩ := allocate_granted hrun
    have hsame := interned_place { h with tracker := t } ⟨1, false, o⟩
    rw [hplace] at hsame
    rw [internedRef?, hsame]
    simp [internedRef?]
  | @interned _ text r hnew hrun =>
    rw [internedRef?_of_intern hnew hrun, Event.interned.injEq]
    by_cases hu : u = text
    · subst hu
      simp [hnew]
    · simp [hu, Ne.symm hu]
  | recounted | freed | changed | leveled => exact (or_iff_right (fun h => by cases h)).symm

/-- The strings that are interned after a history are those that were, and those that it made. -/
lemma History.internedRef?_eq_some {log : List Event} (hl : History h log h') {u : String}
    {q : Ref} : h'.internedRef? u = some q ↔
      .interned q u ∈ log ∨ h.internedRef? u = some q := by
  induction hl with
  | nil => simp
  | cons hev _ ih =>
    rw [ih, hev.internedRef?_eq_some, List.mem_cons, eq_comm, or_left_comm, or_assoc]

/-! ## Tidy heaps -/

/-- The free list has the empty slots, each once. The first slots, where the objects are that are
always there, are not empty and never will be. -/
structure Tidy (h : Heap) : Prop where
  nodup : h.freeList.Nodup
  mem : ∀ r, r ∈ h.freeList ↔ r.index < h.slots.size ∧ h.slot? r = none
  first : ∀ r : Ref, r.index < singletons.length → ∃ e, h.slot? r = some e ∧ e.immortal = true

/-- Where counts are right, the heap is tidy. -/
lemma Counted.tidy {owned : Multiset Ref} (hc : h.Counted owned) : h.Tidy := by
  refine ⟨hc.nodup_freeList, hc.mem_freeList, fun r hr => ?_⟩
  exact ⟨_, hc.singleton r.index _ (List.getElem?_eq_getElem hr), rfl⟩

lemma tidy_fresh (t : Tracker) : (fresh t).Tidy :=
  (counted_fresh t).tidy

namespace Tidy

lemma withTracker (ht : h.Tidy) (t : Tracker) : Tidy { h with tracker := t } :=
  ⟨ht.nodup, ht.mem, ht.first⟩

/-- Mortal objects are not in the first slots. -/
lemma le_index (ht : h.Tidy) (he : h.slot? r = some e) (hm : e.immortal = false) :
    singletons.length ≤ r.index := by
  by_contra hlt
  obtain ⟨f, hf, hfm⟩ := ht.first r (Nat.lt_of_not_le hlt)
  obtain rfl := Option.some.inj (he.symm.trans hf)
  rw [hm] at hfm
  cases hfm

/-- Empty slots are not the first ones. -/
lemma le_index_of_none (ht : h.Tidy) (hr : h.slot? r = none) : singletons.length ≤ r.index := by
  by_contra hlt
  obtain ⟨f, hf, -⟩ := ht.first r (Nat.lt_of_not_le hlt)
  cases hr.symm.trans hf

/-- Another entry in a slot that is not empty leaves the free list right. -/
lemma setSlot (ht : h.Tidy) (he : h.slot? r = some e) (e' : Entry)
    (hm : e'.immortal = e.immortal) : (h.setSlot r (some e')).Tidy := by
  have hslot := slot?_setSlot (some e') (lt_size_of_slot? he)
  refine ⟨ht.nodup, fun q => ?_, fun q hq => ?_⟩
  · rw [hslot]
    show q ∈ h.freeList ↔ q.index < (h.slots.setIfInBounds _ _).size ∧ _
    rw [ht.mem, Array.size_setIfInBounds]
    by_cases hqr : q = r
    · rw [hqr, Function.update_self, he]
      simp
    · rw [Function.update_of_ne hqr]
  · rw [hslot]
    obtain ⟨f, hf, hfm⟩ := ht.first q hq
    by_cases hqr : q = r
    · subst hqr
      obtain rfl := Option.some.inj (he.symm.trans hf)
      exact ⟨e', Function.update_self .., hm.trans hfm⟩
    · rw [Function.update_of_ne hqr]
      exact ⟨f, hf, hfm⟩

/-- A slot that is emptied goes on the free list. -/
lemma vacate (ht : h.Tidy) (he : h.slot? r = some e) (hm : e.immortal = false) :
    (h.vacate r e.object).Tidy := by
  have hr := lt_size_of_slot? he
  have hslot := slot?_vacate e.object hr
  refine ⟨?_, fun q => ?_, fun q hq => ?_⟩
  · refine List.nodup_cons.mpr ⟨fun hf => ?_, ht.nodup⟩
    obtain ⟨-, hempty⟩ := (ht.mem r).mp hf
    cases he.symm.trans hempty
  · rw [hslot]
    show q ∈ r :: h.freeList ↔ q.index < (h.slots.setIfInBounds _ _).size ∧ _
    rw [List.mem_cons, ht.mem, Array.size_setIfInBounds]
    by_cases hqr : q = r
    · rw [hqr, Function.update_self]
      simp [hr]
    · rw [Function.update_of_ne hqr]
      simp [hqr]
  -- The first slots have immortal objects, and a mortal one is freed.
  · have hqr : q ≠ r := by
      rintro rfl
      have := ht.le_index he hm
      omega
    rw [hslot, Function.update_of_ne hqr]
    exact ht.first q hq

lemma place (ht : h.Tidy) (e : Entry) : Placed h e (h.place e).1 (h.place e).2 :=
  placed_place ht.nodup ht.mem e

/-- Placing an object takes its slot off the free list. -/
lemma placed (ht : h.Tidy) (hp : Placed h e r h') : h'.Tidy := by
  refine ⟨hp.nodup_freeList, hp.mem_freeList, fun q hq => ?_⟩
  have hqr : q ≠ r := by
    rintro rfl
    have := ht.le_index_of_none hp.empty
    omega
  rw [hp.slots, Function.update_of_ne hqr]
  exact ht.first q hq

/-- A granted allocation fills an empty slot. -/
lemma allocate (ht : h.Tidy) (hrun : (Heap.allocate o).run h = .ok (.ok r) h') :
    ∃ t, h.tracker.charge o.size = .ok t ∧ Placed { h with tracker := t } ⟨1, false, o⟩ r h' := by
  obtain ⟨t, hcharge, hplace⟩ := allocate_granted hrun
  have hp := (ht.withTracker t).place ⟨1, false, o⟩
  rw [hplace] at hp
  exact ⟨t, hcharge, hp⟩

/-- An object is placed if its bytes are granted. If not, the references that it was to have are
released. -/
lemma create {h₁ : Heap} (ht : h.Tidy) (hd : decRefs o.children h = .ok () h₁) :
    (∃ t r h', h.tracker.charge o.size = .ok t ∧ (Heap.create o).run h = .ok (.ok r) h' ∧
      Placed { h with tracker := t } ⟨1, false, o⟩ r h') ∨
    ∃ e, h.tracker.charge o.size = .error e ∧
      (Heap.create o).run h = .ok (.error e.toRunError) h₁ := by
  cases hcharge : h.tracker.charge o.size with
  | ok t =>
    have hpaid : (charge o).run h = .ok (.ok ()) { h with tracker := t } := by
      rw [charge_run, hcharge]
    have hrun : (Heap.allocate o).run h = .ok (.ok _) _ := run_bind_ok (run_tryCatch_ok hpaid)
    refine .inl ⟨t, _, _, rfl, run_adapt ResourceError.toRunError hrun, ?_⟩
    exact (ht.withTracker t).place ⟨1, false, o⟩
  | error e =>
    have hrefused : (charge o).run h = .ok (.error e) h := by rw [charge_run, hcharge]
    have hrun : (Heap.allocate o).run h = .ok (.error e) h₁ := by
      refine run_bind_raised ((run_tryCatch_raised hrefused).trans ?_)
      exact run_bind_ok (a := ()) (bind_ok hd)
    exact .inr ⟨e, rfl, run_adapt ResourceError.toRunError hrun⟩

/-- A text that is new fills an empty slot. -/
lemma intern (ht : h.Tidy) {text : String} (hnew : h.internedRef? text = none)
    (hrun : (Heap.intern text).run h = .ok (.ok r) h') :
    ∃ t h₁, h.tracker.charge (Object.str text).size = .ok t ∧
      Placed { h with tracker := t } ⟨1, true, .str text⟩ r h₁ ∧
      h' = { h₁ with interned := (text, r) :: h.interned } := by
  obtain ⟨t, h₁, hcharge, hplace, rfl⟩ := intern_granted hnew hrun
  have hp := (ht.withTracker t).place ⟨1, true, .str text⟩
  rw [hplace] at hp
  refine ⟨t, h₁, hcharge, hp, ?_⟩
  rw [hp.interned]

/-- Every event leaves the heap tidy. -/
lemma happens (ht : h.Tidy) {event : Event} (hev : Happens h event h') : h'.Tidy := by
  cases hev with
  | allocated hrun =>
    obtain ⟨t, -, hp⟩ := ht.allocate hrun
    exact (ht.withTracker t).placed hp
  | interned hnew hrun =>
    obtain ⟨t, h₁, -, hp, rfl⟩ := ht.intern hnew hrun
    have h₁tidy := (ht.withTracker t).placed hp
    exact ⟨h₁tidy.nodup, h₁tidy.mem, h₁tidy.first⟩
  | recounted he hm n => exact ht.setSlot he _ rfl
  | freed he hm => exact ht.vacate he hm
  | changed he o => exact ht.setSlot he _ rfl
  | leveled n => exact ⟨ht.nodup, ht.mem, ht.first⟩

/-- **Heaps stay tidy**, whatever happens to them. -/
theorem history {log : List Event} (ht : h.Tidy) (hl : History h log h') : h'.Tidy :=
  hl.keeps (p := fun _ => True) (fun _ _ => trivial) (fun _ _ _ _ hev ht => ht.happens hev) ht

end Tidy

end Heap

end NativeCall
