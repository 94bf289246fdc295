import NativeCall.Proofs.Heap.Effects

/-!
# Exact accounting

A meter is told of objects that come, when they are paid for, and of objects that go, when their
slots are emptied, and it never looks at the heap itself. `h.Accounted limits log` says that it is
right all the same: after the events of `log` the meter has counted the grants among them, and it
has as many bytes on record as the objects hold that are on the heap, but for those that are always
there, which nobody paid for.

The bytes of an object are recomputed when it goes. So the record is right as long as objects keep
their size while they are on the heap (`Object.SameSize`); this is the only thing that is asked of
the events (`Accounted.happens`). What an object gives back when it goes was on record then, and the
subtraction that stops at zero never does.

## The invariant

Equality of the record and the bytes held is what is wanted, and is also what has to be carried
along: an inequality would not do, since what an object gives back can only be subtracted from both
sides if the two sides are known to be equal, and the meter's subtraction would otherwise hide a
difference for good. The limits are part of the invariant, not a consequence of it, because a limit
is only looked at when a charge is made.

Beside the meter the invariant asks for a tidy heap (`Tidy`), which is less than a counted one: the
free list has just the empty slots, and the first slots are never empty. That is what placing needs,
so that no object is overwritten whose bytes nobody gives back. Counts do not come into it, and the
accounts are right even on heaps whose counts are not.

## One step and the whole history

`Accounted.happens` goes through the six events, and each is a fact about a sum over slots
(`bytesHeld_setSlot`, `bytesHeld_place`, `bytesHeld_vacate`); `Accounted.history` is the induction
over a log. `Accounted.counting` is the balance for the part of a log that only counts references:
the bytes before are those after and those that were freed between.
-/

namespace NativeCall

/-- An object is changed into another one of the same size. -/
def Object.SameSize (old new : Object) : Prop :=
  new.size = old.size

/-- The bytes of the object in a slot. -/
def slotBytes : Option Entry → Nat
  | some e => e.object.size
  | none => 0

namespace Heap

/-- The bytes of all objects on a heap but those that are always there. -/
def bytesHeld (h : Heap) : Nat :=
  ((h.slots.toList.drop singletons.length).map slotBytes).sum

variable {h h' : Heap} {r : Ref} {e : Entry} {s : Option Entry} {event : Event}
  {log log' : List Event} {limits : Limits}

/-! ## Bytes by slot -/

lemma getElem?_of_slot? (hr : r.index < h.slots.size) (hs : h.slot? r = s) :
    h.slots.toList[r.index]? = some s := by
  rw [slot?, Array.getElem?_eq_getElem hr] at hs
  rw [Array.getElem?_toList, Array.getElem?_eq_getElem hr]
  exact congrArg some hs

/-- Behind the first slots, bytes change with the slot. -/
lemma bytesHeld_setSlot (hr : r.index < h.slots.size) (hfirst : singletons.length ≤ r.index)
    (hs : h.slot? r = s) (t : Option Entry) :
    (h.setSlot r t).bytesHeld + slotBytes s = h.bytesHeld + slotBytes t := by
  have hget : (h.slots.toList.drop singletons.length)[r.index - singletons.length]? = some s := by
    rw [List.getElem?_drop, Nat.add_sub_cancel' hfirst]
    exact getElem?_of_slot? hr hs
  have hsum := sum_map_set slotBytes _ _ s t hget
  rw [bytesHeld, bytesHeld, setSlot, Array.toList_setIfInBounds, List.drop_set,
    if_neg (Nat.not_lt.mpr hfirst)]
  exact hsum

/-- The first slots do not count. -/
lemma bytesHeld_setSlot_first (hfirst : r.index < singletons.length) (t : Option Entry) :
    (h.setSlot r t).bytesHeld = h.bytesHeld := by
  rw [bytesHeld, bytesHeld, setSlot, Array.toList_setIfInBounds, List.drop_set, if_pos hfirst]

/-- A slot that keeps its size leaves the bytes as they are. -/
lemma bytesHeld_setSlot_same (he : h.slot? r = some e) {e' : Entry}
    (hsize : e'.object.size = e.object.size) :
    (h.setSlot r (some e')).bytesHeld = h.bytesHeld := by
  by_cases hfirst : r.index < singletons.length
  · exact bytesHeld_setSlot_first hfirst _
  · have hsum := bytesHeld_setSlot (lt_size_of_slot? he) (Nat.le_of_not_lt hfirst) he (some e')
    simp only [slotBytes, hsize] at hsum
    omega

/-- The first slots are not empty, so there are as many. -/
lemma Tidy.singletons_le (ht : h.Tidy) : singletons.length ≤ h.slots.size := by
  obtain ⟨e, he, -⟩ := ht.first ⟨singletons.length - 1⟩ (by decide)
  have := lt_size_of_slot? he
  simp only [singletons, List.length_cons, List.length_nil] at this ⊢
  omega

lemma bytesHeld_place (ht : h.Tidy) (e : Entry) :
    (h.place e).2.bytesHeld = h.bytesHeld + e.object.size := by
  cases hf : h.freeList with
  | nil =>
    have hplace : (h.place e).2 = { h with slots := h.slots.push (some e) } := by
      simp only [place, hf]
    have hle : singletons.length ≤ h.slots.toList.length := by
      rw [Array.length_toList]
      exact ht.singletons_le
    rw [hplace, bytesHeld, bytesHeld, Array.toList_push, List.drop_append_of_le_length hle,
      List.map_append, List.sum_append]
    simp [slotBytes]
  | cons r rest =>
    have hplace : (h.place e).2 = { h.setSlot r (some e) with freeList := rest } := by
      simp only [place, hf]
    obtain ⟨hr, hempty⟩ := (ht.mem r).mp (by rw [hf]; exact List.mem_cons_self)
    have hsum := bytesHeld_setSlot hr (ht.le_index_of_none hempty) hempty (some e)
    rw [slotBytes, slotBytes, Nat.add_zero] at hsum
    rw [hplace]
    exact hsum

/-- What an object gives back when it goes was held before. -/
lemma bytesHeld_vacate (ht : h.Tidy) (he : h.slot? r = some e) (hm : e.immortal = false) :
    (h.vacate r e.object).bytesHeld + e.object.size = h.bytesHeld :=
  bytesHeld_setSlot (lt_size_of_slot? he) (ht.le_index he hm) he none

/-! ## The meter is right -/

/-- After the events of `log` the meter has counted the grants among them and has the bytes on
record that are held, and both respect the limits. -/
structure Accounted (limits : Limits) (log : List Event) (h : Heap) : Prop where
  tidy : h.Tidy
  tracker : h.tracker = .limited ⟨limits, log.countP Event.isGrant, h.bytesHeld⟩
  allocations : ∀ max ∈ limits.maxAllocations, log.countP Event.isGrant ≤ max
  memory : ∀ max ∈ limits.maxMemory, h.bytesHeld ≤ max

namespace Accounted

lemma start (limits : Limits) : Accounted limits [] (fresh (.limited ⟨limits, 0, 0⟩)) :=
  ⟨tidy_fresh _, rfl, fun _ _ => Nat.zero_le _, fun _ _ => Nat.zero_le _⟩

/-- A charge that is granted respects the limits. -/
lemma charge (ha : h.Accounted limits log) {t : Tracker} {size : Nat}
    (ht : h.tracker.charge size = .ok t) :
    t = .limited ⟨limits, log.countP Event.isGrant + 1, h.bytesHeld + size⟩ ∧
      (∀ max ∈ limits.maxAllocations, log.countP Event.isGrant + 1 ≤ max) ∧
      ∀ max ∈ limits.maxMemory, h.bytesHeld + size ≤ max := by
  rw [ha.tracker, Tracker.charge] at ht
  cases hm : Meter.charge ⟨limits, log.countP Event.isGrant, h.bytesHeld⟩ size with
  | error e =>
    rw [hm] at ht
    cases ht
  | ok m =>
    rw [hm] at ht
    obtain ⟨hallocations, hmemory, rfl⟩ := Meter.charge_eq_ok.mp hm
    cases ht
    exact ⟨rfl, hallocations, hmemory⟩

/-- An object that was paid for is placed. -/
lemma grant (ha : h.Accounted limits log) (hg : event.isGrant = true) {t : Tracker}
    (ht : h.tracker.charge e.object.size = .ok t)
    (hplace : ({ h with tracker := t } : Heap).place e = (r, h')) :
    h'.Accounted limits (log ++ [event]) := by
  obtain ⟨rfl, hallocations, hmemory⟩ := ha.charge ht
  have hcount : (log ++ [event]).countP Event.isGrant = log.countP Event.isGrant + 1 := by
    rw [List.countP_append, List.countP_singleton, if_pos hg]
  have htidy := ha.tidy.withTracker
    (.limited ⟨limits, log.countP Event.isGrant + 1, h.bytesHeld + e.object.size⟩)
  -- Paying and placing are two steps of the program and one event. In between the record is ahead
  -- of the heap by the size of the new object.
  have hp := htidy.place e
  have hbytes := bytesHeld_place htidy e
  rw [hplace] at hp hbytes
  have hheld : h'.bytesHeld = h.bytesHeld + e.object.size := hbytes
  refine ⟨htidy.placed hp, ?_, ?_, ?_⟩
  · rw [hp.tracker, hcount, hheld]
  · rw [hcount]
    exact hallocations
  · rw [hheld]
    exact hmemory

/-- An event that needs no consent and leaves the bytes as they are leaves the meter as it is. -/
lemma same (ha : h.Accounted limits log) (hev : Happens h event h') (hg : event.isGrant = false)
    (ht : h'.tracker = h.tracker) (hb : h'.bytesHeld = h.bytesHeld) :
    h'.Accounted limits (log ++ [event]) := by
  have hcount : (log ++ [event]).countP Event.isGrant = log.countP Event.isGrant := by
    rw [List.countP_append, List.countP_singleton, hg]
    rfl
  refine ⟨ha.tidy.happens hev, ?_, ?_, ?_⟩
  · rw [ht, hb, hcount]
    exact ha.tracker
  · rw [hcount]
    exact ha.allocations
  · rw [hb]
    exact ha.memory

/-- An object that goes gives back what it was charged for. -/
lemma vacate (ha : h.Accounted limits log) (he : h.slot? r = some e) (hm : e.immortal = false) :
    (h.vacate r e.object).Accounted limits (log ++ [.freed r e.object]) := by
  have hbytes := bytesHeld_vacate ha.tidy he hm
  have hcount : (log ++ [Event.freed r e.object]).countP Event.isGrant =
      log.countP Event.isGrant := by
    rw [List.countP_append, List.countP_singleton]
    rfl
  refine ⟨ha.tidy.vacate he hm, ?_, ?_, fun max hmax => ?_⟩
  -- The bytes were held, so the subtraction that stops at zero is the ordinary one.
  · have hsub : h.bytesHeld - e.object.size = (h.vacate r e.object).bytesHeld := by omega
    show h.tracker.credit e.object.size = _
    rw [ha.tracker, Tracker.credit, Meter.credit, hsub, hcount]
  · rw [hcount]
    exact ha.allocations
  · have := ha.memory max hmax
    omega

/-- Every event under which objects keep their size leaves the meter right. -/
lemma happens (ha : h.Accounted limits log) (hev : Happens h event h')
    (hp : event.Respects Object.SameSize) : h'.Accounted limits (log ++ [event]) := by
  cases hev with
  | @allocated _ o r hrun =>
    obtain ⟨t, ht, hplace⟩ := allocate_granted hrun
    exact ha.grant (e := ⟨1, false, o⟩) rfl ht hplace
  | @interned _ text r hnew hrun =>
    obtain ⟨t, h₁, ht, hplace, rfl⟩ := intern_granted hnew hrun
    -- The entry in the table of interned strings has no bytes of its own; but for the table it is a
    -- grant like the others.
    have ha₁ : h₁.Accounted limits (log ++ [.interned r text]) :=
      ha.grant (e := ⟨1, true, .str text⟩) rfl ht hplace
    exact ⟨⟨ha₁.tidy.nodup, ha₁.tidy.mem, ha₁.tidy.first⟩, ha₁.tracker, ha₁.allocations,
      ha₁.memory⟩
  | recounted he hm n => exact ha.same (.recounted he hm n) rfl rfl (bytesHeld_setSlot_same he rfl)
  | freed he hm => exact ha.vacate he hm
  | changed he o => exact ha.same (.changed he o) rfl rfl (bytesHeld_setSlot_same he hp)
  | leveled n => exact ha.same (.leveled n) rfl rfl rfl

/-- Every history in which objects keep their size leaves the meter right. -/
lemma history (ha : h.Accounted limits log) (hl : History h log' h')
    (hp : ∀ event ∈ log', event.Respects Object.SameSize) :
    h'.Accounted limits (log ++ log') := by
  induction hl generalizing log with
  | nil =>
    rw [List.append_nil]
    exact ha
  | @cons h h₁ h₂ event log' hev _ ih =>
    have ha₁ := ha.happens hev (hp event List.mem_cons_self)
    rw [← List.singleton_append, ← List.append_assoc]
    exact ih ha₁ (fun event he => hp event (List.mem_cons_of_mem _ he))

/-- What an object gives back was on record. -/
lemma size_le_memory (ha : h.Accounted limits log) {o : Object}
    (hev : Happens h (.freed r o) h') : ∃ m, h.tracker = .limited m ∧ o.size ≤ m.memory := by
  refine ⟨_, ha.tracker, ?_⟩
  cases hev with
  | @freed _ e he hm =>
    have := bytesHeld_vacate ha.tidy he hm
    show e.object.size ≤ h.bytesHeld
    omega

/-- Counting references gives back the bytes of what is freed. -/
lemma counting (ha : h.Accounted limits log) (hl : History h log' h')
    (hp : ∀ event ∈ log', event.isCounting = true) :
    h'.bytesHeld + (log'.map Event.bytesFreed).sum = h.bytesHeld := by
  induction hl generalizing log with
  | nil => rfl
  | @cons h h₁ h₂ event log' hev _ ih =>
    have hc := hp event List.mem_cons_self
    have hrest := ih (ha.happens hev (.of_isCounting hc))
      (fun event he => hp event (List.mem_cons_of_mem _ he))
    have hstep : h₁.bytesHeld + event.bytesFreed = h.bytesHeld := by
      cases hev with
      | recounted he hm n => exact bytesHeld_setSlot_same he rfl
      | freed he hm => exact bytesHeld_vacate ha.tidy he hm
      | _ => cases hc
    rw [List.map_cons, List.sum_cons]
    omega

end Accounted

end Heap

end NativeCall
