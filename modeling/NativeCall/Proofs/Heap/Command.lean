import NativeCall.Heap.Stats
import NativeCall.Proofs.Heap.Client
import NativeCall.Proofs.Heap.Effects

/-!
# Heaps in the hands of anyone

A `Command` is a single operation of a heap on arbitrary references. Nobody checks who owns what:
objects may be released twice, freed while others refer to them, or put on the heap with references
to nothing, and a command may stop at a misuse with half of its work done.

Counts mean nothing on a heap that is used like that. Some things hold all the same, because they
hold after every event (`Happens.continues`, `Furnished.happens`) and so along every history: the
free list has the empty slots, each once, no object is ever placed on another one, and the objects
that are always there and the interned strings are where they were put (`orderly_afterAll`).

## Where a command stops

A command that comes to an empty slot stops there, and the heap is what it had become by then. So a
run is not a sequence of successful operations, and a statement of the form "if the command returns"
would leave out the interesting half. `after` takes the heap out of either outcome, and a command is
described by its history: some sequence of events leads to that heap, each of which is allowed
(`command_effect`). A loop that stopped in the middle has a shorter history than one that went
through, and nothing else is different about it.

## What survives

Of the things that hold on a counted heap those survive that are about slots and not about
references. That the free list and the empty slots agree is a matter of vacating and placing, and
each event keeps it. That the first slots keep their objects, and interned strings theirs, follows
from their being immortal: no command drops a reference to an immortal object, frees its slot or
changes it. The proviso of `Happens.slot?_of_immortal` is for the one command that changes an object
in its slot; it changes lists, and a list is neither of the two.

Counting the slots is the last step: the free list has as many members as there are empty slots,
because it is a permutation of them (`Tidy.length_freeList`).
-/

namespace NativeCall

/-! ## Commands -/

/-- An operation of a heap, right or wrong. -/
inductive Command where
  | allocate (o : Object)
  | intern (text : String)
  | incRef (r : Ref)
  | decRef (r : Ref)
  | releaseStorage (r : Ref)
  /-- Puts an item at the end of a list. -/
  | append (list item : Ref)
  deriving DecidableEq, Repr

namespace Command

open Heap

/-- Executes a command. It returns the references that the caller owns for it: a new object, or a
new reference, or an item that no list took over. -/
def run : Command → HeapM (List Ref)
  | allocate o => do
    match ← (Heap.allocate o).run with
    | .ok r => return [r]
    | .error _ => return []
  | intern text => do
    let _ ← (Heap.intern text).run
    return []
  | incRef r => do
    Heap.incRef r
    return [r]
  | decRef r => do
    Heap.decRef r
    return []
  | releaseStorage r => do
    Heap.releaseStorage r
    return []
  | append list item => do
    match (← demand .getMut list).object with
    | .list store =>
      update list (fun _ => .list (store.push item))
      return []
    | _ => return [item]

/-- The heap after commands, each of which may have stopped early. -/
def afterAll (commands : List Command) (h : Heap) : Heap :=
  commands.foldl (fun h c => after c.run h) h

lemma afterAll_append (commands : List Command) (c : Command) (h : Heap) :
    afterAll (commands ++ [c]) h = after c.run (afterAll commands h) := by
  rw [afterAll, List.foldl_append]
  rfl

end Command

/-- An object is a list that gets one more item. -/
def Object.Grows (old new : Object) : Prop :=
  ∃ store item, old = .list store ∧ new = .list (store.push item)

namespace Heap

variable {h h' h'' : Heap} {r : Ref} {e : Entry} {event : Event} {log : List Event}

/-- A list takes the item over. -/
lemma append_list {list item : Ref} {store : ListStore} (he : h.slot? list = some e)
    (ho : e.object = .list store) :
    (Command.append list item).run h =
      .ok [] (h.setSlot list (some { e with object := .list (store.push item) })) := by
  have hrun : (Command.append list item).run h = _ := bind_ok (demand_of_slot? he)
  have hupdate : update list (fun _ => .list (store.push item)) h =
      .ok () (h.setSlot list (some { e with object := .list (store.push item) })) :=
    bind_ok (demand_of_slot? he)
  rw [ho] at hrun
  exact hrun.trans (bind_ok hupdate)

/-- Another object leaves the item to the caller. -/
lemma append_other {list item : Ref} (he : h.slot? list = some e)
    (ho : ∀ store, e.object ≠ .list store) : (Command.append list item).run h = .ok [item] h := by
  have hrun : (Command.append list item).run h = _ := bind_ok (demand_of_slot? he)
  cases hobject : e.object with
  | list store => exact absurd hobject (ho store)
  | _ =>
    rw [hobject] at hrun
    exact hrun

/-- A history of an append: the list grew, or nothing happened. -/
lemma history_append (list item : Ref) (h : Heap) :
    ∃ log, History h log (after (Command.append list item).run h) ∧
      ∀ event ∈ log, ∃ e store, h.slot? list = some e ∧ e.object = .list store ∧
        event = .changed list (.list store) (.list (store.push item)) := by
  cases hs : h.slot? list with
  | none =>
    obtain ⟨m, hm⟩ : ∃ m, demand .getMut list h = .error m h := demand_of_slot?_eq_none hs
    exact History.exists_nil (after_stopped (bind_stopped hm))
  | some e =>
    by_cases hlist : ∃ store, e.object = .list store
    · obtain ⟨store, ho⟩ := hlist
      have hev : Happens h (.changed list e.object (.list (store.push item))) _ := .changed hs _
      rw [ho] at hev
      rw [after_ok (append_list hs ho)]
      exact History.exists_single hev ⟨e, store, rfl, ho, rfl⟩
    · exact History.exists_nil (after_ok (append_other hs (fun store ho => hlist ⟨store, ho⟩)))

/-- Commands other than appends change no object. -/
lemma marshals_command {allowed : Object → Object → Prop} {c : Command}
    (hc : ∀ list item, c ≠ .append list item) : Marshals allowed c.run := by
  cases c with
  | allocate o =>
    refine Causes.bind (Marshals.allocate o) (fun outcome => ?_)
    cases outcome <;> exact Causes.ret _
  | intern text => exact Causes.bind (Marshals.intern text) (fun _ => Causes.ret _)
  | incRef r => exact Causes.bind (Marshals.incRef r) (fun _ => Causes.ret _)
  | decRef r => exact Causes.bind (Marshals.decRef r) (fun _ => Causes.ret _)
  | releaseStorage r =>
    exact Causes.bind ((Causes.releaseStorage r).marshals _) (fun _ => Causes.ret _)
  | append list item => exact absurd rfl (hc list item)

/-- A command marshals, and at most makes a list grow. -/
lemma command_effect (c : Command) : Marshals Object.Grows c.run := by
  by_cases hc : ∃ list item, c = .append list item
  · obtain ⟨list, item, rfl⟩ := hc
    intro h
    obtain ⟨log, hl, hp⟩ := history_append list item h
    refine ⟨log, hl, fun event he => ?_⟩
    obtain ⟨e, store, -, -, rfl⟩ := hp event he
    exact ⟨store, item, rfl, rfl⟩
  · exact marshals_command (fun list item he => hc ⟨list, item, he⟩)

/-- What commands do to a heap is a history. -/
lemma history_afterAll (commands : List Command) (h : Heap) :
    ∃ log, History h log (Command.afterAll commands h) ∧
      ∀ event ∈ log, event.Respects Object.Grows := by
  induction commands generalizing h with
  | nil => exact History.exists_nil rfl
  | cons c commands ih => exact History.exists_append (command_effect c h) (ih (after c.run h))

/-! ## The number of empty slots -/

/-- The heap as a list of its slots. -/
lemma toList_slots (h : Heap) :
    h.slots.toList = (List.range h.slots.size).map (fun i => h.slot? ⟨i⟩) := by
  refine List.ext_getElem (by simp) (fun i hi hi' => ?_)
  have hlt : i < h.slots.size := by simpa using hi
  simp [slot?, hlt]

/-- The free list is as long as there are empty slots. -/
lemma Tidy.length_freeList (ht : h.Tidy) : h.freeList.length = h.emptyCount := by
  -- The free list may be in any order, and so may have any member in front; its members are the
  -- empty slots all the same.
  have hperm : (h.freeList.map Ref.index).Perm
      ((List.range h.slots.size).filter (fun i => (h.slot? ⟨i⟩).isNone)) := by
    refine (List.perm_ext_iff_of_nodup ?_ ?_).mpr (fun i => ?_)
    · refine ht.nodup.map (fun a b hab => ?_)
      cases a
      cases b
      exact congrArg Ref.mk hab
    · exact List.nodup_range.filter _
    · rw [List.mem_map, List.mem_filter, List.mem_range, Option.isNone_iff_eq_none]
      constructor
      · rintro ⟨r, hr, rfl⟩
        exact (ht.mem r).mp hr
      · intro hi
        exact ⟨⟨i⟩, (ht.mem ⟨i⟩).mpr hi, rfl⟩
  have hlength := hperm.length_eq
  rw [List.length_map] at hlength
  rw [hlength, emptyCount, ← Array.countP_toList, toList_slots, List.countP_map,
    List.countP_eq_length_filter]
  rfl

lemma Tidy.live_add_free (ht : h.Tidy) : h.stats.live + h.stats.free = h.stats.slots := by
  show h.liveCount + h.freeList.length = h.slots.size
  rw [ht.length_freeList, liveCount, emptyCount, ← Array.countP_toList, ← Array.countP_toList,
    ← Array.length_toList, List.length_eq_countP_add_countP Option.isSome (l := h.slots.toList)]
  congr 2
  funext s
  cases s <;> rfl

/-! ## What events leave alone -/

/-- The slots of `h` are there on `h'`, and so are its interned strings. -/
structure Continues (h h' : Heap) : Prop where
  size : h.slots.size ≤ h'.slots.size
  interned : ∀ text r, h.internedRef? text = some r → h'.internedRef? text = some r

namespace Continues

lemma refl (h : Heap) : Continues h h :=
  ⟨le_rfl, fun _ _ hr => hr⟩

lemma trans (hc : Continues h h') (hc' : Continues h' h'') : Continues h h'' :=
  ⟨hc.size.trans hc'.size, fun text r hr => hc'.interned text r (hc.interned text r hr)⟩

end Continues

lemma size_setSlot (h : Heap) (r : Ref) (s : Option Entry) :
    (h.setSlot r s).slots.size = h.slots.size :=
  Array.size_setIfInBounds

lemma size_place (h : Heap) (e : Entry) : h.slots.size ≤ (h.place e).2.slots.size := by
  unfold place
  cases h.freeList with
  | nil =>
    show h.slots.size ≤ (h.slots.push (some e)).size
    rw [Array.size_push]
    omega
  | cons r rest => exact (size_setSlot h r (some e)).ge

/-- No event takes slots or interned strings away. -/
lemma Happens.continues (hev : Happens h event h') : Continues h h' := by
  refine ⟨?_, fun text r hr => hev.internedRef?_eq_some.mpr (.inr hr)⟩
  cases hev with
  | @allocated _ o r hrun =>
    obtain ⟨t, -, hplace⟩ := allocate_granted hrun
    have hsize := size_place { h with tracker := t } ⟨1, false, o⟩
    rwa [hplace] at hsize
  | @interned _ text r hnew hrun =>
    obtain ⟨t, h₁, -, hplace, rfl⟩ := intern_granted hnew hrun
    have hsize := size_place { h with tracker := t } ⟨1, true, .str text⟩
    rwa [hplace] at hsize
  | recounted | freed | changed => exact (size_setSlot ..).ge
  | leveled n => exact le_rfl

/-- No history takes slots or interned strings away. -/
lemma History.continues (hl : History h log h') : Continues h h' := by
  induction hl with
  | nil => exact .refl _
  | cons hev _ ih => exact hev.continues.trans ih

/-- An immortal object stays as it is, unless it is changed in its slot. -/
lemma Happens.slot?_of_immortal (ht : h.Tidy) (hev : Happens h event h')
    (hsame : ∀ o, event = .changed r e.object o → o = e.object) (he : h.slot? r = some e)
    (hm : e.immortal = true) : h'.slot? r = some e := by
  -- A count that changes and a slot that is emptied belong to mortal objects.
  have hother : ∀ {q : Ref} {f : Entry}, h.slot? q = some f → f.immortal = false → r ≠ q := by
    rintro q f hf hfm rfl
    obtain rfl := Option.some.inj (he.symm.trans hf)
    rw [hm] at hfm
    cases hfm
  cases hev with
  | allocated hrun =>
    obtain ⟨t, -, hplaced⟩ := ht.allocate hrun
    exact hplaced.slot?_of_slot? he
  | interned hnew hrun =>
    obtain ⟨t, h₁, -, hplaced, rfl⟩ := ht.intern hnew hrun
    exact hplaced.slot?_of_slot? he
  | recounted hf hfm n =>
    rw [slot?_setSlot _ (lt_size_of_slot? hf), Function.update_of_ne (hother hf hfm)]
    exact he
  | freed hf hfm =>
    rw [slot?_vacate _ (lt_size_of_slot? hf), Function.update_of_ne (hother hf hfm)]
    exact he
  | @changed q f hf o =>
    rw [slot?_setSlot _ (lt_size_of_slot? hf)]
    by_cases hq : r = q
    · subst hq
      obtain rfl := Option.some.inj (he.symm.trans hf)
      rw [Function.update_self, hsame o rfl]
    · rw [Function.update_of_ne hq]
      exact he
  | leveled n => exact he

/-- An immortal object that is no list stays as it is, where nothing but lists changes. -/
lemma Happens.immortal (ht : h.Tidy) (hev : Happens h event h')
    (hp : event.Respects Object.Grows) (he : h.slot? r = some e) (hm : e.immortal = true)
    (hl : ∀ store, e.object ≠ .list store) : h'.slot? r = some e := by
  refine hev.slot?_of_immortal ht (fun o ho => ?_) he hm
  subst ho
  obtain ⟨store, -, hold, -⟩ := hp
  exact absurd hold (hl store)

lemma History.immortal (hl : History h log h') (ht : h.Tidy)
    (hp : ∀ event ∈ log, event.Respects Object.Grows) (he : h.slot? r = some e)
    (hm : e.immortal = true) (hne : ∀ store, e.object ≠ .list store) : h'.slot? r = some e := by
  induction hl with
  | nil => exact he
  | @cons h h₁ h₂ event log hev _ ih =>
    have he₁ := hev.immortal ht (hp event List.mem_cons_self) he hm hne
    exact ih (ht.happens hev) (fun event he => hp event (List.mem_cons_of_mem _ he)) he₁

/-- The objects that are always there are in the first slots, and interned strings are where the
table says. -/
structure Furnished (h : Heap) : Prop where
  singleton : ∀ i o, singletons[i]? = some o → h.slot? ⟨i⟩ = some ⟨1, true, o⟩
  interned : ∀ text r, h.internedRef? text = some r → h.slot? r = some ⟨1, true, .str text⟩

lemma furnished_fresh (t : Tracker) : (fresh t).Furnished :=
  ⟨(counted_fresh t).singleton, fun text r hr => by cases hr⟩

lemma not_list_of_singletons {i : Nat} {o : Object} (ho : singletons[i]? = some o) :
    ∀ store, o ≠ .list store := by
  have hmem := List.mem_of_getElem? ho
  rintro store rfl
  simp [singletons] at hmem

/-- The string that an event makes is where the table says; the others are, if they were left as
they were. -/
lemma Happens.slot?_of_internedRef? (ht : h.Tidy) (hev : Happens h event h') {text : String}
    (hkept : h.internedRef? text = some r → h'.slot? r = some ⟨1, true, .str text⟩)
    (hr : h'.internedRef? text = some r) : h'.slot? r = some ⟨1, true, .str text⟩ := by
  rcases hev.internedRef?_eq_some.mp hr with rfl | hold
  · cases hev with
    | interned hnew hrun =>
      obtain ⟨t, h₁, -, hplaced, rfl⟩ := ht.intern hnew hrun
      show h₁.slot? r = _
      rw [hplaced.slots, Function.update_self]
  · exact hkept hold

lemma Furnished.happens (hf : h.Furnished) (ht : h.Tidy) (hev : Happens h event h')
    (hp : event.Respects Object.Grows) : h'.Furnished := by
  refine ⟨fun i o ho => ?_, fun text r hr => ?_⟩
  · exact hev.immortal ht hp (hf.singleton i o ho) rfl (not_list_of_singletons ho)
  · refine hev.slot?_of_internedRef? ht (fun hold => ?_) hr
    refine hev.immortal ht hp (hf.interned text r hold) rfl ?_
    rintro store ⟨⟩

/-! ## What holds of every heap -/

/-- What holds of a heap, however it was used. -/
structure Orderly (h : Heap) : Prop extends Furnished h where
  nodup_freeList : h.freeList.Nodup
  mem_freeList : ∀ r, r ∈ h.freeList ↔ r.index < h.slots.size ∧ h.slot? r = none
  live_add_free : h.stats.live + h.stats.free = h.stats.slots

/-- The entry `e` was put into a slot that was empty, and nothing else was touched. -/
structure Fills (h : Heap) (r : Ref) (e : Entry) (h' : Heap) : Prop where
  empty : h.slot? r = none
  filled : h'.slot? r = some e
  others : ∀ q, q ≠ r → h'.slot? q = h.slot? q

lemma Placed.fills (hp : Placed h e r h') : Fills h r e h' := by
  refine ⟨hp.empty, ?_, fun q hq => ?_⟩
  · rw [hp.slots, Function.update_self]
  · rw [hp.slots, Function.update_of_ne hq]

lemma orderly_of_history {t : Tracker} (hl : History (fresh t) log h)
    (hp : ∀ event ∈ log, event.Respects Object.Grows) : h.Orderly := by
  have hboth : h.Tidy ∧ h.Furnished := by
    refine hl.keeps (I := fun h => h.Tidy ∧ h.Furnished) hp (fun h event h' hp hev hi => ?_)
      ⟨tidy_fresh t, furnished_fresh t⟩
    exact ⟨hi.1.happens hev, hi.2.happens hi.1 hev hp⟩
  obtain ⟨ht, hf⟩ := hboth
  exact ⟨hf, ht.nodup, ht.mem, ht.live_add_free⟩

/-- **Heaps are orderly, however they are used.** Take a fresh heap, with any limits, and any
commands, on any references, some of which may have stopped at a misuse. Then the free list has
the empty slots, each once, live and free slots are all slots, and the objects that are always
there and the interned strings are in their places. One more command, whether it succeeds, is
refused or is stopped, takes no slot and no interned string away; and if it puts an object on the
heap, by an allocation or by interning a new text, that object goes where there was none, and every
other slot stays as it was. -/
theorem orderly_afterAll (t : Tracker) (commands : List Command) :
    (Command.afterAll commands (fresh t)).Orderly ∧
    (∀ c : Command, Continues (Command.afterAll commands (fresh t))
      (Command.afterAll (commands ++ [c]) (fresh t))) ∧
    (∀ o r h', (allocate o).run (Command.afterAll commands (fresh t)) = .ok (.ok r) h' →
      Fills (Command.afterAll commands (fresh t)) r ⟨1, false, o⟩ h') ∧
    (∀ text r h', (Command.afterAll commands (fresh t)).internedRef? text = none →
      (intern text).run (Command.afterAll commands (fresh t)) = .ok (.ok r) h' →
      Fills (Command.afterAll commands (fresh t)) r ⟨1, true, .str text⟩ h') := by
  -- All that is needed of the commands is the history of what they did, with no word about who
  -- owned what.
  obtain ⟨log, hl, hp⟩ := history_afterAll commands (fresh t)
  have ht := (tidy_fresh t).history hl
  refine ⟨orderly_of_history hl hp, fun c => ?_, fun o r h' hrun => ?_,
    fun text r h' hnew hrun => ?_⟩
  · obtain ⟨log', hl', -⟩ := command_effect c (Command.afterAll commands (fresh t))
    rw [Command.afterAll_append]
    exact hl'.continues
  · obtain ⟨tracker, -, hplaced⟩ := ht.allocate hrun
    have hfills := hplaced.fills
    exact ⟨hfills.empty, hfills.filled, hfills.others⟩
  · obtain ⟨tracker, h₁, -, hplaced, rfl⟩ := ht.intern hnew hrun
    have hfills := hplaced.fills
    exact ⟨hfills.empty, hfills.filled, hfills.others⟩

end Heap

end NativeCall
