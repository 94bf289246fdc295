import NativeCall.Proofs.Accounting
import NativeCall.Proofs.Heap.ExactCounts

/-!
# Metered runtimes in which lists grow

A list that is full gets more storage when an item is put at its end, and nobody pays for that. The
meter has the size on record that the list was charged for when it came, and gets back the size that
it has when it goes. So it gets back too much, and the subtraction that stops at zero hides what is
missing.

`books` keeps what the meter does not: each object that is still there, with the size that it was
charged for. The bytes on record never pass what is charged for these objects (`Grown.memory_le`),
and they fall short of it from the moment at which an object goes that has grown, until nothing that
was ever charged is left (`Faithful`). A list that has grown does no harm while it lives. When it
goes, the bytes that are given back in excess are those of other objects, which live on and are not
counted any more.

## The shape of the statement

One would like to say that the record is the sum of the charges of what is alive. That is false, and
the theorem says when: the two are equal just if the books are faithful. One direction is the safe
bound, since a record that is too small never refuses a charge that the true one would grant. The
other direction is what makes the bound useful to somebody who wants to know whether a given run has
gone wrong: they need only look at the sizes of what was freed.

The second disjunct in `Faithful` is for a record that recovers. Subtraction stops at zero, so if
everything that was charged has gone, then the record is zero whatever it was, and so is the sum;
from there on it is right again. Nothing short of that repairs it, since no charge is ever larger
than the size of its object.

## The invariant

`Booked` relates the books to the heap: which objects are on them, that no object is smaller than
what it was charged for, and what the meter has on record. It is preserved by each of the six
events, and two of them need an argument. A grant is entered in the books and paid for with the same
number. A free takes one entry off the books and possibly more than that off the record
(`Booked.vacate`); the comparison of the two differences is linear arithmetic, with the subtraction
that stops at zero.
-/

namespace NativeCall

open Heap

/-! ## What was charged -/

/-- An object is changed into one that is not smaller. -/
def Object.Enlarges (old new : Object) : Prop :=
  old.size ≤ new.size

/-- Enters an event into the books. -/
def Event.enter (books : List (Ref × Nat)) : Event → List (Ref × Nat)
  | allocated r o => (r, o.size) :: books
  | interned r text => (r, (Object.str text).size) :: books
  | freed r _ => books.filter (·.1 ≠ r)
  | _ => books

/-- The objects that were granted and have not gone, each with the size that it was charged for. -/
def books (log : List Event) : List (Ref × Nat) :=
  log.foldl Event.enter []

/-- The sizes that were charged for the objects that have not gone. -/
def charged (log : List Event) : Nat :=
  ((books log).map Prod.snd).sum

/-- Every object that has gone had the size that it was charged for, unless all that was charged for
went with it or later. -/
def Faithful (log : List Event) : Prop :=
  ∀ before r o rest, log = before ++ .freed r o :: rest → (r, o.size) ∈ books before ∨
    ∃ mid later, rest = mid ++ later ∧ books (before ++ .freed r o :: mid) = []

lemma Object.size_pos (o : Object) : 0 < o.size := by
  unfold Object.size Object.recordSize
  omega

/-- What a granted charge leaves on the meter. -/
lemma Tracker.charge_limited {m : Meter} {size : Nat} {t : Tracker}
    (ht : (Tracker.limited m).charge size = .ok t) :
    t = .limited ⟨m.limits, m.allocations + 1, m.memory + size⟩ := by
  rw [Tracker.charge] at ht
  cases hm : m.charge size with
  | error e =>
    rw [hm] at ht
    cases ht
  | ok m' =>
    rw [hm] at ht
    obtain ⟨-, -, rfl⟩ := Meter.charge_eq_ok.mp hm
    cases ht
    rfl

section Books

variable {log : List Event} {event : Event} {r : Ref} {o : Object} {n : Nat}

lemma books_append (log : List Event) (event : Event) :
    books (log ++ [event]) = event.enter (books log) := by
  rw [books, List.foldl_append]
  rfl

/-- An entry is one charge. -/
lemma sum_filter_of_mem {entries : List (Ref × Nat)} (hnodup : (entries.map Prod.fst).Nodup)
    (hmem : (r, n) ∈ entries) :
    ((entries.filter (·.1 ≠ r)).map Prod.snd).sum + n = (entries.map Prod.snd).sum := by
  induction entries with
  | nil => cases hmem
  | cons entry entries ih =>
    rw [List.map_cons, List.nodup_cons] at hnodup
    obtain ⟨hfirst, hnodup⟩ := hnodup
    rw [List.filter_cons, List.map_cons, List.sum_cons]
    -- The entry is the first one, and then no other has its reference, or it is a later one.
    rcases List.mem_cons.mp hmem with rfl | hmem
    · have hrest : entries.filter (·.1 ≠ r) = entries := by
        refine List.filter_eq_self.mpr (fun other hother => decide_eq_true (fun hother' => ?_))
        have hkey : other.1 ∈ entries.map Prod.fst := List.mem_map_of_mem hother
        exact hfirst (hother' ▸ hkey)
      rw [if_neg (by simp), hrest, Nat.add_comm]
    · have hkey : r ∈ entries.map Prod.fst := List.mem_map_of_mem (f := Prod.fst) hmem
      have hne : entry.1 ≠ r := fun hr => hfirst (hr ▸ hkey)
      rw [if_pos (decide_eq_true hne), List.map_cons, List.sum_cons, Nat.add_assoc,
        ih hnodup hmem]

/-- Nothing is on the books if nothing was charged for what is on them. -/
lemma bare_iff (hpositive : ∀ r n, (r, n) ∈ books log → 0 < n) :
    books log = [] ↔ charged log = 0 := by
  rw [charged]
  cases hbooks : books log with
  | nil => exact iff_of_true rfl rfl
  | cons entry entries =>
    have hpos := hpositive entry.1 entry.2 (hbooks ▸ List.mem_cons_self)
    rw [List.map_cons, List.sum_cons]
    exact iff_of_false (List.cons_ne_nil _ _) (by omega)

/-- The end of a log is in the second part of it, if there is one. -/
lemma concat_eq_append {α : Type} {l first second : List α} {a : α}
    (h : l ++ [a] = first ++ second) :
    second = [] ∧ first = l ++ [a] ∨ ∃ second', second = second' ++ [a] ∧ l = first ++ second' := by
  rcases List.eq_nil_or_concat second with rfl | ⟨second', b, rfl⟩
  · exact .inl ⟨rfl, by simpa using h.symm⟩
  · rw [List.concat_eq_append] at h ⊢
    rw [← List.append_assoc] at h
    obtain ⟨hl, hab⟩ := List.append_inj' h rfl
    obtain rfl : a = b := by simpa using hab
    exact .inr ⟨second', rfl, hl⟩

/-- What is faithful for a log stays so behind one more event. -/
lemma Faithful.later (hf : Faithful log) {before rest : List Event}
    (hlog : log = before ++ .freed r o :: rest) (event : Event) :
    (r, o.size) ∈ books before ∨
      ∃ mid later, rest ++ [event] = mid ++ later ∧ books (before ++ .freed r o :: mid) = [] := by
  rcases hf before r o rest hlog with hmem | ⟨mid, later, rfl, hbare⟩
  · exact .inl hmem
  · exact .inr ⟨mid, later ++ [event], by rw [List.append_assoc], hbare⟩

/-- What is faithful for a log was so before its last event, if there is something on the books. -/
lemma Faithful.of_append (hf : Faithful (log ++ [event])) (hsome : books (log ++ [event]) ≠ []) :
    Faithful log := by
  rintro before r o rest rfl
  have hsplit := hf before r o (rest ++ [event]) (by simp)
  rcases hsplit with hmem | ⟨mid, later, hrest, hbare⟩
  · exact .inl hmem
  · rcases concat_eq_append hrest with ⟨rfl, rfl⟩ | ⟨later', rfl, rfl⟩
    · exact absurd (by simpa using hbare) hsome
    · exact .inr ⟨mid, later', rfl, hbare⟩

/-- With nothing on the books they are faithful. -/
lemma faithful_of_bare (hbare : books log = []) : Faithful log := by
  rintro before r o rest rfl
  exact .inr ⟨rest, [], by simp, hbare⟩

/-- What does not free an object makes books neither faithful nor unfaithful. -/
lemma faithful_append_of_kept (hkept : ∀ r o, event ≠ .freed r o) :
    Faithful (log ++ [event]) ↔ Faithful log := by
  constructor
  · intro hf
    by_cases hbare : books (log ++ [event]) = []
    · refine faithful_of_bare ?_
      rw [books_append] at hbare
      cases event with
      | freed r o => exact absurd rfl (hkept r o)
      | allocated | interned => cases hbare
      | _ => exact hbare
    · exact hf.of_append hbare
  · intro hf before r o rest hlog
    rcases concat_eq_append hlog with ⟨hrest, -⟩ | ⟨rest', hrest, rfl⟩
    · cases hrest
    · cases rest' with
      | nil =>
        obtain ⟨hfreed, -⟩ := List.cons.inj hrest
        exact absurd hfreed.symm (hkept r o)
      | cons first rest' =>
        obtain ⟨rfl, rfl⟩ := List.cons.inj hrest
        exact hf.later rfl event

/-- An object that goes leaves the books faithful if it was charged for the size that it has, and
makes them so if nothing else is on them. -/
lemma faithful_append_freed : Faithful (log ++ [.freed r o]) ↔
    books (log ++ [.freed r o]) = [] ∨ Faithful log ∧ (r, o.size) ∈ books log := by
  constructor
  · intro hf
    by_cases hbare : books (log ++ [.freed r o]) = []
    · exact .inl hbare
    · refine .inr ⟨hf.of_append hbare, ?_⟩
      rcases hf log r o [] rfl with hmem | ⟨mid, later, hnil, hbare'⟩
      · exact hmem
      · obtain ⟨rfl, -⟩ := List.append_eq_nil_iff.mp hnil.symm
        exact absurd hbare' hbare
  · rintro (hbare | ⟨hf, hmem⟩)
    · exact faithful_of_bare hbare
    · intro before q p rest hlog
      rcases concat_eq_append hlog with ⟨hrest, -⟩ | ⟨rest', hrest, rfl⟩
      · cases hrest
      · cases rest' with
        | nil =>
          obtain ⟨hfreed, rfl⟩ := List.cons.inj hrest
          cases hfreed
          rw [List.append_nil] at hmem
          exact .inl hmem
        | cons first rest' =>
          obtain ⟨rfl, rfl⟩ := List.cons.inj hrest
          exact hf.later rfl _

end Books

namespace Heap

/-! ## The meter and the books -/

/-- The events of a log made the heap what it is, from a fresh one, and no object became smaller in
its slot. -/
structure Grown (limits : Limits) (log : List Event) (h : Heap) : Prop where
  history : History (fresh (.limited ⟨limits, 0, 0⟩)) log h
  enlarges : ∀ event ∈ log, event.Respects Object.Enlarges

/-- The books list the objects that were charged for and are still there, each once; each has at
least the size on the books, and what the meter has on record is what the books say if they are
faithful, and less otherwise. -/
structure Booked (limits : Limits) (log : List Event) (h : Heap) : Prop where
  tidy : h.Tidy
  nodup : ((books log).map Prod.fst).Nodup
  mem : ∀ r, (∃ n, (r, n) ∈ books log) ↔ h.isLive r = true ∧ singletons.length ≤ r.index
  le_size : ∀ r n e, (r, n) ∈ books log → h.slot? r = some e → n ≤ e.object.size
  positive : ∀ r n, (r, n) ∈ books log → 0 < n
  tracker : ∃ memory, h.tracker = .limited ⟨limits, log.countP Event.isGrant, memory⟩ ∧
    memory ≤ charged log ∧ (charged log ≤ memory ↔ Faithful log)

namespace Booked

variable {limits : Limits} {log : List Event} {h h' : Heap} {r : Ref} {e e' : Entry} {event : Event}

lemma start (limits : Limits) : Booked limits [] (fresh (.limited ⟨limits, 0, 0⟩)) := by
  refine ⟨tidy_fresh _, List.nodup_nil, fun r => ?_, fun _ _ _ hmem _ => absurd hmem List.not_mem_nil,
    fun _ _ hmem => absurd hmem List.not_mem_nil, 0, rfl, le_rfl, ?_⟩
  · have hlive : (singletons[r.index]?).isSome = true ↔ r.index < singletons.length := by simp
    rw [isLive, slot?_fresh, Option.isSome_map, hlive]
    refine iff_of_false (fun hsome => List.not_mem_nil hsome.choose_spec) ?_
    omega
  · exact iff_of_true le_rfl (faithful_of_bare rfl)

/-- An object that was paid for is placed and entered in the books. -/
lemma grant (hb : h.Booked limits log) (hg : event.isGrant = true)
    (henter : event.enter (books log) = (r, e.object.size) :: books log) {t : Tracker}
    (ht : h.tracker.charge e.object.size = .ok t)
    (hplace : ({ h with tracker := t } : Heap).place e = (r, h')) :
    h'.Booked limits (log ++ [event]) := by
  have hp := (hb.tidy.withTracker t).place e
  rw [hplace] at hp
  have hbooks : books (log ++ [event]) = (r, e.object.size) :: books log := by
    rw [books_append, henter]
  have hempty : h.slot? r = none := hp.empty
  have hnew : r ∉ (books log).map Prod.fst := by
    intro hr
    obtain ⟨⟨q, n⟩, hmem, rfl⟩ := List.mem_map.mp hr
    have hlive := ((hb.mem q).mp ⟨n, hmem⟩).1
    rw [isLive, hempty] at hlive
    cases hlive
  obtain ⟨memory, htracker, hle, hiff⟩ := hb.tracker
  rw [htracker] at ht
  have hpaid := Tracker.charge_limited ht
  have hcharged : charged (log ++ [event]) = e.object.size + charged log := by
    rw [charged, hbooks, List.map_cons, List.sum_cons]
    rfl
  have hkept : ∀ q o, event ≠ .freed q o := by
    rintro q o rfl
    cases hg
  refine ⟨(hb.tidy.withTracker t).placed hp, ?_, fun q => ?_, fun q n f hmem hf => ?_,
    fun q n hmem => ?_, memory + e.object.size, ?_, ?_, ?_⟩
  · rw [hbooks]
    exact List.nodup_cons.mpr ⟨hnew, hb.nodup⟩
  · rw [hbooks, isLive, hp.slots]
    by_cases hq : q = r
    · subst hq
      rw [Function.update_self]
      exact iff_of_true ⟨_, List.mem_cons_self⟩ ⟨rfl, hb.tidy.le_index_of_none hempty⟩
    · rw [Function.update_of_ne hq]
      show _ ↔ (h.slot? q).isSome = true ∧ _
      simpa [hq, isLive] using hb.mem q
  · rw [hbooks] at hmem
    rw [hp.slots] at hf
    rcases List.mem_cons.mp hmem with hfirst | hold
    · obtain ⟨rfl, rfl⟩ := Prod.mk.inj hfirst
      rw [Function.update_self] at hf
      rw [Option.some.inj hf]
    · have hkey : q ∈ (books log).map Prod.fst := List.mem_map_of_mem (f := Prod.fst) hold
      have hq : q ≠ r := fun hq => hnew (hq ▸ hkey)
      rw [Function.update_of_ne hq] at hf
      exact hb.le_size q n f hold hf
  · rw [hbooks] at hmem
    rcases List.mem_cons.mp hmem with hfirst | hmem
    · obtain ⟨rfl, rfl⟩ := Prod.mk.inj hfirst
      exact Object.size_pos _
    · exact hb.positive q n hmem
  · rw [hp.tracker, List.countP_append, List.countP_singleton, if_pos hg]
    exact hpaid
  · omega
  · rw [faithful_append_of_kept hkept, ← hiff, hcharged]
    omega

/-- An event that grants and frees nothing leaves the books as they are. -/
lemma idle (hb : h.Booked limits log) (henter : event.enter (books log) = books log)
    (hg : event.isGrant = false) (hkept : ∀ q o, event ≠ .freed q o) :
    h.Booked limits (log ++ [event]) := by
  have hbooks : books (log ++ [event]) = books log := by
    rw [books_append, henter]
  have hcharged : charged (log ++ [event]) = charged log := by
    rw [charged, hbooks, charged]
  have hcount : (log ++ [event]).countP Event.isGrant = log.countP Event.isGrant := by
    rw [List.countP_append, List.countP_singleton, hg]
    rfl
  refine ⟨hb.tidy, ?_, ?_, ?_, ?_, ?_⟩
  · rw [hbooks]
    exact hb.nodup
  · rw [hbooks]
    exact hb.mem
  · rw [hbooks]
    exact hb.le_size
  · rw [hbooks]
    exact hb.positive
  · rw [hcount, hcharged, faithful_append_of_kept hkept]
    exact hb.tracker

/-- An object is written anew in its slot, and is not smaller than before. -/
lemma rewrite (hb : h.Booked limits log) (he : h.slot? r = some e)
    (hm : e'.immortal = e.immortal) (hsize : e.object.size ≤ e'.object.size) :
    (h.setSlot r (some e')).Booked limits log := by
  have hslot := slot?_setSlot (some e') (lt_size_of_slot? he)
  refine ⟨hb.tidy.setSlot he e' hm, hb.nodup, fun q => ?_, fun q n f hmem hf => ?_, hb.positive,
    hb.tracker⟩
  · rw [hb.mem, isLive, isLive, hslot]
    by_cases hq : q = r
    · rw [hq, Function.update_self, he]
      rfl
    · rw [Function.update_of_ne hq]
  · rw [hslot] at hf
    by_cases hq : q = r
    · rw [hq] at hmem hf
      rw [Function.update_self] at hf
      obtain rfl := Option.some.inj hf
      exact (hb.le_size r n e hmem he).trans hsize
    · rw [Function.update_of_ne hq] at hf
      exact hb.le_size q n f hmem hf

/-- An object that goes gives back the size that it has, and what it was charged for is taken off
the books. -/
lemma vacate (hb : h.Booked limits log) (he : h.slot? r = some e) (hm : e.immortal = false) :
    (h.vacate r e.object).Booked limits (log ++ [.freed r e.object]) := by
  have hslot := slot?_vacate e.object (lt_size_of_slot? he)
  have hbooks : books (log ++ [.freed r e.object]) = (books log).filter (·.1 ≠ r) := by
    rw [books_append]
    rfl
  have hlive : h.isLive r = true := by
    rw [isLive, he]
    rfl
  obtain ⟨n, hn⟩ := (hb.mem r).mpr ⟨hlive, hb.tidy.le_index he hm⟩
  have hle := hb.le_size r n e hn he
  have hsum : charged (log ++ [.freed r e.object]) + n = charged log := by
    rw [charged, hbooks]
    exact sum_filter_of_mem hb.nodup hn
  -- The size on the books is the one that is given back just if that size is on the books.
  have hsame : (r, e.object.size) ∈ books log ↔ n = e.object.size := by
    constructor
    · intro hmem
      have hpair := List.inj_on_of_nodup_map hb.nodup hn hmem rfl
      exact congrArg Prod.snd hpair
    · rintro rfl
      exact hn
  have hpositive : ∀ q k, (q, k) ∈ books (log ++ [.freed r e.object]) → 0 < k := by
    intro q k hmem
    rw [hbooks] at hmem
    exact hb.positive q k (List.mem_of_mem_filter hmem)
  obtain ⟨memory, htracker, hmemory, hiff⟩ := hb.tracker
  refine ⟨hb.tidy.vacate he hm, ?_, fun q => ?_, fun q k f hmem hf => ?_, hpositive,
    memory - e.object.size, ?_, ?_, ?_⟩
  · rw [hbooks]
    exact (hb.nodup).sublist (List.filter_sublist.map Prod.fst)
  · rw [hbooks, isLive, hslot]
    by_cases hq : q = r
    · subst hq
      rw [Function.update_self]
      simp
    · rw [Function.update_of_ne hq]
      simpa [List.mem_filter, hq, isLive] using hb.mem q
  · rw [hbooks, List.mem_filter] at hmem
    have hq : q ≠ r := by simpa using hmem.2
    rw [hslot, Function.update_of_ne hq] at hf
    exact hb.le_size q k f hmem.1 hf
  · show h.tracker.credit e.object.size = _
    rw [htracker, List.countP_append, List.countP_singleton]
    rfl
  · omega
  · rw [faithful_append_freed, bare_iff hpositive, ← hiff, hsame]
    omega

/-- Every event under which no object becomes smaller keeps the books in order. -/
lemma happens (hb : h.Booked limits log) (hev : Happens h event h')
    (hp : event.Respects Object.Enlarges) : h'.Booked limits (log ++ [event]) := by
  cases hev with
  | @allocated _ o r hrun =>
    obtain ⟨t, ht, hplace⟩ := allocate_granted hrun
    exact hb.grant (e := ⟨1, false, o⟩) rfl rfl ht hplace
  | @interned _ text r hnew hrun =>
    obtain ⟨t, h₁, ht, hplace, rfl⟩ := intern_granted hnew hrun
    have hb₁ : h₁.Booked limits (log ++ [.interned r text]) :=
      hb.grant (e := ⟨1, true, .str text⟩) rfl rfl ht hplace
    exact ⟨⟨hb₁.tidy.nodup, hb₁.tidy.mem, hb₁.tidy.first⟩, hb₁.nodup, hb₁.mem, hb₁.le_size,
      hb₁.positive, hb₁.tracker⟩
  | recounted he hm n => exact (hb.idle rfl rfl (by simp)).rewrite he rfl le_rfl
  | freed he hm => exact hb.vacate he hm
  | changed he o => exact (hb.idle rfl rfl (by simp)).rewrite he rfl hp
  | leveled n =>
    have hb₁ : h.Booked limits (log ++ [.leveled]) := hb.idle rfl rfl (by simp)
    exact ⟨⟨hb₁.tidy.nodup, hb₁.tidy.mem, hb₁.tidy.first⟩, hb₁.nodup, hb₁.mem, hb₁.le_size,
      hb₁.positive, hb₁.tracker⟩

/-- Every history in which no object becomes smaller keeps the books in order. -/
lemma history (hb : h.Booked limits log) {more : List Event} (hl : History h more h')
    (hp : ∀ event ∈ more, event.Respects Object.Enlarges) : h'.Booked limits (log ++ more) := by
  induction hl generalizing log with
  | nil =>
    rw [List.append_nil]
    exact hb
  | @cons h h₁ h₂ event more hev _ ih =>
    have hb₁ := hb.happens hev (hp event List.mem_cons_self)
    rw [← List.singleton_append, ← List.append_assoc]
    exact ih hb₁ (fun event he => hp event (List.mem_cons_of_mem _ he))

end Booked

lemma Grown.booked {limits : Limits} {log : List Event} {h : Heap} (hg : h.Grown limits log) :
    h.Booked limits log :=
  (Booked.start limits).history hg.history hg.enlarges

end Heap

/-! ## Runtimes in which lists grow -/

/-- A runtime that was fresh once and has done one operation after the other since, none of which
made a live object smaller. Items may be put at the ends of lists at any time
(`Operation.respects_append`). -/
inductive Growing (limits : Limits) (tracer : Tracer) : Context → Prop where
  | fresh : Growing limits tracer (.fresh (some limits) tracer)
  /-- An operation, which may have stopped early. -/
  | operation {c : Context} (hc : Growing limits tracer c) (op : Operation)
      (hop : op.Respects Object.Enlarges c) : Growing limits tracer (after op.run c)

/-- A list never shrinks when it gets one more item. -/
lemma Object.enlarges_push (store : ListStore) (item : Ref) :
    Object.Enlarges (.list store) (.list (store.push item)) := by
  have hgrow : store.capacity ≤ ListStore.grow store.items.length store.capacity := by
    unfold ListStore.grow
    split <;> omega
  show Object.recordSize + 8 * store.capacity ≤ Object.recordSize + 8 * ListStore.grow _ _
  omega

lemma Operation.respects_append (list item : Ref) (c : Context) :
    (Operation.command (.append list item)).Respects Object.Enlarges c :=
  fun store _ => Object.enlarges_push store item

/-- A growing runtime has a record, and every operation adds to it. -/
lemma Growing.record {limits : Limits} {tracer : Tracer} {c : Context}
    (hc : Growing limits tracer c) : ∃ log, c.heap.Grown limits log := by
  induction hc with
  | fresh => exact ⟨[], .nil _, fun event he => absurd he List.not_mem_nil⟩
  | @operation c _ op hop ih =>
    obtain ⟨log, hg⟩ := ih
    obtain ⟨more, hl, hp⟩ := hop.history
    refine ⟨log ++ more, hg.history.append hl, fun event he => ?_⟩
    rcases List.mem_append.mp he with he | he
    · exact hg.enlarges event he
    · exact hp event he

/-- **The record of the meter falls short just where the books are not faithful.** A growing runtime
has a record of all events on its heap, and an operation adds the events of its own. Take any such
record, and the heap as it was at any moment of it. Then the books list the objects that are not
always there and are still alive, each once with the size that it was charged for, and the bytes
that the meter has on record

* are never more than what was charged for these objects,
* and are not less just if every object that has gone so far had the size that it was charged for,
  but for those that went before a moment when nothing that was charged for was left. -/
theorem memory_of_growing {limits : Limits} {tracer : Tracer} {c : Context}
    (hc : Growing limits tracer c) :
    (∃ log, c.heap.Grown limits log) ∧
    (∀ op : Operation, op.Respects Object.Enlarges c →
      ∃ more, History c.heap more (after op.run c).heap ∧
        ∀ event ∈ more, event.Respects Object.Enlarges) ∧
    ∀ before rest, c.heap.Grown limits (before ++ rest) →
      ∃ h memory, h.Grown limits before ∧ History h rest c.heap ∧
        ((books before).map Prod.fst).Nodup ∧
        (∀ r, (∃ n, (r, n) ∈ books before) ↔
          h.isLive r = true ∧ singletons.length ≤ r.index) ∧
        h.tracker = .limited ⟨limits, before.countP Event.isGrant, memory⟩ ∧
        memory ≤ charged before ∧
        (charged before ≤ memory ↔ Faithful before) := by
  refine ⟨hc.record, fun op hop => hop.history, fun before rest hg => ?_⟩
  obtain ⟨h, hbefore, hrest⟩ := hg.history.split
  have hgrown : h.Grown limits before :=
    ⟨hbefore, fun event he => hg.enlarges event (List.mem_append_left _ he)⟩
  obtain ⟨-, hnodup, hmem, -, -, memory, htracker, hle, hiff⟩ := hgrown.booked
  exact ⟨h, memory, hgrown, hrest, hnodup, hmem, htracker, hle, hiff⟩

/-- A list with one item goes, which is no object that counts. -/
lemma decRef_list_of_none {h : Heap} {r : Ref}
    (hr : h.slot? r = some ⟨1, false, .list ⟨[noneRef], 4⟩⟩)
    (hnone : (h.vacate r (.list ⟨[noneRef], 4⟩)).slot? noneRef = some ⟨1, true, .none⟩) :
    decRef r h = .ok () (h.vacate r (.list ⟨[noneRef], 4⟩)) := by
  have hdrop := dropReference_eq hr
  have hskip := dropReference_eq hnone
  rw [if_neg (by simp), if_neg (by simp)] at hdrop
  rw [if_pos rfl] at hskip
  rw [decRef, drain_cons hdrop, List.append_nil]
  show drain [noneRef] _ = _
  rw [drain_cons hskip]
  show drain [] _ = _
  rw [drain]

/-- A list that has grown goes, and with it all that was charged for. So the books are faithful
again, and the next object is on record. -/
theorem memory_of_growing_bare :
    ∃ c log, Growing ⟨none, none⟩ .silent c ∧ c.heap.Grown ⟨none, none⟩ log ∧ Faithful log ∧
      books log = [(⟨4⟩, 88)] ∧ ∃ allocations memory,
        c.heap.tracker = .limited ⟨⟨none, none⟩, allocations, memory⟩ ∧ 88 ≤ memory := by
  let h (allocations memory : Nat) (entries : List Entry) : Heap :=
    freshWith (.limited ⟨⟨none, none⟩, allocations, memory⟩) entries
  let c (h : Heap) : Context := { Context.fresh none .silent with heap := h }
  let grown : Object := .list ⟨[noneRef], 4⟩
  let full := h 1 88 [⟨1, false, grown⟩]
  let bare := full.vacate ⟨4⟩ grown
  let last := h 2 88 [⟨1, false, .int 7⟩]
  let before : List Event := [.allocated ⟨4⟩ (.list ⟨[], 0⟩), .changed ⟨4⟩ (.list ⟨[], 0⟩) grown]
  let log := before ++ [.freed ⟨4⟩ grown, .allocated ⟨4⟩ (.int 7)]
  have hgo : decRef ⟨4⟩ full = .ok () bare := decRef_list_of_none rfl rfl
  have hafter : after (Operation.command (.decRef ⟨4⟩)).run (c full) = c bare := by
    have hrun : (Command.decRef ⟨4⟩).run full = .ok [] bare := bind_ok hgo
    rw [Operation.run, after_discard, after_onHeap_eq, after_ok (show _ = _ from hrun)]
  have hfull : Growing ⟨none, none⟩ .silent (c full) :=
    .operation (.operation .fresh (.command (.allocate (.list ⟨[], 0⟩))) trivial)
      (.command (.append ⟨4⟩ noneRef)) (Operation.respects_append _ _ _)
  have hbare : Growing ⟨none, none⟩ .silent (c bare) := by
    rw [← hafter]
    exact .operation hfull (.command (.decRef ⟨4⟩)) trivial
  have hlast : Growing ⟨none, none⟩ .silent (c last) :=
    .operation hbare (.command (.allocate (.int 7))) trivial
  have hgrown : last.Grown ⟨none, none⟩ log := by
    refine ⟨.cons (.allocated rfl) (.cons (.changed (e := ⟨1, false, .list ⟨[], 0⟩⟩) rfl _)
      (.cons (.freed (e := ⟨1, false, grown⟩) rfl rfl) (.cons (.allocated rfl) (.nil _)))), ?_⟩
    simp only [log, before, List.cons_append, List.nil_append, List.forall_mem_cons]
    exact ⟨trivial, Object.enlarges_push ⟨[], 0⟩ noneRef, trivial, trivial,
      fun event he => absurd he List.not_mem_nil⟩
  have hbooks : books log = [(⟨4⟩, 88)] := rfl
  have hf : Faithful log := by
    show Faithful (before ++ [.freed ⟨4⟩ grown] ++ [.allocated ⟨4⟩ (.int 7)])
    have hkept : ∀ r o, Event.allocated ⟨4⟩ (.int 7) ≠ .freed r o := by simp
    rw [faithful_append_of_kept hkept, faithful_append_freed]
    exact .inl rfl
  refine ⟨c last, log, hlast, hgrown, hf, hbooks, ?_⟩
  obtain ⟨now, memory, -, hrest, -, -, htracker, -, hiff⟩ :=
    (memory_of_growing hlast).2.2 log [] (by rwa [List.append_nil])
  cases hrest
  exact ⟨_, memory, htracker, hiff.mpr hf⟩

/-- A list that has grown goes while another object is alive, for which more was charged than the
meter has on record from then on. -/
theorem memory_short_of_charged :
    ∃ c log memory, Growing ⟨none, none⟩ .silent c ∧ c.heap.Grown ⟨none, none⟩ log ∧
      books log = [(⟨5⟩, 88)] ∧ c.heap.isLive ⟨5⟩ = true ∧
      c.heap.tracker = .limited ⟨⟨none, none⟩, 2, memory⟩ ∧ memory < charged log := by
  let c (h : Heap) : Context := { Context.fresh none .silent with heap := h }
  let grown : Object := .list ⟨[noneRef], 4⟩
  let full := freshWith (.limited ⟨⟨none, none⟩, 2, 176⟩) [⟨1, false, grown⟩, ⟨1, false, .int 7⟩]
  let last := full.vacate ⟨4⟩ grown
  have hgo : decRef ⟨4⟩ full = .ok () last := decRef_list_of_none rfl rfl
  have hafter : after (Operation.command (.decRef ⟨4⟩)).run (c full) = c last := by
    have hrun : (Command.decRef ⟨4⟩).run full = .ok [] last := bind_ok hgo
    rw [Operation.run, after_discard, after_onHeap_eq, after_ok (show _ = _ from hrun)]
  have hfull : Growing ⟨none, none⟩ .silent (c full) :=
    .operation (.operation (.operation .fresh (.command (.allocate (.list ⟨[], 0⟩))) trivial)
      (.command (.allocate (.int 7))) trivial)
      (.command (.append ⟨4⟩ noneRef)) (Operation.respects_append _ _ _)
  have hlast : Growing ⟨none, none⟩ .silent (c last) := by
    rw [← hafter]
    exact .operation hfull (.command (.decRef ⟨4⟩)) trivial
  refine ⟨c last, [.allocated ⟨4⟩ (.list ⟨[], 0⟩), .allocated ⟨5⟩ (.int 7),
    .changed ⟨4⟩ (.list ⟨[], 0⟩) grown, .freed ⟨4⟩ grown], 56, hlast, ⟨?_, ?_⟩, rfl, rfl, rfl,
    by decide⟩
  · exact .cons (.allocated rfl) (.cons (.allocated rfl)
      (.cons (.changed (e := ⟨1, false, .list ⟨[], 0⟩⟩) rfl _)
      (.cons (.freed (e := ⟨1, false, grown⟩) rfl rfl) (.nil _))))
  · simp only [List.forall_mem_cons]
    exact ⟨trivial, trivial, Object.enlarges_push ⟨[], 0⟩ noneRef, trivial,
      fun event he => absurd he List.not_mem_nil⟩

end NativeCall
