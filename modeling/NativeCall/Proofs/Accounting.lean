import NativeCall.Proofs.Bind.Effects
import NativeCall.Proofs.Build.Effects
import NativeCall.Proofs.Heap.Accounting
import NativeCall.Proofs.Heap.Command

/-!
# Metered runtimes

`Operation` lists what can be done with a runtime: commands of its heap, changes of objects in
place, builds, calls to bind, containers built slot by slot. A metered runtime does one operation
after the other, and each may succeed, raise, be refused or stop at a misuse.

Charges are made in one place and credits in another, sizes are computed when an object comes and
again when it goes, one release may free any number of objects, and what is refused releases what it
was given. But every operation has a history (`Operation.Respects.history`), and every history
leaves the meter right (`Accounted.history`). So `accounting_exact` needs to know nothing else of
the operations.

## The proviso

An object must keep its size while it lives. The one thing in the program that breaks this is a list
that is full and gets one more item, and `KeepsSizes` excludes just that: an append where there is
no room, and changes in place, by an operation itself or by a conversion that a build runs, which
alter the size. `Proofs.Growth` is about runtimes that do it all the same.

## The record

The theorem speaks of a log rather than of a count, because the log is what the meter has no access
to. Whatever log of events leads from a fresh heap to this one, the meter's two numbers are computed
from it: the grants in it, and the bytes of what came and has not gone. Such a log exists, since
operations have histories. That every free subtracted in full is then a statement about a position
in the log: there was a heap at that moment, its meter had at least the size of the object on
record, and the object went.

Refusals are treated last. A refused allocation releases what the object was to take over, which may
set off a cascade; the theorem has the history of it and the balance. A refused text leaves nothing
to release, and the heap is equal to what it was.
-/

namespace NativeCall

open Heap

/-! ## Operations -/

/-- What can be done with a runtime. -/
inductive Operation where
  /-- A command of the heap. -/
  | command (c : Command)
  /-- Changes an object in place. -/
  | change (r : Ref) (f : Object → Object)
  | newTuple (items : List Ref)
  | enterLevel
  | exitLevel
  | projection (r : Ref)
  | repr (r : Ref)
  /-- Puts a value under a key. -/
  | setItem (d : Dict) (key value : Ref)
  | dictOfPairs (items : List Ref)
  | releaseDict (d : Dict)
  /-- Builds from a format string. -/
  | build (source : String) (args : List BuildArg)
  /-- Builds from a format that was read before. -/
  | buildFormat (f : Format) (args : List BuildArg)
  | internNames (p : ParamSpec)
  | bind (call : Call)
  /-- Puts an item into a slot of a container under construction. -/
  | setSlot (b : SlotBuilder) (i : Nat) (r : Ref)
  | buildSlots (b : SlotBuilder)
  | cancelSlots (b : SlotBuilder)
  | setError (e : RunError)
  | takeError

namespace Operation

open Context

/-- Does an operation, whatever comes of it. -/
def run : Operation → ContextM Unit
  | command c => discard (onHeap c.run)
  | change r f => onHeap (update r f)
  | newTuple items => discard (onHeap (Heap.newTuple items).run)
  | enterLevel => discard (onHeap Heap.enterLevel)
  | exitLevel => onHeap Heap.exitLevel
  | projection r => discard (onHeap (Heap.projection r).run)
  | repr r => discard (onHeap (Heap.repr r))
  | setItem d key value => discard (onHeap (Heap.setItem d key value).run)
  | dictOfPairs items => discard (onHeap (Heap.dictOfPairs items).run)
  | releaseDict d => onHeap (Heap.releaseDict d)
  | build source args => discard (buildValue source args).run
  | buildFormat f args => discard (f.build args).run
  | internNames p => discard (Call.internNames p).run
  | bind call => discard call.bind.run
  | setSlot b i r => discard (onHeap (b.set i r).run)
  | buildSlots b => discard (onHeap b.build.run)
  | cancelSlots b => onHeap b.cancel
  | setError e => Context.setError e
  | takeError => discard Context.takeError

/-- No live object is resized in place: neither by the operation, nor by a conversion that it
runs. A list is resized when it has no room for one more item. -/
def KeepsSizes (c : Context) : Operation → Prop
  | command (.append list _) => ∀ store, c.heap.object? list = some (.list store) →
      store.items.length < store.capacity
  | change r f => ∀ o, c.heap.object? r = some o → Object.SameSize o (f o)
  | build _ args | buildFormat _ args => ∀ arg ∈ args, arg.Marshals Object.SameSize
  | _ => True

/-- What an operation changes in place it changes as it is allowed to, by itself and by the
conversions that it runs. -/
def Respects (allowed : Object → Object → Prop) (c : Context) : Operation → Prop
  | command (.append list item) => ∀ store, c.heap.object? list = some (.list store) →
      allowed (.list store) (.list (store.push item))
  | change r f => ∀ o, c.heap.object? r = some o → allowed o (f o)
  | build _ args | buildFormat _ args => ∀ arg ∈ args, arg.Marshals allowed
  | _ => True

end Operation

/-! ## Operations have histories -/

namespace Heap

variable {h : Heap}

lemma size_push {store : ListStore} (hroom : store.items.length < store.capacity) (item : Ref) :
    Object.SameSize (.list store) (.list (store.push item)) := by
  show Object.recordSize + 8 * ListStore.grow store.items.length store.capacity = _
  rw [ListStore.grow, if_pos hroom]
  rfl

/-- A change of an object is one event. -/
lemma history_update {allowed : Object → Object → Prop} {r : Ref} {f : Object → Object}
    (hf : ∀ o, h.object? r = some o → allowed o (f o)) :
    ∃ log, History h log (after (update r f) h) ∧ ∀ event ∈ log, event.Respects allowed := by
  cases hs : h.slot? r with
  | none =>
    obtain ⟨m, hm⟩ : ∃ m, demand .getMut r h = .error m h := demand_of_slot?_eq_none hs
    have hstop : update r f h = .error m h := bind_stopped hm
    exact History.exists_nil (after_stopped hstop)
  | some e =>
    have hrun : update r f h = .ok () (h.setSlot r (some { e with object := f e.object })) :=
      bind_ok (demand_of_slot? hs)
    have ho : h.object? r = some e.object := by rw [object?, hs]; rfl
    rw [after_ok hrun]
    exact History.exists_single (.changed hs _) (hf e.object ho)

/-- An append changes the list that it finds, and nothing else. -/
lemma history_allowed_append {allowed : Object → Object → Prop} {list item : Ref}
    (hallowed : ∀ store, h.object? list = some (.list store) →
      allowed (.list store) (.list (store.push item))) :
    ∃ log, History h log (after (Command.append list item).run h) ∧
      ∀ event ∈ log, event.Respects allowed := by
  obtain ⟨log, hl, hp⟩ := history_append list item h
  refine ⟨log, hl, fun event he => ?_⟩
  obtain ⟨e, store, hs, ho, rfl⟩ := hp event he
  refine hallowed store ?_
  rw [object?, hs, ← ho]
  rfl

end Heap

lemma after_onHeap {α : Type} (x : HeapM α) (c : Context) :
    (after (Context.onHeap x) c).heap = after x c.heap := by
  rw [after_onHeap_eq]

lemma after_discard {α : Type} (x : ContextM α) (c : Context) :
    after (discard x) c = after x c :=
  after_map (fun _ => ()) x c

/-- An operation that resizes nothing changes what it changes to something of the same size. -/
lemma Operation.KeepsSizes.respects {c : Context} {op : Operation} (hop : op.KeepsSizes c) :
    op.Respects Object.SameSize c := by
  cases op with
  | command command =>
    cases command with
    | append list item => exact fun store ho => size_push (hop store ho) item
    | _ => trivial
  | change | build | buildFormat => exact hop
  | _ => trivial

/-- Every operation has a history, which changes objects as the operation is allowed to. -/
lemma Operation.Respects.history {allowed : Object → Object → Prop} {c : Context} {op : Operation}
    (hop : op.Respects allowed c) :
    ∃ log, History c.heap log (after op.run c).heap ∧ ∀ event ∈ log, event.Respects allowed := by
  -- The operations fall into three sorts: those that answer with something that is thrown away
  -- here, those of them that are on the heap, and those that answer with nothing.
  have hmarshals : ∀ {α : Type} {x : ContextM α}, Marshals allowed x →
      ∃ log, History c.heap log (after (discard x) c).heap ∧
        ∀ event ∈ log, event.Respects allowed := by
    intro α x hx
    rw [after_discard]
    exact hx c
  have hheap : ∀ {α : Type} {x : HeapM α}, Marshals allowed x →
      ∃ log, History c.heap log (after (discard (Context.onHeap x)) c).heap ∧
        ∀ event ∈ log, event.Respects allowed :=
    fun hx => hmarshals (Causes.onHeap hx)
  have hsame : ∀ {x : ContextM Unit}, Marshals allowed x →
      ∃ log, History c.heap log (after x c).heap ∧ ∀ event ∈ log, event.Respects allowed :=
    fun hx => hx c
  cases op with
  | command command =>
    by_cases hc : ∃ list item, command = .append list item
    · obtain ⟨list, item, rfl⟩ := hc
      rw [Operation.run, after_discard, after_onHeap]
      exact history_allowed_append hop
    · exact hheap (marshals_command (fun list item he => hc ⟨list, item, he⟩))
  | change r f =>
    rw [Operation.run, after_onHeap]
    exact history_update hop
  | newTuple items => exact hheap (Marshals.newTuple items)
  | enterLevel => exact hheap Marshals.enterLevel
  | exitLevel => exact hsame (Causes.onHeap Marshals.exitLevel)
  | projection r => exact hheap (Marshals.projection r)
  | repr r => exact hheap (Marshals.repr r)
  | setItem d key value => exact hheap (Marshals.setItem d key value)
  | dictOfPairs items => exact hheap (Marshals.dictOfPairs items)
  | releaseDict d => exact hsame (Causes.onHeap (Marshals.releaseDict d))
  | build source args => exact hmarshals (marshals_buildValue source hop)
  | buildFormat f args => exact hmarshals (f.marshals_build hop)
  | internNames p => exact hmarshals (Call.marshals_internNames p)
  | bind call => exact hmarshals (Call.marshals_bind call)
  | setSlot b i r => exact hheap (Marshals.setBuilderSlot b i r)
  | buildSlots b => exact hheap (Marshals.buildBuilder b)
  | cancelSlots b => exact hsame (Causes.onHeap (Marshals.cancelBuilder b))
  | setError e => exact hsame (Causes.of_same (fun _ => rfl))
  | takeError => exact hmarshals (Causes.of_same (fun _ => rfl))

/-! ## Metered runtimes -/

/-- A runtime that was fresh once and has done one operation after the other since, none of which
resized a live object in place. -/
inductive Metered (limits : Limits) (tracer : Tracer) : Context → Prop where
  | fresh : Metered limits tracer (.fresh (some limits) tracer)
  /-- An operation, which may have stopped early. -/
  | operation {c : Context} (hc : Metered limits tracer c) (op : Operation)
      (hop : op.KeepsSizes c) : Metered limits tracer (after op.run c)

namespace Heap

/-- The events of a log made the heap what it is, from a fresh one, and resized nothing. -/
structure Records (limits : Limits) (log : List Event) (h : Heap) : Prop where
  history : History (fresh (.limited ⟨limits, 0, 0⟩)) log h
  sameSize : ∀ event ∈ log, event.Respects Object.SameSize

variable {limits : Limits} {log more : List Event} {h h' : Heap}

namespace Records

lemma append (hr : h.Records limits log) (hl : History h more h')
    (hp : ∀ event ∈ more, event.Respects Object.SameSize) :
    h'.Records limits (log ++ more) := by
  refine ⟨hr.history.append hl, fun event he => ?_⟩
  rcases List.mem_append.mp he with he | he
  · exact hr.sameSize event he
  · exact hp event he

lemma accounted (hr : h.Records limits log) : h.Accounted limits log :=
  (Accounted.start limits).history hr.history hr.sameSize

/-- Whatever an object gave back when it went was on record then. -/
lemma size_le_memory {before rest : List Event} {r : Ref} {o : Object}
    (hr : h.Records limits (before ++ .freed r o :: rest)) :
    ∃ h₁ h₂ m, h₁.Records limits before ∧ Happens h₁ (.freed r o) h₂ ∧ History h₂ rest h ∧
      h₁.tracker = .limited m ∧ o.size ≤ m.memory := by
  obtain ⟨h₁, hbefore, hlast⟩ := hr.history.split
  cases hlast with
  | @cons _ h₂ _ _ _ hev hrest =>
    have hr₁ : h₁.Records limits before :=
      ⟨hbefore, fun event he => hr.sameSize event (List.mem_append_left _ he)⟩
    obtain ⟨m, hm, hle⟩ := hr₁.accounted.size_le_memory hev
    exact ⟨h₁, h₂, m, hr₁, hev, hrest, hm, hle⟩

/-- An allocation that is not granted releases what it was given, and that is all. -/
lemma refused_allocation (hr : h.Records limits log) {o : Object}
    (ho : ∀ r h', (allocate o).run h ≠ .ok (.ok r) h') :
    ∃ frees, History h frees (after (allocate o).run h) ∧
      (∀ event ∈ frees, event.isCounting = true) ∧
      (after (allocate o).run h).tracker =
        .limited ⟨limits, log.countP Event.isGrant, (after (allocate o).run h).bytesHeld⟩ ∧
      (after (allocate o).run h).bytesHeld + (frees.map Event.bytesFreed).sum = h.bytesHeld := by
  cases ht : h.tracker.charge o.size with
  | ok t =>
    obtain ⟨r, h', hrun⟩ := allocate_paid ht
    exact absurd hrun (ho r h')
  | error e =>
    rw [allocate_refused ht]
    obtain ⟨frees, hl, hp⟩ := Causes.decRefs o.children h
    have hafter := hr.append hl (fun event he => .of_isCounting (hp event he))
    -- What is freed needs no consent, so it adds nothing to the number of grants.
    have hcount : frees.countP Event.isGrant = 0 := by
      refine List.countP_eq_zero.mpr (fun event he => ?_)
      rw [Event.isGrant_of_isCounting (hp event he)]
      exact Bool.false_ne_true
    have htracker := hafter.accounted.tracker
    rw [List.countP_append, hcount, Nat.add_zero] at htracker
    exact ⟨frees, hl, hp, htracker, hr.accounted.counting hl hp⟩

/-- A new text that is not interned leaves no trace. -/
lemma refused_intern {text : String} (hnew : h.internedRef? text = none)
    (htext : ∀ r h', (intern text).run h ≠ .ok (.ok r) h') : after (intern text).run h = h := by
  cases ht : h.tracker.charge (Object.str text).size with
  | ok t =>
    obtain ⟨r, h', hrun⟩ := intern_paid hnew ht
    exact absurd hrun (htext r h')
  | error e => exact after_ok (intern_refused hnew ht)

end Records

end Heap

/-- A metered runtime has a record, and every operation adds to it. -/
lemma Metered.records {limits : Limits} {tracer : Tracer} {c : Context}
    (hc : Metered limits tracer c) : ∃ log, c.heap.Records limits log := by
  induction hc with
  | fresh => exact ⟨[], .nil _, fun event he => absurd he List.not_mem_nil⟩
  | @operation c _ op hop ih =>
    obtain ⟨log, hr⟩ := ih
    obtain ⟨more, hl, hp⟩ := hop.respects.history
    exact ⟨log ++ more, hr.append hl hp⟩

/-- **Accounting is exact.** A metered runtime has a record of all events on its heap, and an
operation adds the events of its own. By any such record the meter has counted the allocations that
were granted and the texts that were interned for the first time, and the bytes that it has on
record are those of the objects on the heap but for the ones that are always there; neither passes
its limit. Whenever an object went, its bytes were on record, so they were subtracted in full. An
allocation that is not granted changes the bytes by what it frees and nothing else, and an intern
that is not granted changes nothing at all. -/
theorem accounting_exact {limits : Limits} {tracer : Tracer} {c : Context}
    (hc : Metered limits tracer c) :
    (∃ log, c.heap.Records limits log) ∧
    (∀ op : Operation, op.KeepsSizes c →
      ∃ more, History c.heap more (after op.run c).heap ∧
        ∀ event ∈ more, event.Respects Object.SameSize) ∧
    ∀ log, c.heap.Records limits log →
      c.heap.tracker = .limited ⟨limits, log.countP Event.isGrant, c.heap.bytesHeld⟩ ∧
      (∀ max ∈ limits.maxAllocations, log.countP Event.isGrant ≤ max) ∧
      (∀ max ∈ limits.maxMemory, c.heap.bytesHeld ≤ max) ∧
      (∀ before r o rest, log = before ++ .freed r o :: rest →
        ∃ h₁ h₂ m, h₁.Records limits before ∧ Happens h₁ (.freed r o) h₂ ∧
          History h₂ rest c.heap ∧ h₁.tracker = .limited m ∧ o.size ≤ m.memory) ∧
      (∀ o, (∀ r h', (allocate o).run c.heap ≠ .ok (.ok r) h') →
        ∃ frees, History c.heap frees (after (allocate o).run c.heap) ∧
          (∀ event ∈ frees, event.isCounting = true) ∧
          (after (allocate o).run c.heap).tracker = .limited
            ⟨limits, log.countP Event.isGrant, (after (allocate o).run c.heap).bytesHeld⟩ ∧
          (after (allocate o).run c.heap).bytesHeld + (frees.map Event.bytesFreed).sum =
            c.heap.bytesHeld) ∧
      ∀ text, c.heap.internedRef? text = none →
        (∀ r h', (intern text).run c.heap ≠ .ok (.ok r) h') →
        after (intern text).run c.heap = c.heap := by
  refine ⟨hc.records, fun op hop => hop.respects.history, fun log hr => ?_⟩
  have ha := hr.accounted
  refine ⟨ha.tracker, ha.allocations, ha.memory, fun before r o rest hlog => ?_,
    fun o ho => hr.refused_allocation ho, fun text hnew htext => Records.refused_intern hnew htext⟩
  subst hlog
  exact hr.size_le_memory

/-- A tuple of a number and a text is built, and an allocation is refused for want of memory. -/
theorem accounting_exact_build :
    ∃ c, Metered ⟨some 4, some 400⟩ .silent c ∧
      c.heap.tracker = .limited ⟨⟨some 4, some 400⟩, 3, 282⟩ ∧
      (∃ log, c.heap.Records ⟨some 4, some 400⟩ log) ∧
      ∀ log, c.heap.Records ⟨some 4, some 400⟩ log → log.countP Event.isGrant = 3 := by
  have hbuild : Operation.KeepsSizes (.fresh (some ⟨some 4, some 400⟩) .silent)
      (.build "(is)" [.int 7, .text (some [97, 98])]) := by
    intro arg harg a ha
    subst ha
    simp at harg
  have hc : Metered ⟨some 4, some 400⟩ .silent _ :=
    .operation (.operation .fresh _ hbuild)
      (.command (.allocate (.bytes (List.replicate 60 0)))) trivial
  obtain ⟨hrecords, -, hexact⟩ := accounting_exact hc
  have htracker : (after (Operation.command (.allocate (.bytes (List.replicate 60 0)))).run
      (after (Operation.build "(is)" [.int 7, .text (some [97, 98])]).run
        (.fresh (some ⟨some 4, some 400⟩) .silent))).heap.tracker =
      .limited ⟨⟨some 4, some 400⟩, 3, 282⟩ := by
    decide +kernel
  refine ⟨_, hc, htracker, hrecords, fun log hr => ?_⟩
  obtain ⟨hmeter, -⟩ := hexact log hr
  rw [htracker, Tracker.limited.injEq, Meter.mk.injEq] at hmeter
  exact hmeter.2.1.symm

end NativeCall
