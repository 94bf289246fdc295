import Mathlib.Data.List.Induction
import NativeCall.Proofs.Entry.Protocol
import NativeCall.Proofs.Heap.History
import NativeCall.Proofs.Heap.Sound

/-!
# What a destructor sees, and what it leaves

An instance of an extension type is made of zeros. Afterwards only its payload is written, so the
block is the header, the payload and the padding at any time, with zeros in the first and the last
of them (`laid_writeAll`), and a byte of the payload is what was written there last.

While the instance lives, anything may happen to the heap, and its reference count may become any
number. Of all events only those that are about the instance itself matter, and of these only the
writes (`Written`): so the block that the destructor is shown is told from the writes
(`slot?_of_written`). The instance holds no references, so freeing it touches no other object.

## The life of an instance

What happens between the making of an instance and its end is not for the adapter to say. The
theorem takes any history of the heap, sound or not, in which the instance is not freed and is
changed by writes into its payload only. `Written` reads the writes off such a history. Everything
else in it is an event that spares the instance, among them its own recounting: a native function
may have retained the instance any number of times, and may not have.

So the count is existentially quantified in the conclusion and unconstrained. That the adapter frees
the storage whatever the count is, and does not go through the release of a reference, is what this
makes visible.

## The block

Sizes are in bytes and the block is a whole number of words. The padding is what is missing to the
next word; it is never written, because a write has to fit into the payload. A destructor of a pure
type is shown the block from behind the header, so it sees the payload and the padding.
-/

namespace NativeCall

open Heap

/-! ## The block of an instance -/

/-- Bytes to be written into a payload from an offset on. -/
structure PayloadWrite where
  offset : Nat
  bytes : List UInt8

namespace PayloadWrite

/-- All bytes fall into a payload of `n` bytes. -/
def Fits (n : Nat) (w : PayloadWrite) : Prop :=
  w.offset + w.bytes.length ≤ n

/-- The byte that is written at a place, if one is. -/
def byte? (w : PayloadWrite) (k : Nat) : Option UInt8 :=
  if w.offset ≤ k then w.bytes[k - w.offset]? else none

end PayloadWrite

/-- The byte that was written last at a place, and zero if none was. -/
def lastWritten (ws : List PayloadWrite) (k : Nat) : UInt8 :=
  (ws.reverse.findSome? (fun w => w.byte? k)).getD 0

/-- The payload of `n` bytes after writes. -/
def payloadAfter (n : Nat) (ws : List PayloadWrite) : List UInt8 :=
  (List.range n).map (lastWritten ws)

/-- How many zeros follow a payload of `n` bytes. -/
def padding (n : Nat) : Nat :=
  NativeObject.blockSize n - (NativeObject.headerSize + n)

/-- The padding is the shortest one that fills the last word. -/
lemma padding_spec (n : Nat) : padding n < 8 ∧ 8 ∣ NativeObject.headerSize + n + padding n := by
  unfold padding NativeObject.blockSize NativeObject.headerSize
  omega

namespace NativeObject

/-- The object after writes. -/
def writeAll (o : NativeObject) (ws : List PayloadWrite) : NativeObject :=
  ws.foldl (fun o w => o.write w.offset w.bytes) o

lemma writeAll_append (o : NativeObject) (ws : List PayloadWrite) (w : PayloadWrite) :
    o.writeAll (ws ++ [w]) = (o.writeAll ws).write w.offset w.bytes := by
  rw [writeAll, List.foldl_append]
  rfl

lemma flags_writeAll (o : NativeObject) (ws : List PayloadWrite) :
    (o.writeAll ws).flags = o.flags := by
  induction ws generalizing o with
  | nil => rfl
  | cons w ws ih => exact ih (o.write w.offset w.bytes)

/-- The block of an object is a header, this payload and the padding. -/
structure Laid (o : NativeObject) (n : Nat) (body : List UInt8) : Prop where
  payloadSize : o.payloadSize = n
  length : body.length = n
  storage : o.storage.toList =
    List.replicate headerSize 0 ++ body ++ List.replicate (padding n) 0

section Layout

variable {o : NativeObject} {n : Nat} {body : List UInt8} {w : PayloadWrite}

lemma laid_zeroed (typeName : String) (flags : TypeFlags) (n : Nat) :
    (zeroed typeName flags n).Laid n (List.replicate n 0) := by
  refine ⟨rfl, List.length_replicate, ?_⟩
  have hblock : blockSize n = headerSize + n + padding n := by
    unfold padding blockSize headerSize
    omega
  rw [zeroed, Array.toList_replicate, hblock, List.replicate_add, List.replicate_add]

/-- A place in the payload parts the block. -/
lemma Laid.split (hl : o.Laid n body) {k : Nat} (hk : k ≤ n) :
    o.storage.toList = (List.replicate headerSize 0 ++ body.take k) ++
      (body.drop k ++ List.replicate (padding n) 0) ∧
    (List.replicate headerSize (0 : UInt8) ++ body.take k).length = headerSize + k := by
  constructor
  · rw [hl.storage, List.append_assoc, List.append_assoc, ← List.append_assoc (body.take k),
      List.take_append_drop]
  · rw [List.length_append, List.length_replicate, List.length_take_of_le (hl.length ▸ hk)]

lemma Laid.before (hl : o.Laid n body) {k : Nat} (hk : k ≤ n) :
    (o.storage.extract 0 (headerSize + k)).toList =
      List.replicate headerSize 0 ++ body.take k := by
  obtain ⟨hsplit, hlength⟩ := hl.split hk
  rw [Array.toList_extract, List.extract_eq_take_drop, List.drop_zero, Nat.sub_zero, hsplit,
    List.take_left' hlength]

lemma Laid.behind (hl : o.Laid n body) {k : Nat} (hk : k ≤ n) :
    (o.storage.extract (headerSize + k)).toList =
      body.drop k ++ List.replicate (padding n) 0 := by
  obtain ⟨hsplit, hlength⟩ := hl.split hk
  have hdrop : (o.storage.extract (headerSize + k)).toList =
      o.storage.toList.drop (headerSize + k) := by simp
  rw [hdrop, hsplit, List.drop_left' hlength]

/-- A write that fits stays in the payload. -/
lemma Laid.write (hl : o.Laid n body) (hw : w.Fits n) : (o.write w.offset w.bytes).Laid n
    (body.take w.offset ++ w.bytes ++ body.drop (w.offset + w.bytes.length)) := by
  have hlength := hl.length
  unfold PayloadWrite.Fits at hw
  refine ⟨hl.payloadSize, by simp; omega, ?_⟩
  have hfitting : w.bytes.take (o.payloadSize - w.offset) = w.bytes := by
    refine List.take_of_length_le ?_
    rw [hl.payloadSize]
    omega
  have hbefore := hl.before (k := w.offset) (by omega)
  have hbehind := hl.behind (k := w.offset + w.bytes.length) (by omega)
  rw [← Nat.add_assoc] at hbehind
  simp only [NativeObject.write, hfitting, Array.toList_append, hbefore, hbehind,
    List.append_assoc]

lemma Laid.size (hl : o.Laid n body) : o.storage.size = headerSize + n + padding n := by
  rw [← Array.length_toList, hl.storage]
  simp [hl.length, Nat.add_assoc]

lemma Laid.payload (hl : o.Laid n body) : o.payload = body := by
  have hlength : (List.replicate headerSize (0 : UInt8)).length = headerSize :=
    List.length_replicate
  rw [NativeObject.payload, hl.payloadSize, Array.toList_extract, List.extract_eq_take_drop,
    hl.storage, List.append_assoc, List.drop_left' hlength, Nat.add_sub_cancel_left,
    List.take_left' hl.length]

/-- The destructor sees the block without its header if the type is pure. -/
lemma Laid.destructorView (hl : o.Laid n body) : o.destructorView =
    (if o.flags.contains .pureInternal then [] else List.replicate headerSize 0) ++
      body ++ List.replicate (padding n) 0 := by
  unfold NativeObject.destructorView destructorOffset
  split_ifs
  · exact hl.behind (Nat.zero_le n)
  · simpa using hl.storage

end Layout

end NativeObject

/-! ## The payload after writes -/

section Payload

variable {n : Nat} {ws : List PayloadWrite} {w : PayloadWrite}

lemma lastWritten_append (ws : List PayloadWrite) (w : PayloadWrite) (k : Nat) :
    lastWritten (ws ++ [w]) k = (w.byte? k).getD (lastWritten ws k) := by
  unfold lastWritten
  rw [List.reverse_append, List.reverse_singleton, List.singleton_append, List.findSome?_cons]
  cases w.byte? k <;> rfl

lemma length_payloadAfter (n : Nat) (ws : List PayloadWrite) : (payloadAfter n ws).length = n := by
  rw [payloadAfter, List.length_map, List.length_range]

/-- One more write replaces the bytes that it covers. -/
lemma payloadAfter_append (hw : w.Fits n) : payloadAfter n (ws ++ [w]) =
    (payloadAfter n ws).take w.offset ++ w.bytes ++
      (payloadAfter n ws).drop (w.offset + w.bytes.length) := by
  have hlength := length_payloadAfter n ws
  have hplace : ∀ ws k (hk : k < (payloadAfter n ws).length),
      (payloadAfter n ws)[k] = lastWritten ws k := by simp [payloadAfter]
  unfold PayloadWrite.Fits at hw
  have hfront : ((payloadAfter n ws).take w.offset).length = w.offset := by
    rw [List.length_take_of_le (by omega)]
  refine List.ext_getElem (by simp [length_payloadAfter]; omega) (fun k hk hk' => ?_)
  rw [hplace, lastWritten_append, PayloadWrite.byte?]
  rcases Nat.lt_or_ge k w.offset with hlt | hge
  · rw [if_neg (Nat.not_le_of_lt hlt), Option.getD_none]
    simp only [List.append_assoc]
    rw [List.getElem_append_left (by omega), List.getElem_take, hplace]
  · rw [if_pos hge]
    rcases Nat.lt_or_ge (k - w.offset) w.bytes.length with hin | hout
    · rw [List.getElem?_eq_getElem hin, Option.getD_some,
        List.getElem_append_left (by simp; omega), List.getElem_append_right (by omega)]
      simp only [hfront]
    · rw [List.getElem?_eq_none hout, Option.getD_none,
        List.getElem_append_right (by simp; omega), List.getElem_drop, hplace]
      congr 1
      simp only [List.length_append, hfront]
      omega

/-- The block of an instance after writes that fit into its payload. -/
lemma laid_writeAll (typeName : String) (flags : TypeFlags) (hw : ∀ w ∈ ws, w.Fits n) :
    ((NativeObject.zeroed typeName flags n).writeAll ws).Laid n (payloadAfter n ws) := by
  induction ws using List.reverseRecOn with
  | nil =>
    have hzero : payloadAfter n [] = List.replicate n 0 := by
      show (List.range n).map (fun _ => 0) = _
      rw [List.map_const', List.length_range]
    rw [hzero]
    exact NativeObject.laid_zeroed typeName flags n
  | append_singleton ws w ih =>
    obtain ⟨hbefore, hlast⟩ := List.forall_mem_append.mp hw
    have hfits := hlast w (List.mem_singleton_self w)
    rw [NativeObject.writeAll_append, payloadAfter_append hfits]
    exact (ih hbefore).write hfits

/-- Writes change nothing about the bytes that an instance is charged for. -/
lemma size_writeAll (typeName : String) (flags : TypeFlags) (hw : ∀ w ∈ ws, w.Fits n) :
    (Object.native ((NativeObject.zeroed typeName flags n).writeAll ws)).size =
      (Object.native (.zeroed typeName flags n)).size := by
  have hafter := (laid_writeAll typeName flags hw).size
  have hbefore := (NativeObject.laid_zeroed typeName flags n).size
  simp only [Object.size, Object.extraSize, hafter, hbefore]

end Payload

/-! ## The life of an instance -/

/-- The event does not free or change the object `r`. It may count it anew. -/
def Event.Spares (r : Ref) : Event → Prop
  | freed q _ | changed q _ _ => q ≠ r
  | _ => True

/-- Of these events, the only ones that change or free the instance `r` are these writes into its
payload of `n` bytes. -/
inductive Written (r : Ref) (n : Nat) : List Event → List PayloadWrite → Prop where
  | nil : Written r n [] []
  | write {o : NativeObject} {w : PayloadWrite} {log : List Event} {ws : List PayloadWrite}
      (hw : w.Fits n) (h : Written r n log ws) :
      Written r n (.changed r (.native o) (.native (o.write w.offset w.bytes)) :: log) (w :: ws)
  | aside {event : Event} {log : List Event} {ws : List PayloadWrite} (hs : event.Spares r)
      (h : Written r n log ws) : Written r n (event :: log) ws

lemma Written.fits {r : Ref} {n : Nat} {log : List Event} {ws : List PayloadWrite}
    (h : Written r n log ws) : ∀ w ∈ ws, w.Fits n := by
  induction h with
  | nil => exact List.forall_mem_nil _
  | write hw _ ih => exact List.forall_mem_cons.mpr ⟨hw, ih⟩
  | aside _ _ ih => exact ih

section Life

variable {h h' : Heap} {r : Ref} {refs n : Nat} {log : List Event} {ws : List PayloadWrite}

/-- Events that spare an object leave all of it but its count. -/
lemma slot?_of_spares {o : Object} {event : Event} (ht : h.Tidy) (hev : Happens h event h')
    (hs : event.Spares r) (hr : h.slot? r = some ⟨refs, false, o⟩) :
    ∃ refs', h'.slot? r = some ⟨refs', false, o⟩ := by
  cases hev with
  | allocated hrun =>
    obtain ⟨t, -, hplaced⟩ := ht.allocate hrun
    exact ⟨refs, hplaced.slot?_of_slot? hr⟩
  | interned hnew hrun =>
    obtain ⟨t, h₁, -, hplaced, rfl⟩ := ht.intern hnew hrun
    exact ⟨refs, hplaced.slot?_of_slot? hr⟩
  -- The instance may be the object that is counted anew. Nothing else about it changes then.
  | @recounted q e he hm k =>
    rw [slot?_setSlot _ (lt_size_of_slot? he)]
    by_cases hq : r = q
    · subst hq
      obtain rfl := Option.some.inj (hr.symm.trans he)
      exact ⟨k, Function.update_self ..⟩
    · exact ⟨refs, by rw [Function.update_of_ne hq, hr]⟩
  | freed he hm =>
    rw [slot?_vacate _ (lt_size_of_slot? he), Function.update_of_ne (Ne.symm hs)]
    exact ⟨refs, hr⟩
  | changed he o' =>
    rw [slot?_setSlot _ (lt_size_of_slot? he), Function.update_of_ne (Ne.symm hs)]
    exact ⟨refs, hr⟩
  | leveled => exact ⟨refs, hr⟩

/-- What was changed is in its slot, and nothing else is new. -/
lemma changed_inv {old new : Object} (hev : Happens h (.changed r old new) h') :
    ∃ e, h.slot? r = some e ∧ e.object = old ∧
      h' = h.setSlot r (some { e with object := new }) := by
  generalize hevent : Event.changed r old new = event at hev
  cases hev with
  | changed he o =>
    cases hevent
    exact ⟨_, he, rfl, rfl⟩
  | _ => cases hevent

/-- As long as an instance lives, it is what the writes have made of it. -/
lemma slot?_of_written {o : NativeObject} (ht : h.Tidy) (hl : History h log h')
    (hw : Written r n log ws) (hr : h.slot? r = some ⟨refs, false, .native o⟩) :
    ∃ refs', h'.slot? r = some ⟨refs', false, .native (o.writeAll ws)⟩ := by
  -- The events are taken in the order in which they happened; a write is the only one that changes
  -- what is known of the instance.
  induction hw generalizing h refs o with
  | nil =>
    cases hl
    exact ⟨refs, hr⟩
  | @write o' w log ws _ _ ih =>
    cases hl with
    | cons hev hrest =>
      have ht' := ht.happens hev
      obtain ⟨e, he, hold, rfl⟩ := changed_inv hev
      obtain rfl := Option.some.inj (hr.symm.trans he)
      have hsame : o = o' := Object.native.inj hold
      subst hsame
      have hr' := congrFun (slot?_setSlot (some ⟨refs, false, .native (o.write w.offset w.bytes)⟩)
        (lt_size_of_slot? he)) r
      rw [Function.update_self] at hr'
      exact ih ht' hrest hr'
  | aside hs _ ih =>
    cases hl with
    | cons hev hrest =>
      obtain ⟨refs', hr'⟩ := slot?_of_spares ht hev hs hr
      exact ih (ht.happens hev) hrest hr'

end Life

/-! ## The end of an instance -/

/-- The slot of one object was emptied and its bytes were given back. Everything else is as it was.
-/
structure Freed (h : Heap) (r : Ref) (size : Nat) (h' : Heap) : Prop where
  slots : h'.slot? = Function.update h.slot? r none
  room : h'.slots.size = h.slots.size
  freeList : h'.freeList = r :: h.freeList
  tracker : h'.tracker = h.tracker.credit size
  interned : h'.interned = h.interned
  levels : h'.levels = h.levels

lemma freed_vacate {h : Heap} {r : Ref} {e : Entry} (hr : h.slot? r = some e) :
    Freed h r e.object.size (h.vacate r e.object) :=
  ⟨slot?_vacate _ (lt_size_of_slot? hr), Array.size_setIfInBounds .., rfl, rfl, rfl, rfl⟩

/-- An object that was made without references was charged for and placed. -/
lemma charged_of_create {h h' : Heap} {r : Ref} {o : Object} (ht : h.Tidy) (ho : o.children = [])
    (hrun : (create o).run h = .ok (.ok r) h') : h.tracker.charge o.size = .ok h'.tracker ∧
      Placed { h with tracker := h'.tracker } ⟨1, false, o⟩ r h' := by
  have hrelease : decRefs o.children h = .ok () h := by
    rw [ho]
    rfl
  rcases ht.create hrelease with ⟨t, r', h₁, hcharge, hrun', hplaced⟩ | ⟨e, -, hrun'⟩
  · cases hrun.symm.trans hrun'
    rw [hplaced.tracker]
    exact ⟨hcharge, hplaced⟩
  · cases hrun.symm.trans hrun'

/-- Destroying an instance shows its block and frees it, whatever its count says. -/
lemma destroy_of_native {α : Type} (f : List UInt8 → α) {c : Context} {r : Ref} {refs : Nat}
    {o : NativeObject} (hr : c.heap.slot? r = some ⟨refs, false, .native o⟩) :
    Entry.destroy f (some r) (some c) = .ok (some (f o.destructorView)) (some { c with
      heap := c.heap.vacate r (.native o)
      tracer := c.tracer.record (.entry .destroy true) }) := by
  have hadmits : (Entry.Invocation.destroy f (some r)).Admits c.heap _ :=
    ⟨r, rfl, refs, false, o, hr, rfl⟩
  exact Entry.Invocation.call_ok
    ((Entry.Invocation.run_of_admits hadmits).trans (Entry.Invocation.report_eq _ _ c))

/-- **A destructor sees the payload and no byte of another object.** An instance was made, and since
then its count may have become any number and anything may have happened to other objects; its own
block was changed by writes into the payload only. Then the payload is what was written there last,
with zeros where nothing was, and the header and the padding to the next word are zero. Destroying
the instance shows all of this to the destructor, without the header if the type is pure. Afterwards
the slot of the instance is the first one to be filled again, the tracker has back just what it
charged for the instance, and every other object, with its count, is as it was. -/
theorem destroy_native {typeName : String} {flags : TypeFlags} {n : Nat} {h₀ h₁ : Heap} {r : Ref}
    {log : List Event} {ws : List PayloadWrite} {c : Context} (ht : h₀.Tidy)
    (hmade : (create (.native (.zeroed typeName flags n))).run h₀ = .ok (.ok r) h₁)
    (hl : History h₁ log c.heap) (hw : Written r n log ws) :
    ∃ refs o size,
      c.heap.slot? r = some ⟨refs, false, .native o⟩ ∧
      o.payload = payloadAfter n ws ∧ (payloadAfter n ws).length = n ∧
      o.storage.toList = List.replicate NativeObject.headerSize 0 ++ payloadAfter n ws ++
        List.replicate (padding n) 0 ∧
      padding n < 8 ∧ 8 ∣ NativeObject.headerSize + n + padding n ∧
      h₀.tracker.charge size = .ok h₁.tracker ∧
      ∀ {α : Type} (f : List UInt8 → α), ∃ h',
        Entry.destroy f (some r) (some c) = .ok
          (some (f ((if flags.contains .pureInternal then []
              else List.replicate NativeObject.headerSize 0) ++
            payloadAfter n ws ++ List.replicate (padding n) 0)))
          (some { c with heap := h', tracer := c.tracer.record (.entry .destroy true) }) ∧
        Freed c.heap r size h' := by
  obtain ⟨hcharge, hplaced⟩ := charged_of_create ht rfl hmade
  have hr₁ : h₁.slot? r = some ⟨1, false, .native (.zeroed typeName flags n)⟩ := by
    rw [hplaced.slots, Function.update_self]
  have ht₁ := (ht.withTracker h₁.tracker).placed hplaced
  obtain ⟨refs, hr⟩ := slot?_of_written ht₁ hl hw hr₁
  have hlaid := laid_writeAll typeName flags hw.fits
  obtain ⟨hshort, hwords⟩ := padding_spec n
  have hfreed := freed_vacate hr
  rw [size_writeAll typeName flags hw.fits] at hfreed
  refine ⟨refs, _, _, hr, hlaid.payload, hlaid.length, hlaid.storage, hshort, hwords, hcharge, ?_⟩
  intro α f
  have hrun := destroy_of_native f hr
  rw [hlaid.destructorView, NativeObject.flags_writeAll] at hrun
  exact ⟨_, hrun, hfreed⟩

/-- An instance of a pure type with three bytes of payload, one of which was written, is destroyed
while five references to it are counted. -/
theorem destroy_native_counted : ∃ (c : Context) (r : Ref), c.heap.refCount r = 5 ∧ ∃ h',
    Entry.destroy id (some r) (some c) = .ok (some [0, 7, 0, 0, 0, 0, 0, 0])
      (some { c with heap := h', tracer := c.tracer.record (.entry .destroy true) }) ∧
    h'.slot? r = none ∧ h'.freeList = [r] := by
  let o : NativeObject := .zeroed "point" .pureInternal 3
  let r : Ref := ⟨4⟩
  let w : PayloadWrite := ⟨1, [7]⟩
  let h₁ : Heap := ((fresh .unlimited).place ⟨1, false, .native o⟩).2
  let h₂ : Heap := h₁.setSlot r (some ⟨5, false, .native o⟩)
  let h₃ : Heap := h₂.setSlot r (some ⟨5, false, .native (o.write w.offset w.bytes)⟩)
  let c : Context := { Context.fresh none .silent with heap := h₃ }
  have hmade : (create (.native o)).run (fresh .unlimited) = .ok (.ok r) h₁ := rfl
  have hcount : Happens h₁ (.recounted r) h₂ := .recounted (e := ⟨1, false, .native o⟩) rfl rfl 5
  have hwrite : Happens h₂ (.changed r (.native o) (.native (o.write w.offset w.bytes))) h₃ :=
    .changed (e := ⟨5, false, .native o⟩) rfl _
  have hlog : History h₁ _ c.heap := .cons hcount (.single hwrite)
  have hspares : (Event.recounted r).Spares r := trivial
  have hfits : w.Fits 3 := by
    show 1 + 1 ≤ 3
    decide
  have hwritten := Written.aside hspares (.write (o := o) hfits .nil)
  obtain ⟨refs, o', size, hr, -, -, -, -, -, -, hdestroy⟩ :=
    destroy_native (tidy_fresh .unlimited) hmade hlog hwritten
  obtain ⟨h', hrun, hfreed⟩ := hdestroy id
  refine ⟨c, r, rfl, h', hrun, ?_, hfreed.freeList⟩
  rw [hfreed.slots, Function.update_self]

end NativeCall
