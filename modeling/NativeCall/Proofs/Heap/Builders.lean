import NativeCall.Heap.Slots
import NativeCall.Proofs.Heap.Dicts
import NativeCall.Proofs.Heap.History

/-!
# Slot builders lose nothing

A builder is used by a client that calls `set` any number of times, with any indices, and then
builds the container or gives it up. Between two calls the client may do anything else to the heap,
as long as the builder keeps its references (`Client`).

Every reference given to `set` is in one of two places: in the slot that it was set at, if nothing
was set there later, or among those that a call has released. A call displaces one reference at
most, the old item of its slot or, where there is no such slot, the new one (`displaced`), and
releasing it is all that the call does to the heap (`set_run`). So the references handed over are
always those released so far and those in the slots (`perm_put`), and the end of the client's work
accounts for the latter: the container takes all of them over, or all of them are released.

## The client

A builder is no object of the heap, so the heap cannot say what it owns, and what a client does
between two calls is not in the hands of the builder. `Client` is therefore a relation between
everything that matters at one time: the calls so far with the heaps around each, the builder, what
is owned beside it, and the heap. Its constructor for the time between two calls asks for nothing
but a counted heap on which the builder's references are still its own, which is as much as any
client can be asked for and as little as the builder needs.

`Standing` is what is known from the calls alone. Its account of the references is a permutation and
not an equality of multisets with a sum, because each call is paired with the list that it released
(`SetCall.Releases`): a reference that was handed over twice is accounted for twice, and one that
was displaced is accounted for in the call that displaced it.

The end is stated as a relation as well. `Built` says which of four things `build` did, with the
objects and the heap in full, so that the proof of `client_spec` has the ownership from the general
transfer lemma for builders and the contents from here.
-/

namespace NativeCall.SlotBuilder

open Heap

/-! ## One call -/

/-- The builder behind a call of `set`. -/
def put (b : SlotBuilder) (i : Nat) (r : Ref) : SlotBuilder :=
  { b with slots := b.slots.set i (some r) }

/-- The references that a call of `set` is to release. -/
def displaced (b : SlotBuilder) (i : Nat) (r : Ref) : List Ref :=
  match b.slots[i]? with
  | none => [r]
  | some old => old.toList

section Call

variable {b : SlotBuilder} {i : Nat} {r : Ref} {h h' : Heap}

/-- Where there is no such slot, the builder stays as it is. -/
lemma put_of_le (hi : b.slots.length ≤ i) : b.put i r = b := by
  rw [put, List.set_eq_of_length_le hi]

lemma displaced_of_le (hi : b.slots.length ≤ i) : b.displaced i r = [r] := by
  rw [displaced, List.getElem?_eq_none hi]

lemma displaced_of_lt (hi : i < b.slots.length) : b.displaced i r = b.slots[i].toList := by
  rw [displaced, List.getElem?_eq_getElem hi]

/-- A call moves references between the slots and those it displaces. -/
lemma perm_put (b : SlotBuilder) (i : Nat) (r : Ref) :
    (r :: b.owned).Perm (b.displaced i r ++ (b.put i r).owned) := by
  rcases Nat.lt_or_ge i b.slots.length with hi | hi
  -- The slots are cut at the index. In front of it and behind it nothing changes, so the two lists
  -- differ in one place.
  · have howned : b.owned = (b.slots.take i).filterMap id ++
        (b.slots[i].toList ++ (b.slots.drop (i + 1)).filterMap id) := by
      conv_lhs => rw [owned, ← List.take_append_drop i b.slots, List.drop_eq_getElem_cons hi]
      cases hold : b.slots[i] <;> simp
    have hput : (b.put i r).owned = (b.slots.take i).filterMap id ++
        (r :: (b.slots.drop (i + 1)).filterMap id) := by
      simp [owned, put, List.set_eq_take_append_cons_drop, hi]
    rw [howned, hput, displaced_of_lt hi, ← Multiset.coe_eq_coe]
    simp only [← Multiset.cons_coe, ← Multiset.coe_add, ← Multiset.singleton_add]
    abel
  · rw [put_of_le hi, displaced_of_le hi]
    exact .refl _

/-- A call releases what it displaces, and does nothing else to the heap. -/
lemma set_run (hd : decRefs (b.displaced i r) h = .ok () h') : (b.set i r).run h =
    .ok (if i < b.slots.length then .ok (b.put i r) else .error .badInternalCall) h' := by
  rw [set]
  rcases Nat.lt_or_ge i b.slots.length with hi | hi
  · rw [if_pos hi, List.getElem?_eq_getElem hi]
    rw [displaced_of_lt hi] at hd
    cases hold : b.slots[i] with
    | none =>
      rw [hold] at hd
      cases hd
      rfl
    | some q =>
      rw [hold, Option.toList_some, ← decRef_eq_decRefs] at hd
      exact run_bind_ok (a := ()) (bind_ok hd)
  · rw [if_neg (Nat.not_lt_of_le hi), List.getElem?_eq_none hi]
    rw [displaced_of_le hi, ← decRef_eq_decRefs] at hd
    exact run_bind_ok (a := ()) (bind_ok hd)

/-- A call on a builder that has its references does not go wrong. -/
lemma exists_set_run {others : Multiset Ref} (hc : h.Counted (r ::ₘ (↑b.owned + others))) :
    ∃ h', decRefs (b.displaced i r) h = .ok () h' ∧ h'.Counted (↑(b.put i r).owned + others) := by
  apply Counted.decRefs
  rw [← add_assoc, Multiset.coe_add, ← Multiset.coe_eq_coe.mpr (b.perm_put i r),
    ← Multiset.cons_coe, Multiset.cons_add]
  exact hc

end Call

/-! ## Clients -/

/-- A call of `set` that a client made: what it was given, its answer, and the heaps around it. -/
structure SetCall where
  index : Nat
  value : Ref
  before : Heap
  answer : Except RunError SlotBuilder
  after : Heap

/-- The value that was set last at an index. -/
def lastSet (calls : List SetCall) (k : Nat) : Option Ref :=
  (calls.filter (fun call => call.index = k)).getLast?.map (·.value)

/-- A client began with a builder of this kind and length and made these calls one after the other.
Now it has the builder `b` on the heap `h`, and the references `others` are owned beside those of
the builder. A call takes the reference that it is given over; one that fails leaves the builder as
it was. -/
inductive Client (kind : SequenceKind) (length : Nat) :
    List SetCall → SlotBuilder → Multiset Ref → Heap → Prop where
  | start {others : Multiset Ref} {h : Heap} (hc : h.Counted others) :
      Client kind length [] (.empty kind length) others h
  /-- Something else happens to the heap. The references of the builder are still its own. -/
  | elsewhere {calls : List SetCall} {b : SlotBuilder} {others others' : Multiset Ref} {h h' : Heap}
      (hp : Client kind length calls b others h) (hc : h'.Counted (↑b.owned + others')) :
      Client kind length calls b others' h'
  | set {calls : List SetCall} {b : SlotBuilder} {others : Multiset Ref} {h h' : Heap} {i : Nat}
      {r : Ref} {answer : Except RunError SlotBuilder}
      (hp : Client kind length calls b (r ::ₘ others) h)
      (hrun : (b.set i r).run h = .ok answer h') :
      Client kind length (calls ++ [⟨i, r, h, answer, h'⟩]) (answer.toOption.getD b) others h'

/-- A call released these references, and nothing else happened to the heap. It was accepted just if
there is a slot for it; if not, it released the reference that it was given. -/
structure SetCall.Releases (length : Nat) (call : SetCall) (gone : List Ref) : Prop where
  released : decRefs gone call.before = .ok () call.after
  accepted : call.index < length → ∃ b, call.answer = .ok b
  rejected : length ≤ call.index → call.answer = .error .badInternalCall ∧ gone = [call.value]

/-- What is known of a builder from the calls that a client made. -/
structure Standing (kind : SequenceKind) (length : Nat) (calls : List SetCall) (b : SlotBuilder) :
    Prop where
  kind : b.kind = kind
  /-- Every slot has what was set there last. -/
  slots : b.slots = (List.range length).map (lastSet calls)
  /-- The references handed over are those that the calls released and those in the slots. -/
  accounted : ∃ gone : List (List Ref), List.Forall₂ (SetCall.Releases length) calls gone ∧
    (calls.map (·.value)).Perm (gone.flatten ++ b.owned)

lemma lastSet_nil (k : Nat) : lastSet [] k = none := rfl

lemma lastSet_append (calls : List SetCall) (call : SetCall) (k : Nat) :
    lastSet (calls ++ [call]) k = if call.index = k then some call.value else lastSet calls k := by
  unfold lastSet
  rw [List.filter_append]
  split_ifs with hk <;> simp [hk]

lemma standing_empty (kind : SequenceKind) (length : Nat) :
    Standing kind length [] (.empty kind length) := by
  have hslots : (List.range length).map (lastSet []) = List.replicate length none := by
    have hnil : lastSet [] = fun _ => none := funext lastSet_nil
    rw [hnil, List.map_const', List.length_range]
  exact ⟨rfl, hslots.symm, [], .nil, by simp [owned, empty]⟩

section Clients

variable {kind : SequenceKind} {length : Nat} {calls : List SetCall} {b : SlotBuilder}
  {others : Multiset Ref} {h h' : Heap} {i : Nat} {r : Ref}

lemma Standing.length_slots (hs : Standing kind length calls b) : b.slots.length = length := by
  rw [hs.slots, List.length_map, List.length_range]

/-- One more call, with what it releases. -/
lemma Standing.put (hs : Standing kind length calls b)
    (hd : decRefs (b.displaced i r) h = .ok () h') {answer : Except RunError SlotBuilder}
    (hrun : (b.set i r).run h = .ok answer h') :
    Standing kind length (calls ++ [⟨i, r, h, answer, h'⟩]) (b.put i r) := by
  have hanswer := set_run hd
  rw [hrun, hs.length_slots] at hanswer
  injection hanswer with hanswer
  obtain ⟨gone, hgone, hperm⟩ := hs.accounted
  refine ⟨hs.kind, ?_, gone ++ [b.displaced i r], ?_, ?_⟩
  · rw [SlotBuilder.put, hs.slots]
    refine List.ext_getElem (by simp) (fun k hk _ => ?_)
    simp [List.getElem_set, lastSet_append]
  · refine List.rel_append hgone (.cons ⟨hd, fun hi => ?_, fun hi => ?_⟩ .nil)
    · exact ⟨_, hanswer.trans (if_pos hi)⟩
    · exact ⟨hanswer.trans (if_neg (Nat.not_lt_of_le hi)), displaced_of_le (hs.length_slots ▸ hi)⟩
  · have hadded : (calls.map (·.value) ++ [r]).Perm (gone.flatten ++ r :: b.owned) :=
      (List.perm_append_singleton _ _).trans ((hperm.cons r).trans List.perm_middle.symm)
    have hmoved := (b.perm_put i r).append_left gone.flatten
    simpa using hadded.trans hmoved

/-- What a client knows of its builder, and that the references of all are counted. -/
lemma Client.standing (hp : Client kind length calls b others h) :
    Standing kind length calls b ∧ h.Counted (↑b.owned + others) := by
  induction hp with
  | start hc =>
    refine ⟨standing_empty kind length, ?_⟩
    simpa [owned, empty] using hc
  -- What the client did elsewhere says nothing of the builder, and the counts are given again.
  | elsewhere hp hc ih => exact ⟨ih.1, hc⟩
  | @set calls b others h h' i r answer hp hrun ih =>
    obtain ⟨hs, hc⟩ := ih
    rw [Multiset.add_cons] at hc
    obtain ⟨h₁, hd, hc'⟩ := exists_set_run (i := i) hc
    have hanswer := set_run hd
    cases hrun.symm.trans hanswer
    have hput : (if i < b.slots.length then Except.ok (b.put i r)
        else Except.error RunError.badInternalCall).toOption.getD b = b.put i r := by
      split_ifs with hi
      · rfl
      · exact (put_of_le (Nat.le_of_not_lt hi)).symm
    rw [hput]
    exact ⟨hs.put hd hrun, hc'⟩

end Clients

/-! ## The end of a builder -/

/-- The container that a builder makes of its items. -/
def container (kind : SequenceKind) (items : List Ref) : Object :=
  match kind with
  | .tuple => .tuple items
  | .list => .list (.filled items)

/-- What `build` answers, and the heap that it leaves. The tuple of no items is there already and
costs nothing. Any other container is charged for and put into an empty slot, with the result as the
only reference to it. -/
inductive Built (b : SlotBuilder) (h : Heap) : Except RunError Ref → Heap → Prop where
  | unset {k : Nat} {h' : Heap} (hk : b.slots[k]? = some none)
      (hbelow : ∀ j < k, b.slots[j]? ≠ some none) (hreleased : decRefs b.owned h = .ok () h') :
      Built b h (.error (.raising .systemError
        (b.kind.name ++ " builder slot " ++ toString k ++ " was never set"))) h'
  | noItems (hkind : b.kind = .tuple) (hslots : b.slots = []) : Built b h (.ok emptyTupleRef) h
  | made {t : Tracker} {r : Ref} {h' : Heap} (hitems : b.slots = b.owned.map some)
      (hsome : container b.kind b.owned ≠ .tuple [])
      (hcharge : h.tracker.charge (container b.kind b.owned).size = .ok t)
      (hplaced : Placed { h with tracker := t } ⟨1, false, container b.kind b.owned⟩ r h') :
      Built b h (.ok r) h'
  | refused {e : ResourceError} {h' : Heap} (hitems : b.slots = b.owned.map some)
      (hsome : container b.kind b.owned ≠ .tuple [])
      (hcharge : h.tracker.charge (container b.kind b.owned).size = .error e)
      (hreleased : decRefs b.owned h = .ok () h') : Built b h (.error e.toRunError) h'

section End

variable {b : SlotBuilder} {others : Multiset Ref} {h : Heap}

/-- If no slot is unset, the items are those of the slots in turn. -/
lemma slots_eq_map_some (hb : b.firstUnset? = none) : b.slots = b.owned.map some := by
  have hset := List.findIdx?_eq_none_iff.mp hb
  unfold owned
  generalize b.slots = slots at hset
  induction slots with
  | nil => rfl
  | cons slot slots ih =>
    cases slot with
    | none => simp at hset
    | some r =>
      obtain ⟨-, hset⟩ := List.forall_mem_cons.mp hset
      rw [List.filterMap_cons_some (f := id) rfl, List.map_cons, ← ih hset]

/-- The container of items that a builder owns is made, or the items are released. -/
lemma exists_made (hc : h.Counted (↑b.owned + others)) (hitems : b.slots = b.owned.map some)
    (hsome : container b.kind b.owned ≠ .tuple []) :
    ∃ answer h', (create (container b.kind b.owned)).run h = .ok answer h' ∧
      Built b h answer h' := by
  have hchildren : (container b.kind b.owned).children = b.owned := by
    cases b.kind <;> rfl
  obtain ⟨h₁, hd, -⟩ := hc.decRefs
  rcases hc.tidy.create (o := container b.kind b.owned) (by rwa [hchildren]) with
    ⟨t, r, h', hcharge, hrun, hplaced⟩ | ⟨e, hcharge, hrun⟩
  · exact ⟨_, _, hrun, .made hitems hsome hcharge hplaced⟩
  · exact ⟨_, _, hrun, .refused hitems hsome hcharge hd⟩

/-- A builder that has its references ends in one of the ways that there are. -/
lemma exists_built (hc : h.Counted (↑b.owned + others)) :
    ∃ answer h', b.build.run h = .ok answer h' ∧ Built b h answer h' := by
  rw [build]
  cases hb : b.firstUnset? with
  | some i =>
    obtain ⟨h', hd, -⟩ := hc.decRefs
    obtain ⟨hi, hunset, hbelow⟩ := List.findIdx?_eq_some_iff_getElem.mp hb
    refine ⟨_, h', run_bind_ok (a := ()) (bind_ok hd), .unset ?_ (fun j hj hnone => ?_) hd⟩
    · rw [List.getElem?_eq_getElem hi, Option.isNone_iff_eq_none.mp hunset]
    · obtain ⟨hlt, hnone⟩ := List.getElem?_eq_some_iff.mp hnone
      exact hbelow j hj (by rw [hnone]; rfl)
  | none =>
    have hitems := slots_eq_map_some hb
    cases hkind : b.kind with
    | list =>
      have hmade := exists_made hc hitems (by rw [hkind]; simp [container])
      rwa [hkind] at hmade
    | tuple =>
      cases howned : b.owned with
      | nil => exact ⟨_, _, rfl, .noItems hkind (by rw [hitems, howned]; rfl)⟩
      | cons r items =>
        have hmade := exists_made hc hitems (by rw [hkind, howned]; simp [container])
        rwa [hkind, howned] at hmade

end End

/-- **A builder neither loses a reference nor releases one twice.** Whatever calls of `set` a client
made, and whatever else it did to the heap in between, every slot has what was set there last; a
call was rejected just if there is no slot for it; and the references handed over are, one by one,
those that the calls released and those in the slots. Another call does not go wrong, and the client
can go on from there. To give the builder up is to release the references in its slots. To build the
container is to put them all into it, each where it stands; if a slot is unset, the error tells the
first one, and if the container is refused, the error tells why, and in both cases the references in
the slots are released. -/
theorem client_spec {kind : SequenceKind} {length : Nat} {calls : List SetCall} {b : SlotBuilder}
    {others : Multiset Ref} {h : Heap} (hp : Client kind length calls b others h) :
    Standing kind length calls b ∧ h.Counted (↑b.owned + others) ∧
      (∀ i r rest, others = r ::ₘ rest → ∃ answer h', (b.set i r).run h = .ok answer h' ∧
        Client kind length (calls ++ [⟨i, r, h, answer, h'⟩]) (answer.toOption.getD b) rest h') ∧
      (∃ h', b.cancel h = .ok () h' ∧ decRefs b.owned h = .ok () h' ∧ h'.Counted others) ∧
      ∃ answer h', b.build.run h = .ok answer h' ∧ Built b h answer h' ∧
        h'.Counted (ofOutcome (fun r => {r}) 0 answer + others) := by
  obtain ⟨hs, hc⟩ := hp.standing
  refine ⟨hs, hc, fun i r rest hr => ?_, ?_, ?_⟩
  · subst hr
    have hmoved := hc
    rw [Multiset.add_cons] at hmoved
    obtain ⟨h', hd, -⟩ := exists_set_run (i := i) hmoved
    exact ⟨_, h', set_run hd, .set hp (set_run hd)⟩
  · obtain ⟨h', hd, hc'⟩ := hc.decRefs
    exact ⟨h', hd, hd, hc'⟩
  · obtain ⟨answer, h', hrun, hbuilt⟩ := exists_built hc
    have htransfers : Transfers 0 b.build.run b.owned (ofOutcome (fun r => {r}) 0) := .builder b
    -- The way it ends comes from the definition of `build`, and who owns what then from the
    -- transfer of its references.
    obtain ⟨answer', h₁, hrun', htrade⟩ := htransfers h others (Multiset.zero_le _) hc
    cases hrun.symm.trans hrun'
    exact ⟨answer, h', hrun, hbuilt, htrade.counted⟩

/-- A list of two items: the second slot is set twice, which releases what stood there first, and
one call is made for a slot that there is not. -/
theorem client_spec_rejected : ∃ calls b h, Client .list 2 calls b 0 h ∧
    calls.map (fun call => (call.index, call.value)) =
      [(1, ⟨4⟩), (1, ⟨5⟩), (3, falseRef), (0, trueRef)] ∧
    calls.map (·.answer.isOk) = [true, true, false, true] ∧ h.slot? ⟨4⟩ = none ∧
    ∃ r h', b.build.run h = .ok (.ok r) h' ∧
      h'.slot? r = some ⟨1, false, .list (.filled [trueRef, ⟨5⟩])⟩ := by
  let h : Heap := freshWith .unlimited [⟨1, false, .int 7⟩, ⟨1, false, .int 8⟩]
  let h₁ : Heap := h.vacate ⟨4⟩ (.int 7)
  have hc : h.Counted {⟨4⟩, ⟨5⟩, falseRef, trueRef} :=
    counted_freshWith (by decide +kernel) (by decide +kernel)
  have hfirst : (set (.empty .list 2) 1 ⟨4⟩).run h = .ok (.ok ⟨.list, [none, some ⟨4⟩]⟩) h := rfl
  have hagain : (set ⟨.list, [none, some ⟨4⟩]⟩ 1 ⟨5⟩).run h =
      .ok (.ok ⟨.list, [none, some ⟨5⟩]⟩) h₁ := by
    refine set_run ?_
    have hdrop : dropReference ⟨4⟩ h = .ok (some (.int 7)) h₁ := rfl
    rw [decRefs_eq_drain]
    exact (drain_cons hdrop []).trans (by simp [drain, released, Object.children])
  have hreject : (set ⟨.list, [none, some ⟨5⟩]⟩ 3 falseRef).run h₁ =
      .ok (.error .badInternalCall) h₁ := by
    refine set_run ?_
    have hdrop : dropReference falseRef h₁ = .ok none h₁ := rfl
    rw [decRefs_eq_drain]
    exact (drain_cons hdrop []).trans (by simp [drain, released])
  have hlast : (set ⟨.list, [none, some ⟨5⟩]⟩ 0 trueRef).run h₁ =
      .ok (.ok ⟨.list, [some trueRef, some ⟨5⟩]⟩) h₁ := rfl
  have hstart : Client .list 2 [] (.empty .list 2) {⟨4⟩, ⟨5⟩, falseRef, trueRef} h := .start hc
  have hcalled := (((hstart.set hfirst).set hagain).set hreject).set hlast
  obtain ⟨-, -, -, -, answer, h', hrun, hbuilt, -⟩ := client_spec hcalled
  refine ⟨_, _, h₁, hcalled, rfl, rfl, rfl, ?_⟩
  cases hbuilt with
  | @unset k _ hk =>
    obtain ⟨hlt, hk⟩ := List.getElem?_eq_some_iff.mp hk
    obtain rfl | rfl : k = 0 ∨ k = 1 := by
      have hlt : k < 2 := hlt
      omega
    all_goals cases hk
  | noItems hkind => cases hkind
  | made hitems hsome hcharge hplaced =>
    refine ⟨_, _, hrun, ?_⟩
    rw [hplaced.slots, Function.update_self]
    rfl
  | refused hitems hsome hcharge => cases hcharge

end NativeCall.SlotBuilder
