import NativeCall.Proofs.Heap.Sound

/-!
# Clients of a heap

`Heap.Step` lists what a client that keeps its books can do with a heap: it makes, shares and
releases objects, interns strings, fills dicts and hands them over to the heap, and changes lists,
extension objects and dicts in place. Every step runs an operation of the heap, and says what it
takes from the client's holdings and what it adds to them.

What a program does with a heap is a sequence of such steps. A build makes its containers one by one
and releases what it cannot use; a call of a native function does what the function does. Whatever
is done, the heap stays sound (`Sound.step`).

## What keeps a client honest

The list of steps is the only place where discipline is imposed, and each step imposes as little as
it can. A reference can be given up by whoever owns it. Storage can be destroyed by whoever owns the
last reference, which makes destroying and releasing the same thing (`releaseStorage_eq_decRef`);
what happens to a client that destroys storage others refer to is in `Proofs.Heap.Cascade`. An
object that is changed in place trades references with the client, so that both sides of the
equation in `update` name the same multiset. No step may touch a string that is on the heap, and
dicts change only as a whole.

A dict that is being filled belongs to the client and not to the heap, and it is held apart from the
references for that reason: what has to be known of it is not only who owns its keys and values but
also that they are filed under the right keys. The steps for dicts move a dict between the two
owners, and `Sound` asks the same of it on either side.

## What is proved

There is one lemma for each step, named after it. Each of them gets the counts from the transfer
lemma of the operation and the rest from what the operation leaves alone (`NothingNew`, `Placed`).
`Sound.step` puts them together, and a run of steps is an induction that the users of this module
make over their own runs. The last section adds that interned strings are never taken out of the
table, for any step.
-/

namespace NativeCall

/-! ## Steps -/

namespace Heap

/-- The objects that a client changes in place, other than dicts. -/
def Mutable : Object → Prop
  | .list _ | .native _ => True
  | _ => False

lemma mutable_facts {o : Object} (hm : Mutable o) :
    o.text? = none ∧ o.dict? = none ∧ o ∉ singletons := by
  cases o with
  | list _ | native _ => exact ⟨rfl, rfl, by simp [singletons]⟩
  | _ => exact hm.elim

/-- What a client can do. -/
inductive Step : Heap → Holdings → Heap → Holdings → Prop where
  /-- It asks for a reference of its own. -/
  | retain {h h' : Heap} {refs dicts} {r : Ref} (hrun : incRef r h = .ok () h') :
      Step h ⟨refs, dicts⟩ h' ⟨r ::ₘ refs, dicts⟩
  /-- It gives a reference up. -/
  | release {h h' : Heap} {refs dicts} {r : Ref} (hrun : decRef r h = .ok () h') :
      Step h ⟨r ::ₘ refs, dicts⟩ h' ⟨refs, dicts⟩
  /-- It destroys an object that nobody else refers to. -/
  | destroy {h h' : Heap} {refs dicts} {r : Ref} {e : Entry} (he : h.slot? r = some e)
      (hlast : e.refs ≤ 1) (hrun : releaseStorage r h = .ok () h') :
      Step h ⟨r ::ₘ refs, dicts⟩ h' ⟨refs, dicts⟩
  /-- It makes an object, which takes over the references in it. -/
  | allocate {h h' : Heap} {refs dicts} {o : Object} {r : Ref} (ho : o.dict? = none)
      (hrun : (allocate o).run h = .ok (.ok r) h') :
      Step h ⟨↑o.children + refs, dicts⟩ h' ⟨r ::ₘ refs, dicts⟩
  /-- An object is refused. -/
  | refuse {h h' : Heap} {refs dicts} {o : Object} {e : ResourceError}
      (hrun : (Heap.allocate o).run h = .ok (.error e) h') :
      Step h ⟨↑o.children + refs, dicts⟩ h' ⟨refs, dicts⟩
  | intern {h h' : Heap} {s : Holdings} {text : String} {outcome : Except ResourceError Ref}
      (hrun : (intern text).run h = .ok outcome h') : Step h s h' s
  /-- It begins to fill a dict. -/
  | newDict {h : Heap} {refs dicts} : Step h ⟨refs, dicts⟩ h ⟨refs, .empty ::ₘ dicts⟩
  | setItem {h h' : Heap} {refs dicts} {d d' : Dict} {key value : Ref}
      (hrun : (setItem d key value).run h = .ok (.ok d') h') :
      Step h ⟨key ::ₘ value ::ₘ refs, d ::ₘ dicts⟩ h' ⟨refs, d' ::ₘ dicts⟩
  /-- A key is refused. -/
  | rejectItem {h h' : Heap} {refs dicts} {d : Dict} {key value : Ref} {e : RunError}
      (hrun : (Heap.setItem d key value).run h = .ok (.error e) h') :
      Step h ⟨key ::ₘ value ::ₘ refs, d ::ₘ dicts⟩ h' ⟨refs, d ::ₘ dicts⟩
  /-- It hands a dict over to the heap. -/
  | finishDict {h h' : Heap} {refs dicts} {d : Dict} {r : Ref}
      (hrun : (Heap.allocate (.dict d)).run h = .ok (.ok r) h') :
      Step h ⟨refs, d ::ₘ dicts⟩ h' ⟨r ::ₘ refs, dicts⟩
  /-- It takes a dict apart. -/
  | openDict {h : Heap} {refs dicts} {d : Dict} :
      Step h ⟨refs, d ::ₘ dicts⟩ h ⟨↑d.refs + refs, dicts⟩
  /-- It changes an object and takes over what the object gives up. -/
  | update {h h' : Heap} {refs refs' dicts} {r : Ref} {o o' : Object} (ho : h.object? r = some o)
      (hm : Mutable o) (hm' : Mutable o')
      (ht : (↑o'.children + refs' : Multiset Ref) = ↑o.children + refs)
      (hrun : Heap.update r (fun _ => o') h = .ok () h') : Step h ⟨refs, dicts⟩ h' ⟨refs', dicts⟩
  /-- It puts a dict in the place of another one. -/
  | swapDict {h h' : Heap} {refs dicts} {r : Ref} {d d' : Dict} (hd : h.dict? r = some d)
      (hrun : Heap.update r (fun _ => .dict d') h = .ok () h') :
      Step h ⟨refs, d' ::ₘ dicts⟩ h' ⟨refs, d ::ₘ dicts⟩
  /-- It enters or leaves levels of nested data. -/
  | levels {h : Heap} {s : Holdings} (n : Nat) : Step h s { h with levels := n } s

/-! ## Every step keeps the heap sound -/

variable {h h' : Heap} {s s' : Holdings} {r : Ref} {d : Dict}

section Steps

variable {refs : Multiset Ref} {dicts : Multiset Dict} {key value : Ref} {d' : Dict}

lemma Sound.retain (hs : h.Sound ⟨refs, dicts⟩) (hrun : Heap.incRef r h = .ok () h') :
    h'.Sound ⟨r ::ₘ refs, dicts⟩ := by
  refine (NothingNew.incRef hrun).sound hs ?_ (fun d hd => .inl hd)
  rw [Holdings.owned_cons]
  cases hr : h.slot? r with
  | none =>
    rw [Heap.incRef, bind_stopped (demand_of_slot?_eq_none hr).choose_spec] at hrun
    cases hrun
  | some e =>
    obtain ⟨h₁, hinc, hc⟩ := hs.counted.incRef hr
    cases hinc.symm.trans hrun
    exact hc

lemma Sound.releases {rs : List Ref} (hs : h.Sound ⟨↑rs + refs, dicts⟩)
    (hrun : Heap.decRefs rs h = .ok () h') : h'.Sound ⟨refs, dicts⟩ := by
  refine (NothingNew.decRefs hrun).sound hs ?_ (fun d hd => .inl hd)
  have hc := hs.counted
  rw [Holdings.owned_add] at hc
  obtain ⟨h₁, hdrop, hc'⟩ := hc.decRefs
  cases hdrop.symm.trans hrun
  exact hc'

lemma Sound.release (hs : h.Sound ⟨r ::ₘ refs, dicts⟩) (hrun : Heap.decRef r h = .ok () h') :
    h'.Sound ⟨refs, dicts⟩ := by
  rw [decRef_eq_decRefs] at hrun
  exact Sound.releases hs hrun

/-- Destroying an object is giving up the last reference to it. -/
lemma releaseStorage_eq_decRef {e : Entry} (he : h.slot? r = some e) (hlast : e.refs ≤ 1) :
    releaseStorage r h = decRef r h := by
  have hdrop := dropReference_eq he
  rw [releaseStorage, bind_ok (demand_of_slot? he), decRef]
  by_cases hi : e.immortal = true
  · rw [if_pos hi] at hdrop ⊢
    rw [drain_cons hdrop]
    show _ = Heap.drain [] h
    rw [Heap.drain]
    rfl
  · rw [if_neg hi, if_neg (Nat.not_lt.mpr hlast)] at hdrop
    rw [if_neg hi, drain_cons hdrop, List.append_nil]
    rfl

lemma Sound.allocate {o : Object} (hs : h.Sound ⟨↑o.children + refs, dicts⟩)
    (ho : o.dict? = none) (hrun : (Heap.allocate o).run h = .ok (.ok r) h') :
    h'.Sound ⟨r ::ₘ refs, dicts⟩ := by
  have hc := hs.counted
  rw [Holdings.owned_add] at hc
  -- A dict would have to be known before it is on the heap, so it has a step of its own.
  rcases allocate_inv hc hrun with ⟨q, t, hq, hp⟩ | ⟨e, he, -⟩
  · cases hq
    have hc' : h'.Counted (r ::ₘ Holdings.owned ⟨refs, dicts⟩) := hp.counted rfl (hc.withTracker t)
    rw [← Holdings.owned_cons] at hc'
    refine hp.sound (hs.withTracker t) hc' (fun d hd => ?_) (fun d hd => hd)
    obtain rfl : o = .dict d := hd
    cases ho
  · cases he

lemma Sound.finishDict (hs : h.Sound ⟨refs, d ::ₘ dicts⟩)
    (hrun : (Heap.allocate (.dict d)).run h = .ok (.ok r) h') : h'.Sound ⟨r ::ₘ refs, dicts⟩ := by
  have hc := hs.counted
  rw [Holdings.owned_cons_dict] at hc
  rcases allocate_inv hc hrun with ⟨q, t, hq, hp⟩ | ⟨e, he, -⟩
  · cases hq
    have hc' : h'.Counted (r ::ₘ Holdings.owned ⟨refs, dicts⟩) := hp.counted rfl (hc.withTracker t)
    rw [← Holdings.owned_cons] at hc'
    refine hp.sound (hs.withTracker t) hc' (fun d' hd => ?_) (fun d' hd => ?_)
    · cases hd
      exact .inr (Multiset.mem_cons_self d dicts)
    · exact Multiset.mem_cons_of_mem hd
  · cases he

lemma Sound.refuse {o : Object} {e : ResourceError} (hs : h.Sound ⟨↑o.children + refs, dicts⟩)
    (hrun : (Heap.allocate o).run h = .ok (.error e) h') : h'.Sound ⟨refs, dicts⟩ := by
  rcases allocate_inv hs.counted hrun with ⟨q, t, hq, -⟩ | ⟨e', -, hdrop⟩
  · cases hq
  · exact hs.releases hdrop

lemma Sound.intern {t : String} {outcome : Except ResourceError Ref} (hs : h.Sound s)
    (hrun : (Heap.intern t).run h = .ok outcome h') : h'.Sound s := by
  obtain ⟨outcome', h₁, hrun', hi⟩ := intern_run hs.counted t
  cases hrun'.symm.trans hrun
  exact (hi.sound hs).1

lemma Sound.newDict (hs : h.Sound ⟨refs, dicts⟩) : h.Sound ⟨refs, .empty ::ₘ dicts⟩ := by
  refine ⟨?_, hs.interned, fun d hd => ?_⟩
  · rw [Holdings.owned_cons_dict]
    exact (zero_add (Holdings.owned ⟨refs, dicts⟩)).symm ▸ hs.counted
  · rcases hd with hheap | hmem
    · exact hs.filed d (.inl hheap)
    · rcases Multiset.mem_cons.mp hmem with rfl | hmem
      · exact Dict.filed_empty h
      · exact hs.filed d (.inr hmem)

lemma Sound.openDict (hs : h.Sound ⟨refs, d ::ₘ dicts⟩) : h.Sound ⟨↑d.refs + refs, dicts⟩ := by
  refine ⟨?_, hs.interned, fun d' hd => hs.filed d' ?_⟩
  · rw [Holdings.owned_add, ← Holdings.owned_cons_dict]
    exact hs.counted
  · exact hd.imp_right Multiset.mem_cons_of_mem

/-- Putting a pair into a dict takes the pair over. -/
lemma Sound.counted_setItem {outcome : Except RunError Dict}
    (hs : h.Sound ⟨key ::ₘ value ::ₘ refs, d ::ₘ dicts⟩)
    (hrun : (Heap.setItem d key value).run h = .ok outcome h') :
    h'.Counted (ofOutcome (fun d => (d.refs : Multiset Ref)) d.refs outcome +
      Holdings.owned ⟨refs, dicts⟩) := by
  -- The key, the value and what the dict refers to are all owned by the client; putting the pair in
  -- moves two of them into the dict or releases them.
  have hc := hs.counted
  have howned : Holdings.owned ⟨key ::ₘ value ::ₘ refs, d ::ₘ dicts⟩ =
      {key} + ({value} + ↑d.refs) + Holdings.owned ⟨refs, dicts⟩ := by
    rw [Holdings.owned_cons_dict, Holdings.owned_cons, Holdings.owned_cons,
      ← Multiset.singleton_add, ← Multiset.singleton_add]
    abel
  rw [howned] at hc
  have hd := hs.filed d (.inr (Multiset.mem_cons_self d dicts))
  obtain ⟨outcome', h₁, hrun', ht⟩ :=
    Transfers.setItem hd.distinct h _ (Multiset.zero_le _) hc
  cases hrun'.symm.trans hrun
  exact ht.counted

lemma Sound.nothingNew_setItem {outcome : Except RunError Dict}
    (hs : h.Sound ⟨key ::ₘ value ::ₘ refs, d ::ₘ dicts⟩)
    (hrun : (Heap.setItem d key value).run h = .ok outcome h') : NothingNew h h' := by
  refine NothingNew.setItem hs.counted (hs.counted.slot?_ne_none ?_) hrun
  rw [Holdings.owned_cons]
  exact Multiset.mem_cons_self key _

lemma Sound.setItem (hs : h.Sound ⟨key ::ₘ value ::ₘ refs, d ::ₘ dicts⟩)
    (hrun : (Heap.setItem d key value).run h = .ok (.ok d') h') :
    h'.Sound ⟨refs, d' ::ₘ dicts⟩ := by
  have hmem : key ∈ Holdings.owned ⟨key ::ₘ value ::ₘ refs, d ::ₘ dicts⟩ ∧
      value ∈ Holdings.owned ⟨key ::ₘ value ::ₘ refs, d ::ₘ dicts⟩ := by
    rw [Holdings.owned_cons, Holdings.owned_cons]
    simp
  have hkey := hs.counted.slot?_ne_none hmem.1
  have hvalue := hs.counted.slot?_ne_none hmem.2
  have hd : Holdings.Knows ⟨key ::ₘ value ::ₘ refs, d ::ₘ dicts⟩ h d :=
    .inr (Multiset.mem_cons_self d dicts)
  refine (hs.nothingNew_setItem hrun).sound hs ?_ (fun d₁ hd₁ => ?_)
  · rw [Holdings.owned_cons_dict]
    exact hs.counted_setItem hrun
  · rcases Multiset.mem_cons.mp hd₁ with rfl | hd₁
    · exact .inr (filed_setItem (hs.filed d hd) (hs.live hd) hkey hvalue hrun)
    · exact .inl (Multiset.mem_cons_of_mem hd₁)

lemma Sound.rejectItem {e : RunError} (hs : h.Sound ⟨key ::ₘ value ::ₘ refs, d ::ₘ dicts⟩)
    (hrun : (Heap.setItem d key value).run h = .ok (.error e) h') :
    h'.Sound ⟨refs, d ::ₘ dicts⟩ := by
  refine (hs.nothingNew_setItem hrun).sound hs ?_ (fun d₁ hd₁ => .inl hd₁)
  rw [Holdings.owned_cons_dict]
  exact hs.counted_setItem hrun

lemma Sound.replaceObject {refs' : Multiset Ref} {o o' : Object} (hs : h.Sound ⟨refs, dicts⟩)
    (ho : h.object? r = some o) (hm : Mutable o) (hm' : Mutable o')
    (ht : (↑o'.children + refs' : Multiset Ref) = ↑o.children + refs)
    (hrun : Heap.update r (fun _ => o') h = .ok () h') : h'.Sound ⟨refs', dicts⟩ := by
  obtain ⟨e, he, rfl⟩ := update_inv hrun
  obtain rfl : e.object = o := by
    rw [object?, he] at ho
    exact Option.some.inj ho
  obtain ⟨htext, -, hne⟩ := mutable_facts hm
  obtain ⟨htext', hdict', -⟩ := mutable_facts hm'
  refine hs.update he htext htext' hne ?_ (fun d hd => ?_)
  · rw [← Holdings.owned_add, ht, Holdings.owned_add]
  -- A dict on the heap after the change was there before, since the new object is none.
  · rcases hd with ⟨q, hq⟩ | hmem
    · rcases dict?_of_setSlot he hq with hq | rfl
      · exact .inl ⟨q, hq⟩
      · cases hdict'
    · exact .inr hmem

lemma Sound.swapDict (hs : h.Sound ⟨refs, d' ::ₘ dicts⟩) (hd : h.dict? r = some d)
    (hrun : Heap.update r (fun _ => .dict d') h = .ok () h') : h'.Sound ⟨refs, d ::ₘ dicts⟩ := by
  obtain ⟨e, he, rfl⟩ := update_inv hrun
  obtain ⟨e', he', hdict⟩ := dict?_eq_some.mp hd
  obtain rfl := Option.some.inj (he.symm.trans he')
  refine hs.update he (by rw [hdict]; rfl) rfl (by rw [hdict]; simp [singletons]) ?_
    (fun d₁ hd₁ => ?_)
  · rw [hdict, Holdings.owned_cons_dict, Holdings.owned_cons_dict]
    exact add_left_comm _ _ _
  · rcases hd₁ with ⟨q, hq⟩ | hmem
    · rcases dict?_of_setSlot he hq with hq | hnew
      · exact .inl ⟨q, hq⟩
      · cases hnew
        exact .inr (Multiset.mem_cons_self d' dicts)
    · rcases Multiset.mem_cons.mp hmem with rfl | hmem
      · exact .inl ⟨r, hd⟩
      · exact .inr (Multiset.mem_cons_of_mem hmem)

lemma Sound.levels (hs : h.Sound s) (n : Nat) : Sound { h with levels := n } s := by
  refine ⟨?_, hs.interned, fun d hd => ?_⟩
  · have hc := hs.counted
    exact ⟨hc.live, hc.refs, hc.nodup_freeList, hc.mem_freeList, hc.singleton⟩
  · have hfiled := hs.filed d hd
    exact ⟨hfiled.distinct, hfiled.text⟩

end Steps

/-- **A heap stays sound.** Whatever a client does with a heap that is sound for what it owns, the
heap is sound for what it owns then. -/
theorem Sound.step (hs : h.Sound s) (hstep : Step h s h' s') : h'.Sound s' := by
  cases hstep with
  | retain hrun => exact hs.retain hrun
  | release hrun => exact hs.release hrun
  | destroy he hlast hrun =>
    -- Nobody else refers to the object, so nothing refers to the slot once it is empty.
    rw [releaseStorage_eq_decRef he hlast] at hrun
    exact hs.release hrun
  | allocate ho hrun => exact hs.allocate ho hrun
  | refuse hrun => exact hs.refuse hrun
  | intern hrun => exact hs.intern hrun
  | newDict => exact hs.newDict
  | setItem hrun => exact hs.setItem hrun
  | rejectItem hrun => exact hs.rejectItem hrun
  | finishDict hrun => exact hs.finishDict hrun
  | openDict => exact hs.openDict
  | update ho hm hm' ht hrun => exact hs.replaceObject ho hm hm' ht hrun
  | swapDict hd hrun => exact hs.swapDict hd hrun
  | levels n => exact hs.levels n

/-! ## Interned strings stay -/

/-- What the table of interned strings has is never taken out. -/
lemma internedRef?_of_step (hs : h.Sound s) (hstep : Step h s h' s') {t : String}
    (ht : h.internedRef? t = some r) : h'.internedRef? t = some r := by
  have hsame : h'.interned = h.interned → h'.internedRef? t = some r :=
    fun hi => by rwa [internedRef?, hi]
  have hallocate : ∀ {o : Object} {q : Ref}, (allocate o).run h = .ok (.ok q) h' →
      h'.interned = h.interned := by
    intro o q hrun
    rcases allocate_inv hs.counted hrun with ⟨_, _, -, hp⟩ | ⟨_, he, -⟩
    · exact hp.interned
    · cases he
  cases hstep with
  | retain hrun => exact hsame (NothingNew.incRef hrun).interned
  | release hrun => exact hsame (NothingNew.drain hrun).interned
  | destroy he hlast hrun =>
    rw [releaseStorage_eq_decRef he hlast] at hrun
    exact hsame (NothingNew.drain hrun).interned
  | allocate ho hrun => exact hsame (hallocate hrun)
  | finishDict hrun => exact hsame (hallocate hrun)
  | refuse hrun =>
    rcases allocate_inv hs.counted hrun with ⟨_, _, hq, -⟩ | ⟨_, -, hdrop⟩
    · cases hq
    · exact hsame (NothingNew.decRefs hdrop).interned
  | @intern _ _ text outcome hrun =>
    obtain ⟨outcome', h₁, hrun', hi⟩ := intern_run hs.counted text
    cases hrun'.symm.trans hrun
    exact (hi.sound hs).2.1.interned t r ht
  | setItem hrun => exact hsame (hs.nothingNew_setItem hrun).interned
  | rejectItem hrun => exact hsame (hs.nothingNew_setItem hrun).interned
  | newDict => exact ht
  | openDict => exact ht
  | update ho hm hm' howned hrun =>
    obtain ⟨e, -, rfl⟩ := update_inv hrun
    exact ht
  | swapDict hd hrun =>
    obtain ⟨e, -, rfl⟩ := update_inv hrun
    exact ht
  | levels n => exact ht

end Heap

end NativeCall
