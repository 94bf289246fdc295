import Mathlib.Algebra.BigOperators.Group.Finset.Basic
import Mathlib.Algebra.Order.BigOperators.Group.Finset
import NativeCall.Proofs.Heap.Accounting
import NativeCall.Proofs.Heap.ExactCounts

/-!
# Freeing an object that is still referred to

`releaseStorage` frees an object whatever its count says, and then drops the references that it
held. The slot is empty from then on, and references to it may remain. Nobody touches them as long
as their holders live; but if the last reference to a holder goes with the cascade, the loop comes
to the reference and finds the slot empty.

Which objects go is a question about the references on the heap, and not about the order of the
loop: `Falls h r q` says that `q` goes if `r` is freed, because `r` is `q` or because all references
that are counted for `q` are held by objects that go. `Cascade` is what is true in every round of
the loop: what has been dropped so far is what the fallen objects held, less what is waiting, and
nothing has been dropped of the released object. So the loop stops if and only if an object that
falls refers to the released one (`Cascade.drain`), and where it ends, the fallen objects are those
that fall, and every other object has lost just the references that they held (`Collapsed`).

An object that refers to itself falls with itself. That is the smallest case in which a good
reference to a living object is not enough.

## Why the heap in the invariant is the old one

Once the slot is empty the heap is counted for nobody: there are references to nothing. So nothing
that is known of counted heaps can be used during the loop. `Cascade` speaks of the current heap
`h'` only by comparison with the heap `h` from before, which was counted: for each object that
stays, the count it has now and the references dropped from it make up the count it had. The
comparison takes three numbers, and `pending` is the one that changes in a round: a reference that
waits has been given up by its holder and not yet been taken off the count of its target.

For the released object the comparison would be false, since nothing is taken off the count of an
empty slot. That its references are waiting in full (`untouched`) is what makes the theorem an
equivalence: where the loop ends nothing is waiting, so no fallen object held any.

## The rounds

A round meets an immortal object (`skip`), a count above one (`decrement`), a last reference
(`fall`) or the released object (`stop`). Only `fall` changes what has fallen; there the argument
that the object falls in the sense of `Falls` is that its count ran down to the one reference that
was waiting, so that fallen objects held as many references to it as were ever counted.
-/

namespace NativeCall

/-- Bytes may be given back in one go. -/
lemma Tracker.credit_credit (t : Tracker) (m n : Nat) :
    (t.credit m).credit n = t.credit (n + m) := by
  cases t with
  | unlimited => rfl
  | limited meter => simp only [credit, Meter.credit, Nat.sub_sub, Nat.add_comm]

namespace Heap

/-! ## What falls -/

/-- The references that the objects `holders` hold. -/
def heldFrom (h : Heap) (holders : Finset Ref) : Multiset Ref :=
  ∑ p ∈ holders, heldBy (h.slot? p)

/-- If `r` is freed, `q` goes too: all references that are counted for it are held by objects that
go. -/
inductive Falls (h : Heap) (r : Ref) : Ref → Prop where
  | released : Falls h r r
  | last {q : Ref} {e : Entry} (holders : Finset Ref) (hfall : ∀ p ∈ holders, Falls h r p)
      (he : h.slot? q = some e) (hm : e.immortal = false)
      (hall : e.refs ≤ (h.heldFrom holders).count q) : Falls h r q

/-- What is left of a heap when the objects `fallen` have gone. -/
structure Collapsed (h : Heap) (fallen : List Ref) (h' : Heap) : Prop where
  empty : ∀ q ∈ fallen, h'.slot? q = none
  /-- A mortal object that stays has lost the references that the fallen ones held, each once. -/
  counts : ∀ q ∉ fallen, ∀ e, h.slot? q = some e → e.immortal = false →
    ∃ n, 0 < n ∧ n + (h.heldFrom fallen.toFinset).count q = e.refs ∧
      h'.slot? q = some { e with refs := n }
  /-- Nothing else changes in any slot. -/
  other : ∀ q ∉ fallen, (∀ e, h.slot? q = some e → e.immortal = true) → h'.slot? q = h.slot? q
  size : h'.slots.size = h.slots.size
  freeList : h'.freeList = fallen ++ h.freeList
  tracker : h'.tracker = h.tracker.credit (fallen.map (fun q => slotBytes (h.slot? q))).sum
  interned : h'.interned = h.interned
  levels : h'.levels = h.levels

section Holders

variable {h : Heap} {r q : Ref} {holders more : Finset Ref}

lemma heldFrom_insert (hq : q ∉ holders) :
    h.heldFrom (Insert.insert q holders) = heldBy (h.slot? q) + h.heldFrom holders :=
  Finset.sum_insert hq

lemma mem_heldFrom : q ∈ h.heldFrom holders ↔ ∃ p ∈ holders, q ∈ heldBy (h.slot? p) :=
  Multiset.mem_sum

lemma heldFrom_mono (hsub : holders ⊆ more) : h.heldFrom holders ≤ h.heldFrom more :=
  Finset.sum_le_sum_of_subset hsub

/-- Different objects hold different references. -/
lemma heldFrom_le_held (h : Heap) (holders : Finset Ref) : h.heldFrom holders ≤ h.held := by
  -- One holder after the other is taken off the heap, so that what is left of the sum is a sum over
  -- a heap without it.
  induction holders using Finset.induction_on generalizing h with
  | empty => exact Multiset.zero_le _
  | insert p holders hp ih =>
    have hsame : (h.setSlot p none).heldFrom holders = h.heldFrom holders := by
      refine Finset.sum_congr rfl (fun q hq => ?_)
      have hpq : p ≠ q := by
        rintro rfl
        exact hp hq
      rw [slot?_setSlot_of_ne none hpq]
    rw [heldFrom_insert hp]
    cases hs : h.slot? p with
    | none =>
      rw [heldBy_none, zero_add]
      exact ih h
    | some e =>
      have hheld := held_setSlot (lt_size_of_slot? hs) none hs
      rw [heldBy_none, add_zero] at hheld
      rw [← hsame, ← hheld, add_comm]
      exact add_le_add_left (ih (h.setSlot p none)) _

end Holders

/-! ## The loop -/

/-- A slot that is there and empty has been freed. -/
lemma demand_freed {h : Heap} {r : Ref} {op : HeapOp} (hs : h.slot? r = none)
    (hr : r.index < h.slots.size) : demand op r h = .error ⟨op, .freed⟩ h := by
  rw [slot?, Array.getElem?_eq_getElem hr] at hs
  rw [demand, Array.getElem?_eq_getElem hr, show h.slots[r.index] = none from hs]

lemma demand_missing {h : Heap} {r : Ref} {op : HeapOp} (hr : h.slots.size ≤ r.index) :
    demand op r h = .error ⟨op, .missing⟩ h := by
  rw [demand, Array.getElem?_eq_none hr]

/-- What is true in each round of the loop that frees `r` on the heap `h`: the objects `fallen` have
gone, the last one in front, the references `pending` are waiting, and the heap is `h'`. -/
structure Cascade (h : Heap) (r : Ref) (fallen pending : List Ref) (h' : Heap) : Prop where
  nodup : fallen.Nodup
  mem : r ∈ fallen
  lt_size : r.index < h'.slots.size
  falls : ∀ q ∈ fallen, Falls h r q
  empty : ∀ q ∈ fallen, h'.slot? q = none
  /-- What is waiting was held by objects that have gone. -/
  pending_le : ∀ q, pending.count q ≤ (h.heldFrom fallen.toFinset).count q
  /-- Nothing has been dropped of the released object. -/
  untouched : pending.count r = (h.heldFrom fallen.toFinset).count r
  /-- All references to the others that have gone have been dropped. -/
  gone : ∀ q ∈ fallen, q ≠ r → ∃ e, h.slot? q = some e ∧ e.immortal = false ∧
    (h.heldFrom fallen.toFinset).count q = e.refs + pending.count q
  counts : ∀ q ∉ fallen, ∀ e, h.slot? q = some e → e.immortal = false →
    ∃ n, 0 < n ∧ n + (h.heldFrom fallen.toFinset).count q = e.refs + pending.count q ∧
      h'.slot? q = some { e with refs := n }
  other : ∀ q ∉ fallen, (∀ e, h.slot? q = some e → e.immortal = true) → h'.slot? q = h.slot? q
  size : h'.slots.size = h.slots.size
  freeList : h'.freeList = fallen ++ h.freeList
  tracker : h'.tracker = h.tracker.credit (fallen.map (fun q => slotBytes (h.slot? q))).sum
  interned : h'.interned = h.interned
  levels : h'.levels = h.levels

namespace Cascade

variable {h h' : Heap} {owned : Multiset Ref} {r c : Ref} {e : Entry} {fallen pending : List Ref}

lemma start (hc : h.Counted owned) (he : h.slot? r = some e) :
    Cascade h r [r] e.object.children.reverse (h.vacate r e.object) := by
  have hslot := slot?_vacate e.object (lt_size_of_slot? he)
  have hheld : h.heldFrom [r].toFinset = ↑e.object.children := by
    simp [heldFrom, he]
  have hcount : ∀ q, e.object.children.reverse.count q = (h.heldFrom [r].toFinset).count q := by
    intro q
    rw [hheld, Multiset.coe_count, List.count_reverse]
  have hother : ∀ q, q ∉ [r] → (h.vacate r e.object).slot? q = h.slot? q := by
    intro q hq
    rw [hslot, Function.update_of_ne (mt List.mem_singleton.mpr hq)]
  have hlt : r.index < (h.vacate r e.object).slots.size := by
    rw [vacate, Array.size_setIfInBounds]
    exact lt_size_of_slot? he
  refine ⟨List.nodup_singleton r, List.mem_singleton_self r, hlt, ?_, ?_, fun q => (hcount q).le,
    hcount r, ?_, ?_, fun q hq _ => hother q hq, Array.size_setIfInBounds, rfl, ?_, rfl, rfl⟩
  · intro q hq
    rw [List.mem_singleton.mp hq]
    exact .released
  · intro q hq
    rw [List.mem_singleton.mp hq, hslot, Function.update_self]
  · intro q hq hqr
    exact absurd (List.mem_singleton.mp hq) hqr
  · intro q hq f hf hfm
    refine ⟨f.refs, (hc.refs q f hf hfm).1, ?_, ?_⟩
    · rw [← hcount q]
    · rw [hother q hq, hf]
  · simp [vacate, he, slotBytes]

/-- The reference that waits in front is one to an object, and this has not gone, unless it is the
released one. -/
lemma waiting (hcas : Cascade h r fallen (c :: pending) h') (hc : h.Counted owned) (hcr : c ≠ r) :
    c ∉ fallen ∧ ∃ e, h.slot? c = some e := by
  have hwaits : 0 < (c :: pending).count c := List.count_pos_iff.mpr List.mem_cons_self
  -- A reference that waits is one that the old heap held, and one that a fallen object held. If its
  -- target had fallen as well, more references to it would be held than it counted.
  have hle := hcas.pending_le c
  have hheld : (h.heldFrom fallen.toFinset).count c ≤ h.held.count c :=
    Multiset.count_le_of_le c (heldFrom_le_held h fallen.toFinset)
  constructor
  · intro hgone
    obtain ⟨e, he, hm, hcount⟩ := hcas.gone c hgone hcr
    obtain ⟨-, hrefs⟩ := hc.refs c e he hm
    rw [Multiset.count_add] at hrefs
    omega
  · have hmem : c ∈ owned + h.held :=
      Multiset.mem_add.mpr (.inr (Multiset.count_pos.mp (by omega)))
    exact Option.ne_none_iff_exists'.mp (hc.live c hmem)

/-- The loop comes to an immortal object. -/
lemma skip (hcas : Cascade h r fallen (c :: pending) h') (hcr : c ≠ r) (he : h.slot? c = some e)
    (hi : e.immortal = true) : Cascade h r fallen pending h' := by
  have hother : ∀ q f, h.slot? q = some f → f.immortal = false → c ≠ q := by
    rintro q f hf hfm rfl
    cases he.symm.trans hf
    rw [hi] at hfm
    cases hfm
  refine { hcas with pending_le := fun q => ?_, untouched := ?_, gone := ?_, counts := ?_ }
  · exact (List.count_le_count_cons).trans (hcas.pending_le q)
  · rw [← hcas.untouched, List.count_cons_of_ne hcr]
  · intro q hq hqr
    obtain ⟨f, hf, hfm, hcount⟩ := hcas.gone q hq hqr
    rw [List.count_cons_of_ne (hother q f hf hfm)] at hcount
    exact ⟨f, hf, hfm, hcount⟩
  · intro q hq f hf hfm
    obtain ⟨n, hn, hcount, hslot⟩ := hcas.counts q hq f hf hfm
    rw [List.count_cons_of_ne (hother q f hf hfm)] at hcount
    exact ⟨n, hn, hcount, hslot⟩

/-- The loop drops a reference that is not the last one. -/
lemma decrement (hcas : Cascade h r fallen (c :: pending) h') (hcr : c ≠ r) (hfallen : c ∉ fallen)
    (he : h.slot? c = some e) (hm : e.immortal = false) {n : Nat}
    (hs : h'.slot? c = some { e with refs := n + 1 }) (hn : 0 < n) :
    Cascade h r fallen pending (h'.setSlot c (some { e with refs := n })) := by
  have hslot := slot?_setSlot (some { e with refs := n }) (lt_size_of_slot? hs)
  have hother : ∀ q, q ≠ c → (h'.setSlot c (some { e with refs := n })).slot? q = h'.slot? q := by
    intro q hq
    rw [hslot, Function.update_of_ne hq]
  have hne : ∀ q ∈ fallen, q ≠ c := by
    rintro q hq rfl
    exact hfallen hq
  refine { hcas with
    empty := fun q hq => (hother q (hne q hq)).trans (hcas.empty q hq)
    pending_le := fun q => (List.count_le_count_cons).trans (hcas.pending_le q)
    untouched := ?_, gone := ?_, counts := ?_, other := ?_
    lt_size := by
      rw [setSlot, Array.size_setIfInBounds]
      exact hcas.lt_size
    size := Array.size_setIfInBounds.trans hcas.size }
  · rw [← hcas.untouched, List.count_cons_of_ne hcr]
  · intro q hq hqr
    obtain ⟨f, hf, hfm, hcount⟩ := hcas.gone q hq hqr
    rw [List.count_cons_of_ne (hne q hq).symm] at hcount
    exact ⟨f, hf, hfm, hcount⟩
  · intro q hq f hf hfm
    obtain ⟨k, hk, hcount, hslot'⟩ := hcas.counts q hq f hf hfm
    by_cases hqc : q = c
    · subst hqc
      obtain rfl := Option.some.inj (he.symm.trans hf)
      rw [hs] at hslot'
      obtain rfl : n + 1 = k := congrArg Entry.refs (Option.some.inj hslot')
      rw [List.count_cons_self] at hcount
      exact ⟨n, hn, by omega, by rw [hslot, Function.update_self]⟩
    · rw [List.count_cons_of_ne (Ne.symm hqc)] at hcount
      exact ⟨k, hk, hcount, (hother q hqc).trans hslot'⟩
  · intro q hq hi
    have hqc : q ≠ c := by
      rintro rfl
      rw [hi e he] at hm
      cases hm
    exact (hother q hqc).trans (hcas.other q hq hi)

/-- The loop drops the last reference to an object, which falls. -/
lemma fall (hcas : Cascade h r fallen (c :: pending) h') (hcr : c ≠ r) (hfallen : c ∉ fallen)
    (he : h.slot? c = some e) (hm : e.immortal = false)
    (hs : h'.slot? c = some { e with refs := 1 }) :
    Cascade h r (c :: fallen) (e.object.children.reverse ++ pending) (h'.vacate c e.object) := by
  have hslot := slot?_vacate e.object (lt_size_of_slot? hs)
  have hother : ∀ q, q ≠ c → (h'.vacate c e.object).slot? q = h'.slot? q := by
    intro q hq
    rw [hslot, Function.update_of_ne hq]
  have hne : ∀ q ∈ fallen, q ≠ c := by
    rintro q hq rfl
    exact hfallen hq
  -- What the object held is added to what the fallen ones held, and waits.
  have hheld : ∀ q, (h.heldFrom (c :: fallen).toFinset).count q =
      e.object.children.count q + (h.heldFrom fallen.toFinset).count q := by
    intro q
    have hnot : c ∉ fallen.toFinset := fun hmem => hfallen (List.mem_toFinset.mp hmem)
    rw [List.toFinset_cons, heldFrom_insert hnot, he, heldBy_some, Multiset.count_add,
      Multiset.coe_count]
  have hwaits : ∀ q, (e.object.children.reverse ++ pending).count q =
      e.object.children.count q + pending.count q := by
    intro q
    rw [List.count_append, List.count_reverse]
  -- The last reference to the object was dropped, so all of them were held by fallen ones.
  obtain ⟨k, -, hdropped, hslot'⟩ := hcas.counts c hfallen e he hm
  rw [hs] at hslot'
  obtain rfl : 1 = k := congrArg Entry.refs (Option.some.inj hslot')
  rw [List.count_cons_self] at hdropped
  have hfalls : Falls h r c :=
    .last fallen.toFinset (fun p hp => hcas.falls p (List.mem_toFinset.mp hp)) he hm (by omega)
  have hlt : r.index < (h'.vacate c e.object).slots.size := by
    rw [vacate, Array.size_setIfInBounds]
    exact hcas.lt_size
  refine ⟨List.nodup_cons.mpr ⟨hfallen, hcas.nodup⟩, List.mem_cons_of_mem c hcas.mem, hlt, ?_, ?_,
    fun q => ?_, ?_, ?_, ?_, ?_, Array.size_setIfInBounds.trans hcas.size, ?_, ?_, hcas.interned,
    hcas.levels⟩
  · exact List.forall_mem_cons.mpr ⟨hfalls, hcas.falls⟩
  · refine List.forall_mem_cons.mpr ⟨?_, fun q hq => (hother q (hne q hq)).trans (hcas.empty q hq)⟩
    rw [hslot, Function.update_self]
  · rw [hheld, hwaits]
    exact Nat.add_le_add_left ((List.count_le_count_cons).trans (hcas.pending_le q)) _
  · rw [hheld, hwaits, ← hcas.untouched, List.count_cons_of_ne hcr]
  · intro q hq hqr
    rw [hheld, hwaits]
    rcases List.mem_cons.mp hq with rfl | hq
    · exact ⟨e, he, hm, by omega⟩
    · obtain ⟨f, hf, hfm, hcount⟩ := hcas.gone q hq hqr
      rw [List.count_cons_of_ne (hne q hq).symm] at hcount
      exact ⟨f, hf, hfm, by omega⟩
  · intro q hq f hf hfm
    obtain ⟨hqc, hq⟩ := not_or.mp (mt List.mem_cons.mpr hq)
    obtain ⟨n, hn, hcount, hslot'⟩ := hcas.counts q hq f hf hfm
    rw [List.count_cons_of_ne (Ne.symm hqc)] at hcount
    rw [hheld, hwaits]
    exact ⟨n, hn, by omega, (hother q hqc).trans hslot'⟩
  · intro q hq hi
    obtain ⟨hqc, hq⟩ := not_or.mp (mt List.mem_cons.mpr hq)
    exact (hother q hqc).trans (hcas.other q hq hi)
  · show c :: h'.freeList = _
    rw [hcas.freeList, List.cons_append]
  · show h'.tracker.credit _ = _
    rw [hcas.tracker, Tracker.credit_credit, List.map_cons, List.sum_cons, he]
    rfl

/-- The loop comes to a reference to the released object: one that has gone held it. -/
lemma stop (hcas : Cascade h r fallen (r :: pending) h') :
    dropReference r h' = .error ⟨.decRef, .freed⟩ h' ∧
      ∃ q, Falls h r q ∧ r ∈ heldBy (h.slot? q) := by
  constructor
  · have hdemand : demand .decRef r h' = .error ⟨.decRef, .freed⟩ h' :=
      demand_freed (hcas.empty r hcas.mem) hcas.lt_size
    exact bind_stopped hdemand
  · have hle := hcas.pending_le r
    rw [List.count_cons_self] at hle
    have hpos : 0 < (h.heldFrom fallen.toFinset).count r := Nat.lt_of_lt_of_le (Nat.succ_pos _) hle
    obtain ⟨q, hq, hheld⟩ := mem_heldFrom.mp (Multiset.count_pos.mp hpos)
    exact ⟨q, hcas.falls q (List.mem_toFinset.mp hq), hheld⟩

/-- One round of the loop that does not come to the released object. -/
lemma round (hcas : Cascade h r fallen (c :: pending) h') (hc : h.Counted owned) (hcr : c ≠ r) :
    ∃ o h'' fallen', dropReference c h' = .ok o h'' ∧
      Cascade h r fallen' ((released o).reverse ++ pending) h'' := by
  obtain ⟨hfallen, e, he⟩ := hcas.waiting hc hcr
  by_cases hi : e.immortal = true
  · have hs : h'.slot? c = some e := by
      rw [hcas.other c hfallen (fun f hf => by rwa [← Option.some.inj (he.symm.trans hf)]), he]
    refine ⟨none, h', fallen, ?_, hcas.skip hcr he hi⟩
    rw [dropReference_eq hs, if_pos hi]
  have hm := Bool.eq_false_iff.mpr hi
  obtain ⟨n, hn, -, hs⟩ := hcas.counts c hfallen e he hm
  have hdrop := dropReference_eq hs
  rw [if_neg hi] at hdrop
  by_cases h1 : 1 < n
  · obtain ⟨n, rfl⟩ : ∃ k, n = k + 1 := ⟨n - 1, by omega⟩
    rw [if_pos h1] at hdrop
    have hpos : 0 < n := by omega
    exact ⟨none, _, fallen, hdrop, hcas.decrement hcr hfallen he hm hs hpos⟩
  · obtain rfl : n = 1 := by omega
    rw [if_neg h1] at hdrop
    exact ⟨some e.object, _, c :: fallen, hdrop, hcas.fall hcr hfallen he hm hs⟩

/-- The loop ends, or it stops at a reference that an object that falls holds. -/
lemma drain (hcas : Cascade h r fallen pending h') (hc : h.Counted owned) :
    (∃ h'' fallen', Heap.drain pending h' = .ok () h'' ∧ Cascade h r fallen' [] h'') ∨
      ∃ h'', Heap.drain pending h' = .error ⟨.decRef, .freed⟩ h'' ∧
        ∃ q, Falls h r q ∧ r ∈ heldBy (h.slot? q) := by
  -- In a round that goes well the reference is not to the released object, since the loop stops
  -- there.
  have hround : ∀ {h' h₁ : Heap} {fallen : List Ref} {c : Ref} {o : Option Object}
      {rest : List Ref}, Cascade h r fallen (c :: rest) h' → Heap.dropReference c h' = .ok o h₁ →
      ∃ fallen', Cascade h r fallen' ((released o).reverse ++ rest) h₁ := by
    intro h' h₁ fallen c o rest hcas hd
    have hcr : c ≠ r := by
      rintro rfl
      cases hcas.stop.1.symm.trans hd
    obtain ⟨o', h₂, fallen', hd', hcas'⟩ := hcas.round hc hcr
    cases hd'.symm.trans hd
    exact ⟨fallen', hcas'⟩
  induction pending, h' using Heap.drain.induct generalizing fallen with
  | case1 h' => exact .inl ⟨h', fallen, by rw [Heap.drain], hcas⟩
  | case2 h' c rest m h₁ hd =>
    by_cases hcr : c = r
    · subst hcr
      obtain ⟨hstop, hheld⟩ := hcas.stop
      exact .inr ⟨h', drain_stopped hstop rest, hheld⟩
    · obtain ⟨o, h₂, fallen', hd', -⟩ := hcas.round hc hcr
      cases hd.symm.trans hd'
  | case3 h' c rest h₁ hd ih =>
    obtain ⟨fallen', hcas'⟩ := hround hcas hd
    rw [drain_cons hd rest]
    exact ih hcas'
  | case4 h' c rest o h₁ hd ih =>
    obtain ⟨fallen', hcas'⟩ := hround hcas hd
    rw [drain_cons hd rest]
    exact ih hcas'

/-! ## The end of the loop -/

/-- Where the loop ends, all that falls has gone. -/
lemma mem_of_falls (hcas : Cascade h r fallen [] h') {q : Ref} (hq : Falls h r q) :
    q ∈ fallen := by
  -- The objects that fall do so in the order of the derivation, and the loop may have met them in
  -- another one. So the induction is not on the rounds: an object that stayed would count as many
  -- references as its holders, which have gone, have dropped.
  induction hq with
  | released => exact hcas.mem
  | @last q e holders hfall he hm hall ih =>
    by_contra hstays
    obtain ⟨n, hn, hcount, -⟩ := hcas.counts q hstays e he hm
    have hsub : holders ⊆ fallen.toFinset := fun p hp => List.mem_toFinset.mpr (ih p hp)
    have hle := Multiset.count_le_of_le q (heldFrom_mono (h := h) hsub)
    rw [List.count_nil] at hcount
    omega

lemma mem_fallen (hcas : Cascade h r fallen [] h') (q : Ref) : q ∈ fallen ↔ Falls h r q :=
  ⟨hcas.falls q, hcas.mem_of_falls⟩

/-- Where the loop ends, nothing that fell held the released object. -/
lemma not_held (hcas : Cascade h r fallen [] h') {q : Ref} (hq : Falls h r q) :
    r ∉ heldBy (h.slot? q) := by
  have hnone := hcas.untouched
  rw [List.count_nil, eq_comm, Multiset.count_eq_zero] at hnone
  exact fun hr => hnone (mem_heldFrom.mpr ⟨q, List.mem_toFinset.mpr (hcas.mem_of_falls hq), hr⟩)

lemma collapsed (hcas : Cascade h r fallen [] h') : Collapsed h fallen h' :=
  ⟨hcas.empty, hcas.counts, hcas.other, hcas.size, hcas.freeList, hcas.tracker, hcas.interned,
    hcas.levels⟩

end Cascade

/-! ## Freeing -/

section Freeing

variable {h : Heap} {owned : Multiset Ref} {r : Ref} {e : Entry}

lemma releaseStorage_immortal (he : h.slot? r = some e) (hi : e.immortal = true) :
    releaseStorage r h = .ok () h := by
  rw [releaseStorage, bind_ok (demand_of_slot? he), if_pos hi]
  rfl

lemma releaseStorage_mortal (he : h.slot? r = some e) (hm : e.immortal = false) :
    releaseStorage r h = Heap.drain e.object.children.reverse (h.vacate r e.object) := by
  rw [releaseStorage, bind_ok (demand_of_slot? he), if_neg (Bool.eq_false_iff.mp hm)]
  rfl

/-- A living mortal object whose counts are right is freed, or the loop stops at an object that
falls with it. -/
lemma releaseStorage_cases (hc : h.Counted owned) (he : h.slot? r = some e)
    (hm : e.immortal = false) :
    (∃ h' fallen, releaseStorage r h = .ok () h' ∧ fallen.Nodup ∧
        (∀ q, q ∈ fallen ↔ Falls h r q) ∧ (∀ q, Falls h r q → r ∉ heldBy (h.slot? q)) ∧
        Collapsed h fallen h') ∨
      ∃ h', releaseStorage r h = .error ⟨.decRef, .freed⟩ h' ∧
        ∃ q, Falls h r q ∧ r ∈ heldBy (h.slot? q) := by
  rw [releaseStorage_mortal he hm]
  rcases (Cascade.start hc he).drain hc with ⟨h', fallen, hd, hcas⟩ | hstop
  · exact .inl ⟨h', fallen, hd, hcas.nodup, hcas.mem_fallen, fun q hq => hcas.not_held hq,
      hcas.collapsed⟩
  · exact .inr hstop

end Freeing

/-! ## Freeing what is still referred to -/

/-- **Freeing stops just where what falls refers back.** Let the counts of a heap be right, whoever
owns what. Freeing what a reference denotes

* is a misuse if there is no such slot or the slot is empty, and does nothing if the object is
  immortal;
* empties the slot of a living mortal object, whatever its count, and drops each of the references
  that it held once, if no object that falls with it refers to it: just the objects that fall are
  gone, and every other object has lost just the references that these held;
* stops at a slot that it has emptied itself if an object that falls refers to the released one, and
  the released one counts among these. -/
theorem releaseStorage_falls (hc : h.Counted owned) (r : Ref) :
    (h.slot? r = none → releaseStorage r h =
      .error ⟨.releaseStorage, if r.index < h.slots.size then .freed else .missing⟩ h) ∧
    (∀ e, h.slot? r = some e → e.immortal = true → releaseStorage r h = .ok () h) ∧
    (∀ e, h.slot? r = some e → e.immortal = false →
      ((∀ q, Falls h r q → r ∉ heldBy (h.slot? q)) →
        ∃ h' fallen, releaseStorage r h = .ok () h' ∧ fallen.Nodup ∧
          (∀ q, q ∈ fallen ↔ Falls h r q) ∧ Collapsed h fallen h') ∧
      ((∃ q, Falls h r q ∧ r ∈ heldBy (h.slot? q)) →
        ∃ h', releaseStorage r h = .error ⟨.decRef, .freed⟩ h')) := by
  refine ⟨fun hs => ?_, fun e he hi => releaseStorage_immortal he hi, fun e he hm => ?_⟩
  · by_cases hr : r.index < h.slots.size
    · rw [if_pos hr]
      exact bind_stopped (demand_freed hs hr)
    · rw [if_neg hr]
      exact bind_stopped (demand_missing (Nat.le_of_not_lt hr))
  · rcases releaseStorage_cases hc he hm with
      ⟨h', fallen, hrun, hnodup, hmem, hnot, hcollapsed⟩ | ⟨h', hrun, q, hq, hheld⟩
    · exact ⟨fun _ => ⟨h', fallen, hrun, hnodup, hmem, hcollapsed⟩,
        fun ⟨q, hq, hheld⟩ => absurd hheld (hnot q hq)⟩
    · exact ⟨fun hnot => absurd hheld (hnot q hq), fun _ => ⟨h', hrun⟩⟩

/-- A list is freed that a tuple still refers to. A number in it stays, with the one reference that
is owned; a pair in it falls. -/
theorem releaseStorage_falls_shared :
    let h := freshWith .unlimited [⟨2, false, .list ⟨[⟨5⟩, ⟨5⟩, ⟨6⟩], 4⟩⟩, ⟨4, false, .int 5⟩,
      ⟨1, false, .tuple [⟨5⟩]⟩, ⟨1, false, .tuple [⟨4⟩]⟩]
    h.Counted {⟨4⟩, ⟨5⟩, ⟨7⟩} ∧ (∀ q, Falls h ⟨4⟩ q → ⟨4⟩ ∉ heldBy (h.slot? q)) ∧
      ∃ h' fallen, releaseStorage ⟨4⟩ h = .ok () h' ∧ (∀ q, q ∈ fallen ↔ Falls h ⟨4⟩ q) ∧
        Collapsed h fallen h' ∧ h'.freeList = [⟨6⟩, ⟨4⟩] ∧
        h'.slot? ⟨5⟩ = some ⟨1, false, .int 5⟩ := by
  intro h
  have hc : h.Counted {⟨4⟩, ⟨5⟩, ⟨7⟩} := counted_freshWith (by decide +kernel) (by decide +kernel)
  have hnot : ∀ q, Falls h ⟨4⟩ q → ⟨4⟩ ∉ heldBy (h.slot? q) := by
    rintro ⟨i⟩ hfalls hheld
    have hlt : i < 8 := by
      cases hs : h.slot? ⟨i⟩ with
      | none =>
        rw [hs] at hheld
        exact absurd hheld (Multiset.notMem_zero _)
      | some e => exact lt_size_of_slot? hs
    by_cases hi : i = 7
    · subst hi
      cases hfalls with
      | last holders _ he _ hall =>
        cases he
        have hheld : 1 ≤ (h.heldFrom holders).count ⟨7⟩ := hall
        have hle := Multiset.count_le_of_le ⟨7⟩ (heldFrom_le_held h holders)
        have hnone : h.held.count ⟨7⟩ = 0 := by decide +kernel
        omega
    · have hother : ∀ i < 8, i ≠ 7 → (⟨4⟩ : Ref) ∉ heldBy (h.slot? ⟨i⟩) := by decide +kernel
      exact hother i hlt hi hheld
  obtain ⟨-, -, hfree⟩ := releaseStorage_falls hc ⟨4⟩
  obtain ⟨h', fallen, hrun, -, hmem, hcollapsed⟩ := (hfree _ rfl rfl).1 hnot
  have hafter : (after (releaseStorage ⟨4⟩) h).freeList = [⟨6⟩, ⟨4⟩] ∧
      (after (releaseStorage ⟨4⟩) h).slot? ⟨5⟩ = some ⟨1, false, .int 5⟩ := by decide +kernel
  rw [after_ok hrun] at hafter
  exact ⟨hc, hnot, h', fallen, hrun, hmem, hcollapsed, hafter⟩

/-- A list that refers to itself is alive, owned and counted right, and freeing it stops. -/
theorem releaseStorage_stops_at_itself :
    let h := freshWith .unlimited [⟨2, false, .list ⟨[⟨4⟩], 4⟩⟩]
    h.Counted {⟨4⟩} ∧ h.slot? ⟨4⟩ = some ⟨2, false, .list ⟨[⟨4⟩], 4⟩⟩ ∧
      ∃ h', releaseStorage ⟨4⟩ h = .error ⟨.decRef, .freed⟩ h' := by
  intro h
  have hslot : h.slot? ⟨4⟩ = some ⟨2, false, .list ⟨[⟨4⟩], 4⟩⟩ := rfl
  have hstop : dropReference ⟨4⟩ (h.vacate ⟨4⟩ (.list ⟨[⟨4⟩], 4⟩)) =
      .error ⟨.decRef, .freed⟩ (h.vacate ⟨4⟩ (.list ⟨[⟨4⟩], 4⟩)) := rfl
  refine ⟨counted_freshWith (by decide +kernel) (by decide +kernel), hslot,
    h.vacate ⟨4⟩ (.list ⟨[⟨4⟩], 4⟩), ?_⟩
  rw [releaseStorage_mortal hslot rfl]
  exact drain_stopped hstop []

end Heap

end NativeCall
