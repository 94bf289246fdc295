import Mathlib.Order.WellFounded
import NativeCall.Proofs.Heap.StoredKeys

/-!
# Places in nested objects

An object that holds others is the root of a tree whose nodes are the places where objects stand in
it: the object itself, what it holds, what that holds, and so on. A place is written as the path
that leads to it, which picks one part after the other by its index. One object may stand at many
places, and if it holds itself, at infinitely many.

Nothing has to be computed to speak of a place: `follow` reads a path off the heap. The length of
the path is how deep the place is, and a walk from left to right that enters an object before its
parts comes to the places in the lexicographic order of their paths.

Where no path leads from an object back to it, going to a part is well-founded
(`inner_wellFounded`).

What counts as a part is a parameter of `follow`. The search for a key goes through the items of
tuples and through nothing else, so a tuple in a list that is in that tuple is no cycle for it;
rendering goes through all that an object holds. Both are walks over the same heap with different
trees, and `itemsAt` and `partsAt` are the two.

The last section is for heaps that are written down: if references point to earlier slots only, no
object is inside itself, and that can be decided slot by slot.
-/

namespace NativeCall.Heap

/-- The object to which a path leads: each number picks one of the parts. -/
def follow (parts : Ref → List Ref) : Ref → List Nat → Option Ref
  | r, [] => some r
  | r, i :: p => (parts r)[i]?.bind (fun q => follow parts q p)

/-- The items of a tuple; any other object has none. -/
def itemsAt (objects : Ref → Option Object) (r : Ref) : List Ref :=
  ((objects r).bind Object.tupleItems?).getD []

/-- All that an object holds. -/
def partsAt (objects : Ref → Option Object) (r : Ref) : List Ref :=
  ((objects r).map Object.children).getD []

variable {parts : Ref → List Ref} {objects : Ref → Option Object} {h : Heap} {r q : Ref}
  {o : Object} {items : List Ref} {p p' : List Nat} {i : Nat}

@[simp] lemma follow_nil : follow parts r [] = some r := rfl

lemma follow_cons : follow parts r (i :: p) = (parts r)[i]?.bind (fun q => follow parts q p) := rfl

lemma follow_append : follow parts r (p ++ p') = (follow parts r p).bind (follow parts · p') := by
  induction p generalizing r with
  | nil => rfl
  | cons i p ih =>
    rw [List.cons_append, follow_cons, follow_cons]
    cases (parts r)[i]? with
    | none => rfl
    | some q => exact ih

lemma itemsAt_tuple (ho : objects r = some (.tuple items)) : itemsAt objects r = items := by
  simp [itemsAt, ho, Object.tupleItems?]

lemma itemsAt_of_not_tuple (ho : objects r = some o) (ht : ∀ items, o ≠ .tuple items) :
    itemsAt objects r = [] := by
  cases o with
  | tuple items => exact absurd rfl (ht items)
  | _ => simp [itemsAt, ho, Object.tupleItems?]

lemma partsAt_eq (ho : objects r = some o) : partsAt objects r = o.children := by
  simp [partsAt, ho]

/-- Items of a tuple are parts. -/
lemma mem_partsAt (hq : q ∈ itemsAt objects r) : q ∈ partsAt objects r := by
  cases ho : objects r with
  | none => simp [itemsAt, ho] at hq
  | some o =>
    cases o with
    | tuple items =>
      rw [itemsAt_tuple ho] at hq
      rwa [partsAt_eq ho]
    | _ => simp [itemsAt, ho, Object.tupleItems?] at hq

/-! ## Objects that are not inside themselves -/

/-- No path but the empty one leads from an object back to it. -/
def Acyclic (parts : Ref → List Ref) : Prop :=
  ∀ r p, follow parts r p = some r → p = []

/-- One slot stands inside another. -/
def Inner (h : Heap) (parts : Ref → List Ref) (i j : Fin h.slots.size) : Prop :=
  ∃ p, p ≠ [] ∧ follow parts ⟨j⟩ p = some ⟨i⟩

lemma inner_wellFounded (ha : Acyclic parts) : WellFounded (Inner h parts) := by
  have htrans : IsTrans (Fin h.slots.size) (Inner h parts) := by
    refine ⟨?_⟩
    rintro i j k ⟨p, -, hp⟩ ⟨p', hne, hp'⟩
    refine ⟨p' ++ p, List.append_ne_nil_of_left_ne_nil hne p, ?_⟩
    rw [follow_append, hp']
    exact hp
  have hirrefl : Std.Irrefl (Inner h parts) := by
    refine ⟨?_⟩
    rintro i ⟨p, hne, hp⟩
    exact hne (ha _ p hp)
  exact Finite.wellFounded_of_trans_of_irrefl _

/-- To show something of every object, it is enough to show it of an object whose parts are known
to have it. -/
lemma inside_out {P : Ref → Prop} (ha : Acyclic parts)
    (hstep : ∀ r, (∃ o, h.object? r = some o) →
      (∀ q ∈ parts r, (∃ o, h.object? q = some o) → P q) → P r)
    (hr : ∃ o, h.object? r = some o) : P r := by
  have hall : ∀ i : Fin h.slots.size, (∃ o, h.object? ⟨i⟩ = some o) → P ⟨i⟩ := by
    intro i
    -- A live object is in a slot, and there are finitely many slots; so the induction is on these.
    induction i using (inner_wellFounded (h := h) ha).induction with
    | _ i ih =>
      intro hlive
      refine hstep _ hlive (fun q hq hqlive => ?_)
      obtain ⟨n, hn⟩ := List.getElem?_of_mem hq
      obtain ⟨o, ho⟩ := hqlive
      obtain ⟨e, he, -⟩ := object?_eq_some.mp ho
      refine ih ⟨q.index, lt_size_of_slot? he⟩ ⟨[n], List.cons_ne_nil n [], ?_⟩ ⟨o, ho⟩
      rw [follow_cons, hn]
      rfl
  obtain ⟨o, ho⟩ := hr
  obtain ⟨e, he, -⟩ := object?_eq_some.mp ho
  exact hall ⟨r.index, lt_size_of_slot? he⟩ ⟨o, ho⟩

/-! ## Heaps on which references point back -/

section Descending

variable (hdown : ∀ i < h.slots.size, ∀ q ∈ partsAt h.object? ⟨i⟩, q.index < i)

include hdown

lemma index_lt_of_mem_partsAt (hq : q ∈ partsAt h.object? r) : q.index < r.index := by
  cases ho : h.object? r with
  | none => simp [partsAt, ho] at hq
  | some o =>
    obtain ⟨e, he, -⟩ := object?_eq_some.mp ho
    exact hdown r.index (lt_size_of_slot? he) q hq

/-- If every object holds only objects in slots before its own, none is inside itself. -/
lemma acyclic_of_descending : Acyclic (itemsAt h.object?) := by
  -- Every number of a path leads at least one slot down.
  have hbelow : ∀ p r q, follow (itemsAt h.object?) r p = some q →
      q.index + p.length ≤ r.index := by
    intro p
    induction p with
    | nil =>
      intro r q hq
      obtain rfl := Option.some.inj hq
      simp
    | cons i p ih =>
      intro r q hq
      rw [follow_cons, Option.bind_eq_some_iff] at hq
      obtain ⟨c, hc, hq⟩ := hq
      have hstep := index_lt_of_mem_partsAt hdown (mem_partsAt (List.mem_of_getElem? hc))
      have hrest := ih c q hq
      simp only [List.length_cons]
      omega
  intro r p hp
  have hlength := hbelow p r r hp
  exact List.eq_nil_of_length_eq_zero (by omega)

lemma closed_of_descending (hfull : ∀ i < h.slots.size, (h.object? ⟨i⟩).isSome) : Closed h := by
  intro r o ho q hq
  obtain ⟨e, he, -⟩ := object?_eq_some.mp ho
  have hr := lt_size_of_slot? he
  rw [← partsAt_eq ho] at hq
  have hindex := index_lt_of_mem_partsAt hdown hq
  exact Option.isSome_iff_exists.mp (hfull q.index (by omega))

end Descending

end NativeCall.Heap
