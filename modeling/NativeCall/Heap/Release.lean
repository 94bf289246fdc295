import NativeCall.Heap.Basic

/-!
# Releasing references

Dropping the last reference to an object empties its slot and drops the references that the object
held, which may free further objects. The references that are still to be dropped wait on a stack,
so the depth of the data costs no depth of calls: `drain` takes the topmost one until none is left.

A slot is empty before the references that its object held are looked at. An object that holds
itself is therefore met as an empty slot if it is freed whatever its count says (`releaseStorage`).
Where the counts are right `decRef` does not come to that: the reference that such an object holds
is one of those that are counted, so its count never falls to nothing.

The loop ends because each round takes one waiting reference off and pushes the children of an
object only by removing that object from the heap. So the waiting references and the references held
on the heap (`heldRefs`) together become fewer in every round (`heldRefs_dropReference`). The
argument does not ask whether the counts are right, and `drain` runs on any heap.
-/

namespace NativeCall.Heap

/-- The references held by the object in a slot. -/
def slotRefs : Option Entry → Nat
  | some e => e.object.children.length
  | none => 0

/-- The references held by all objects of a heap. -/
def heldRefs (h : Heap) : Nat :=
  (h.slots.toList.map slotRefs).foldr (· + ·) 0

/-- Empties a slot: the free list gets it and the tracker gets its bytes back. -/
def vacate (h : Heap) (r : Ref) (o : Object) : Heap :=
  { h with
    slots := h.slots.setIfInBounds r.index none
    freeList := r :: h.freeList
    tracker := h.tracker.credit o.size }

/-- Drops one reference. The last one frees the object, which is then handed to the caller: the
references that it held are still to be dropped. -/
def dropReference (r : Ref) : HeapM (Option Object) := do
  let e ← demand .decRef r
  if e.immortal then
    return none
  -- A count of 0 is no better than a count of 1: the object goes.
  else if 1 < e.refs then
    modify (·.setSlot r (some { e with refs := e.refs - 1 }))
    return none
  else
    modify (·.vacate r e.object)
    return some e.object

/-! ## Why the loop ends -/

section Sums

variable {α M : Type} [Add M] [Zero M] [Std.Associative (α := M) (· + ·)]
  [Std.Commutative (α := M) (· + ·)]

/-- Exchanging one element exchanges its part in a sum. -/
theorem sum_map_set (f : α → M) (l : List α) (i : Nat) (a b : α) (h : l[i]? = some a) :
    ((l.set i b).map f).sum + f a = (l.map f).sum + f b := by
  induction l generalizing i with
  | nil => simp at h
  | cons x xs ih =>
    cases i with
    | zero =>
      obtain rfl : x = a := by simpa using h
      simp only [List.set_cons_zero, List.map_cons, List.sum_cons]
      ac_rfl
    | succ i =>
      have hrest := ih i (by simpa using h)
      simp only [List.set_cons_succ, List.map_cons, List.sum_cons]
      calc f x + ((xs.set i b).map f).sum + f a
          = f x + (((xs.set i b).map f).sum + f a) := by ac_rfl
        _ = f x + ((xs.map f).sum + f b) := by rw [hrest]
        _ = f x + (xs.map f).sum + f b := by ac_rfl

end Sums

theorem heldRefs_setSlot {h : Heap} {r : Ref} {e : Entry} (s : Option Entry)
    (he : h.slots[r.index]? = some (some e)) :
    (h.setSlot r s).heldRefs + e.object.children.length = h.heldRefs + slotRefs s := by
  have := sum_map_set slotRefs h.slots.toList r.index (some e) s (by simpa using he)
  simpa [heldRefs, setSlot, slotRefs, List.sum] using this

/-- Dropping a reference frees an object, or leaves every held reference where it is. -/
theorem heldRefs_dropReference {h h' : Heap} {r : Ref} {o : Option Object}
    (hd : dropReference r h = .ok o h') :
    h'.heldRefs + (match o with | some o => o.children.length | none => 0) = h.heldRefs := by
  unfold dropReference demand at hd
  simp only [bind, EStateM.bind] at hd
  split at hd
  · rename_i e _ heq
    split at heq <;> simp only [EStateM.Result.ok.injEq, reduceCtorEq] at heq
    rename_i e' hs
    -- What is left of the drop: nothing for an immortal object, one reference fewer, or an empty
    -- slot.
    obtain ⟨rfl, rfl⟩ := heq
    split at hd
    · cases hd; rfl
    · split at hd
      · cases hd
        have := heldRefs_setSlot (some { e' with refs := e'.refs - 1 }) hs
        simp only [slotRefs] at this
        simpa using this
      · cases hd
        have := heldRefs_setSlot none hs
        simpa [vacate, setSlot, slotRefs, heldRefs] using this
  · simp at hd

/-! ## The loop -/

/-- Drops every waiting reference, the first one first. The children of a freed object go in front
of the others, the last child foremost. -/
def drain (pending : List Ref) (h : Heap) : EStateM.Result Misuse Heap Unit :=
  match pending with
  | [] => .ok () h
  | r :: rest =>
    match _hd : dropReference r h with
    | .error m h' => .error m h'
    | .ok none h' => drain rest h'
    -- The children come off the top before anything that waited already.
    | .ok (some o) h' => drain (o.children.reverse ++ rest) h'
termination_by pending.length + h.heldRefs
decreasing_by
  · have := heldRefs_dropReference _hd; simp at this ⊢; omega
  · have := heldRefs_dropReference _hd; simp at this ⊢; omega

/-- Releases one reference to an object, and the object itself if that was the last. -/
def decRef (r : Ref) : HeapM Unit :=
  drain [r]

def decRefs (rs : List Ref) : HeapM Unit :=
  rs.forM decRef

/-- Frees an object whatever its count says; the references that it held are dropped as usual.
Immortal objects stay. -/
def releaseStorage (r : Ref) : HeapM Unit := do
  let e ← demand .releaseStorage r
  unless e.immortal do
    modify (·.vacate r e.object)
    drain e.object.children.reverse

end NativeCall.Heap
