import NativeCall.Proofs.Heap.ExactCounts

/-!
# Releasing by recursion

The plain way to release a reference calls itself: drop the reference, and if it was the last one,
empty the slot and release what the object held, the last child first (`releaseOne`, `releaseEach`).
It goes as deep as the data does. `decRef` keeps the references that are still to be dropped on a
stack instead, and the children of several objects that are gone wait there together.

The two leave the same heap, slots, counts, free list and tracker alike (`decRef_eq_recursive`). The
stack is through with everything that a child sets free before it takes up the next one
(`drain_append`), so what it does between a child and the next is a run of its own, from a stack of
one reference, and that run is what the recursion calls itself for.

Why the recursion ends is the reason why the loop does: before an object's children are released the
object is off the heap, and the references that objects hold become fewer. Since a child may be
released only after its siblings, the bound has to survive their release, so `Release` carries it
along with the outcome.

## The two measures

The loop takes one reference off its list in each round and may put several on it, so its measure
counts the references that wait together with those that are held. The recursion has no list of
those that wait for their turn in an outer call; its measure is about the call at hand. A call for
one reference weighs twice what is held and one more, a call for several twice what is held and what
is on its list, and the odd number in between makes room for the step from the list to its first
member.

Both are defined on every heap, whatever its counts are. A wrong reference stops the recursion where
it stops the loop, with the same heap; only the last part of the theorem, that nothing is stopped,
asks for right counts.
-/

namespace NativeCall.Heap

variable {h : Heap} {r : Ref} {e : Entry} {owned : Multiset Ref}

/-! ## The recursion -/

lemma heldRefs_vacate (hs : h.slots[r.index]? = some (some e)) :
    (h.vacate r e.object).heldRefs + e.object.children.length = h.heldRefs :=
  heldRefs_setSlot none hs

lemma heldRefs_setRefs (n : Nat) (hs : h.slots[r.index]? = some (some e)) :
    (h.setSlot r (some { e with refs := n })).heldRefs = h.heldRefs := by
  have hsum := heldRefs_setSlot (some { e with refs := n }) hs
  exact Nat.add_right_cancel hsum

/-- The heap with which an operation ended or stopped. -/
def left : EStateM.Result Misuse Heap Unit → Heap
  | .ok _ h => h
  | .error _ h => h

/-- What a release came to that was begun on `h`. Its objects hold no more references than those of
`h` did. -/
abbrev Release (h : Heap) : Type :=
  { result : EStateM.Result Misuse Heap Unit // (left result).heldRefs ≤ h.heldRefs }

mutual

/-- Drops one reference. If it was the last one, the slot becomes empty, the free list gets it, the
tracker gets its bytes back, and the references that the object held are released, the last one
first. -/
def releaseOne (h : Heap) (r : Ref) : Release h :=
  match hs : h.slots[r.index]? with
  | none => ⟨.error ⟨.decRef, .missing⟩ h, Nat.le_refl _⟩
  | some none => ⟨.error ⟨.decRef, .freed⟩ h, Nat.le_refl _⟩
  | some (some e) =>
    if e.immortal then
      ⟨.ok () h, Nat.le_refl _⟩
    else if 1 < e.refs then
      ⟨.ok () (h.setSlot r (some { e with refs := e.refs - 1 })),
        Nat.le_of_eq (heldRefs_setRefs (e.refs - 1) hs)⟩
    else
      have hheld := heldRefs_vacate hs
      let ⟨result, hle⟩ := releaseEach (h.vacate r e.object) e.object.children.reverse
      ⟨result, by omega⟩
termination_by 2 * h.heldRefs + 1
decreasing_by
  rw [List.length_reverse]
  omega

/-- Releases one reference after the other. -/
def releaseEach (h : Heap) (rs : List Ref) : Release h :=
  match rs with
  | [] => ⟨.ok () h, Nat.le_refl _⟩
  | r :: rest =>
    match releaseOne h r with
    | ⟨.error m h', hle⟩ => ⟨.error m h', hle⟩
    | ⟨.ok _ h', hle⟩ =>
      have hheld : h'.heldRefs ≤ h.heldRefs := hle
      let ⟨result, hle'⟩ := releaseEach h' rest
      ⟨result, Nat.le_trans hle' hheld⟩
termination_by 2 * (h.heldRefs + rs.length)
decreasing_by
  all_goals
    rw [List.length_cons]
    omega

end

/-- Releases one reference to an object by recursion. -/
def releaseRecursively (r : Ref) : HeapM Unit :=
  fun h => (releaseOne h r).val

/-! ## The stack does what the recursion does -/

lemma dropReference_missing (hs : h.slots[r.index]? = none) :
    dropReference r h = .error ⟨.decRef, .missing⟩ h :=
  bind_stopped (by rw [demand, hs])

lemma dropReference_freed (hs : h.slots[r.index]? = some none) :
    dropReference r h = .error ⟨.decRef, .freed⟩ h :=
  bind_stopped (by rw [demand, hs])

/-- A reference that was not the last one leaves nothing on the stack. -/
lemma drain_kept {h' : Heap} (hd : dropReference r h = .ok none h') : drain [r] h = .ok () h' := by
  rw [drain_cons hd, released, List.reverse_nil, List.nil_append, drain]

/-- The last reference leaves the children of the object on the stack, and nothing else. -/
lemma drain_last {o : Object} {h' : Heap} (hd : dropReference r h = .ok (some o) h') :
    drain [r] h = drain o.children.reverse h' := by
  rw [drain_cons hd, released, List.append_nil]

mutual

lemma releaseOne_eq_drain (h : Heap) (r : Ref) : (releaseOne h r).val = drain [r] h := by
  rw [releaseOne]
  split
  case h_1 hs => rw [drain_stopped (dropReference_missing hs)]
  case h_2 hs => rw [drain_stopped (dropReference_freed hs)]
  case h_3 e hs =>
    have hslot : h.slot? r = some e := by
      rw [slot?, hs]
      rfl
    have hd := dropReference_eq hslot
    by_cases hi : e.immortal = true
    · rw [if_pos hi] at hd ⊢
      exact (drain_kept hd).symm
    · rw [if_neg hi] at hd ⊢
      by_cases h1 : 1 < e.refs
      · rw [if_pos h1] at hd ⊢
        exact (drain_kept hd).symm
      · rw [if_neg h1] at hd ⊢
        -- With the object off the heap, what it held is held no longer; this is where the measure
        -- goes down.
        have hheld := heldRefs_vacate hs
        rw [drain_last hd]
        exact releaseEach_eq_drain (h.vacate r e.object) e.object.children.reverse
termination_by 2 * h.heldRefs + 1
decreasing_by
  rw [List.length_reverse]
  omega

lemma releaseEach_eq_drain (h : Heap) (rs : List Ref) : (releaseEach h rs).val = drain rs h := by
  cases rs with
  | nil => rw [releaseEach, drain]
  | cons r rest =>
    -- The loop is through with `r` and everything below it before it comes to `rest`.
    have hfirst : drain (r :: rest) h = _ := drain_append [r] rest h
    rw [releaseEach, hfirst, ← releaseOne_eq_drain h r]
    split
    case h_1 m h' hle hr => rw [hr]
    case h_2 _ h' hle hr =>
      have hheld : h'.heldRefs ≤ h.heldRefs := hle
      rw [hr]
      exact releaseEach_eq_drain h' rest
termination_by 2 * (h.heldRefs + rs.length)
decreasing_by
  all_goals
    rw [List.length_cons]
    omega

end

/-- **The loop does what the recursion does.** On any heap, releasing a reference with the stack
ends or stops where releasing it by recursion does, with the same heap: the same slots with the same
objects and counts, the same free list in the same order, the same tracker. On a heap whose counts
are right, shared objects and cycles of lists included, a reference that is owned is released
without being stopped, and counts are right again for those who own the rest. -/
theorem decRef_eq_recursive :
    decRef r h = releaseRecursively r h ∧
    (h.Counted owned → r ∈ owned →
      ∃ h', decRef r h = .ok () h' ∧ releaseRecursively r h = .ok () h' ∧
        h'.Counted (owned.erase r)) := by
  have heq : decRef r h = releaseRecursively r h := (releaseOne_eq_drain h r).symm
  refine ⟨heq, fun hc hr => ?_⟩
  rw [← Multiset.cons_erase hr] at hc
  obtain ⟨h', hd, hc'⟩ : ∃ h', drain [r] h = .ok () h' ∧ h'.Counted (owned.erase r) :=
    Counted.drain hc
  exact ⟨h', hd, heq.symm.trans hd, hc'⟩

/-- A tuple that holds a number twice and a list that holds itself is released: the number goes with
it, and the list is left to itself. -/
theorem decRef_eq_recursive_cycle :
    ∃ h h', h.Counted {⟨6⟩} ∧ (⟨6⟩ : Ref) ∈ ({⟨6⟩} : Multiset Ref) ∧
      decRef ⟨6⟩ h = .ok () h' ∧ releaseRecursively ⟨6⟩ h = .ok () h' ∧ h'.Counted 0 ∧
      h'.freeList = [⟨5⟩, ⟨6⟩] ∧ h'.slot? ⟨4⟩ = some ⟨1, false, .list ⟨[⟨4⟩], 4⟩⟩ := by
  let list (refs : Nat) (store : ListStore) : Entry := ⟨refs, false, .list store⟩
  let number (refs : Nat) : Entry := ⟨refs, false, .int 5⟩
  let tuple : Entry := ⟨1, false, .tuple [⟨5⟩, ⟨5⟩, ⟨4⟩]⟩
  let h (entries : List Entry) : Heap := freshWith .unlimited entries
  have hmake : ∀ {h : Heap} {owned : Multiset Ref} (o : Object), h.Permits owned (.allocate o) :=
    fun o => ⟨by rintro r ⟨⟩, fun r hr => absurd hr List.not_mem_nil⟩
  have hshare : ∀ {h : Heap} {owned : Multiset Ref} {r : Ref}, r ∈ owned →
      h.Permits owned (.incRef r) := by
    intro h owned r hr
    refine ⟨by rintro r ⟨⟩, fun q hq => .inl ?_⟩
    rwa [List.mem_singleton.mp hq]
  have hlist : Owns .unlimited (h [list 1 ⟨[], 0⟩]) (↑([⟨4⟩] : List Ref) + 0) :=
    .command (.allocate (.list ⟨[], 0⟩)) .fresh (hmake _) rfl
  have hshared : Owns .unlimited (h [list 2 ⟨[], 0⟩])
      (↑([⟨4⟩] : List Ref) + (↑([⟨4⟩] : List Ref) + 0)) :=
    .command (.incRef ⟨4⟩) hlist (hshare (by decide)) rfl
  have hcycle : Owns .unlimited (h [list 2 ⟨[⟨4⟩], 4⟩])
      (↑([] : List Ref) + (↑([⟨4⟩] : List Ref) + 0)) := by
    refine .command (.append ⟨4⟩ ⟨4⟩) hshared ⟨by rintro r ⟨⟩, fun r hr => .inl ?_⟩ rfl
    rw [List.mem_singleton.mp hr]
    decide
  have hnumber : Owns .unlimited (h [list 2 ⟨[⟨4⟩], 4⟩, number 1])
      (↑([⟨5⟩] : List Ref) + (↑([] : List Ref) + (↑([⟨4⟩] : List Ref) + 0))) :=
    .command (.allocate (.int 5)) hcycle (hmake _) rfl
  have htwice : Owns .unlimited (h [list 2 ⟨[⟨4⟩], 4⟩, number 2])
      (↑([⟨5⟩] : List Ref) +
        (↑([⟨5⟩] : List Ref) + (↑([] : List Ref) + (↑([⟨4⟩] : List Ref) + 0)))) :=
    .command (.incRef ⟨5⟩) hnumber (hshare (by decide)) rfl
  have htuple : Owns .unlimited (h [list 2 ⟨[⟨4⟩], 4⟩, number 2, tuple])
      (↑([⟨6⟩] : List Ref) + 0) :=
    .command (.allocate (.tuple [⟨5⟩, ⟨5⟩, ⟨4⟩])) htwice (hmake _) rfl
  have hcounted : (h [list 2 ⟨[⟨4⟩], 4⟩, number 2, tuple]).Counted {⟨6⟩} := htuple.kept.counted
  have howned : (⟨6⟩ : Ref) ∈ ({⟨6⟩} : Multiset Ref) := Multiset.mem_singleton_self _
  obtain ⟨h', hd, hrec, hc⟩ := decRef_eq_recursive.2 hcounted howned
  have hfree : (after (decRef ⟨6⟩) (h [list 2 ⟨[⟨4⟩], 4⟩, number 2, tuple])).freeList =
      [⟨5⟩, ⟨6⟩] := by decide +kernel
  have hleft : (after (decRef ⟨6⟩) (h [list 2 ⟨[⟨4⟩], 4⟩, number 2, tuple])).slot? ⟨4⟩ =
      some (list 1 ⟨[⟨4⟩], 4⟩) := by decide +kernel
  rw [after_ok hd] at hfree hleft
  exact ⟨_, h', hcounted, howned, hd, hrec, hc, hfree, hleft⟩

end NativeCall.Heap
