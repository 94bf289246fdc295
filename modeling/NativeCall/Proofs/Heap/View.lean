import Mathlib.Algebra.Order.Group.Multiset
import Mathlib.Logic.Function.Basic
import Mathlib.Tactic.Abel
import Mathlib.Tactic.Lemma
import NativeCall.Heap.Release
import NativeCall.Proofs.Run

/-!
# Releasing in any order

The order in which references are released decides in which order slots become free, and nothing
else. To say so, `Heap.view` forgets what the order does decide, the free list and the number of
slots, and also how many allocations were ever made. What stays is every live object with its count,
the bytes in use, the interned strings and the depth budget.

`Settles v rs w` says that dropping the references `rs` and every reference that this sets free
leads from the view `v` to `w`. The relation chooses an arbitrary one of the waiting references in
each round. Two different references can be dropped in either order (`View.drop_comm`), so any
waiting reference may as well be dropped first (`Settles.exchange`), and there is only one view to
settle in (`Settles.unique`). `drain` and `decRefs` are ways to settle: `drain_of_settles`,
`decRefs_of_settles`.

## Why a relation and not a function

The waiting references are a multiset, and taking one of them out is not a function of a multiset.
One could fix an order and prove that permuting the list does no harm; but then every statement
about a container and its items would be about lists in some order, and about what the order was
after the items of the items had joined. With the relation the order is gone from the statement, and
the only place where it comes back is the proof that the loop of the program is one way among many.

The exchange of two neighbouring rounds is the whole argument. If the two references are equal, the
rounds are the same round twice, and there is nothing to exchange. If they are different, dropping
the first does not touch the slot of the second, and the bytes that both give back are subtracted
from one number, where subtraction that stops at zero is still commutative (`Tracker.credit_comm`).

## What the view is used for

Whoever builds a container and then gives it up is back at the view from before, whatever slots were
taken in between. Clean-up after errors is proved in this form: `Proofs.Heap.Effects` says of each
operation which references are left to settle, and this module says that it does not matter who
drops them, and when.
-/

namespace NativeCall

/-! ## Views -/

/-- A tracker that forgets how many allocations were made. -/
def Tracker.uncounted : Tracker → Tracker
  | unlimited => unlimited
  | limited m => limited { m with allocations := 0 }

lemma Tracker.uncounted_credit (t : Tracker) (n : Nat) :
    (t.credit n).uncounted = t.uncounted.credit n := by
  cases t <;> rfl

@[simp] lemma Tracker.credit_zero (t : Tracker) : t.credit 0 = t := by
  cases t <;> rfl

lemma Tracker.credit_comm (t : Tracker) (m n : Nat) :
    (t.credit m).credit n = (t.credit n).credit m := by
  cases t with
  | unlimited => rfl
  | limited meter => simp only [credit, Meter.credit, Nat.sub_right_comm]

/-- A granted charge is undone by giving the bytes back. -/
lemma Tracker.uncounted_credit_charge {t t' : Tracker} {n : Nat} (h : t.charge n = .ok t') :
    t'.uncounted.credit n = t.uncounted := by
  cases t with
  | unlimited =>
    cases h
    rfl
  | limited meter =>
    rw [charge] at h
    cases hm : meter.charge n with
    | error e =>
      rw [hm] at h
      cases h
    | ok meter' =>
      rw [hm] at h
      cases h
      obtain ⟨-, -, rfl⟩ := Meter.charge_eq_ok.mp hm
      simp [uncounted, credit, Meter.credit]

/-- What the order of releases leaves alone. -/
@[ext]
structure View where
  slots : Ref → Option Entry
  tracker : Tracker
  interned : List (String × Ref)
  levels : Nat

/-- A heap up to the order of its free list, the number of its slots and the number of allocations
that were ever made. -/
def Heap.view (h : Heap) : View :=
  ⟨h.slot?, h.tracker.uncounted, h.interned, h.levels⟩

namespace Heap

lemma slot?_setSlot {h : Heap} {r : Ref} (s : Option Entry) (hr : r.index < h.slots.size) :
    (h.setSlot r s).slot? = Function.update h.slot? r s := by
  funext q
  by_cases hq : q = r
  · rw [hq, Function.update_self, slot?_setSlot_self s hr]
  · rw [Function.update_of_ne hq, slot?_setSlot_of_ne s (Ne.symm hq)]

lemma slot?_vacate {h : Heap} {r : Ref} (o : Object) (hr : r.index < h.slots.size) :
    (h.vacate r o).slot? = Function.update h.slot? r none :=
  slot?_setSlot none hr

end Heap

/-! ## Dropping one reference -/

/-- What dropping a reference to an object does. -/
structure Dropped where
  /-- What is left in the slot. -/
  slot : Option Entry
  /-- The bytes that become free. -/
  bytes : Nat
  /-- The references that the object held, if it is gone. -/
  released : Multiset Ref

/-- Drops a reference to the object of an entry. -/
def Entry.dropped (e : Entry) : Dropped :=
  if e.immortal then ⟨some e, 0, 0⟩
  else if 1 < e.refs then ⟨some { e with refs := e.refs - 1 }, 0, 0⟩
  else ⟨none, e.object.size, e.object.children⟩

namespace View

/-- Changes a slot and gives bytes back. -/
def write (v : View) (r : Ref) (s : Option Entry) (bytes : Nat) : View :=
  { v with slots := Function.update v.slots r s, tracker := v.tracker.credit bytes }

/-- Drops one reference to an object, if there is one. -/
def drop (v : View) (r : Ref) : Option (View × Multiset Ref) :=
  (v.slots r).map (fun e => (v.write r e.dropped.slot e.dropped.bytes, e.dropped.released))

variable {v w x : View} {r q : Ref} {cs ds : Multiset Ref}

lemma drop_eq_some : v.drop r = some (w, cs) ↔
    ∃ e, v.slots r = some e ∧ w = v.write r e.dropped.slot e.dropped.bytes ∧
      cs = e.dropped.released := by
  rw [drop, Option.map_eq_some_iff]
  refine exists_congr (fun e => and_congr_right (fun _ => ?_))
  rw [Prod.mk.injEq, eq_comm, eq_comm (b := cs)]

lemma write_comm (hrq : r ≠ q) (s t : Option Entry) (m n : Nat) :
    (v.write r s m).write q t n = (v.write q t n).write r s m := by
  simp only [write, Function.update_comm hrq, Tracker.credit_comm _ m n]

lemma slots_write_of_ne (hrq : q ≠ r) (s : Option Entry) (n : Nat) :
    (v.write r s n).slots q = v.slots q := by
  show Function.update v.slots r s q = v.slots q
  rw [Function.update_of_ne hrq]

/-- Two different references can be dropped in either order. -/
lemma drop_comm (hr : v.drop r = some (w, cs)) (hq : v.drop q = some (x, ds)) (hrq : r ≠ q) :
    ∃ y, w.drop q = some (y, ds) ∧ x.drop r = some (y, cs) := by
  obtain ⟨e, he, rfl, rfl⟩ := drop_eq_some.mp hr
  obtain ⟨f, hf, rfl, rfl⟩ := drop_eq_some.mp hq
  refine ⟨_, drop_eq_some.mpr ⟨f, ?_, rfl, rfl⟩, drop_eq_some.mpr ⟨e, ?_, ?_, rfl⟩⟩
  · rw [slots_write_of_ne hrq.symm, hf]
  · rw [slots_write_of_ne hrq, he]
  · exact write_comm hrq _ _ _ _

/-- Dropping references never fills a slot. -/
lemma slots_of_drop (h : v.drop r = some (w, cs)) (hq : w.slots q ≠ none) :
    v.slots q ≠ none := by
  obtain ⟨e, he, rfl, -⟩ := drop_eq_some.mp h
  by_cases hqr : q = r
  · rw [hqr, he]
    exact Option.some_ne_none e
  · rwa [slots_write_of_ne hqr] at hq

end View

/-! ## Settling -/

/-- Dropping the references `rs`, and all that this sets free, leads from a view to another. -/
inductive Settles : View → Multiset Ref → View → Prop where
  | done (v : View) : Settles v 0 v
  | drop {v w u : View} {r : Ref} {cs rs : Multiset Ref} (hd : v.drop r = some (w, cs))
      (h : Settles w (cs + rs) u) : Settles v (r ::ₘ rs) u

namespace Settles

variable {v w u u' : View} {r : Ref} {cs rs ts : Multiset Ref}

/-- Only live objects have references that can be dropped. -/
lemma slots_ne_none (h : Settles v rs u) (hr : r ∈ rs) : v.slots r ≠ none := by
  induction h with
  | done v => exact absurd hr (Multiset.notMem_zero r)
  | @drop v w u q cs rs hd h ih =>
    rcases Multiset.mem_cons.mp hr with rfl | hr
    · obtain ⟨e, he, -⟩ := View.drop_eq_some.mp hd
      rw [he]
      exact Option.some_ne_none e
    · exact View.slots_of_drop hd (ih (Multiset.mem_add.mpr (.inr hr)))

/-- Any of the waiting references may be dropped first. -/
lemma exchange (h : Settles v (r ::ₘ rs) u) (hd : v.drop r = some (w, cs)) :
    Settles w (cs + rs) u := by
  generalize ht : r ::ₘ rs = total at h
  induction h generalizing r rs w cs with
  | done v => exact absurd ht (Multiset.cons_ne_zero)
  | @drop v x u q ds qs hq h ih =>
    -- The first round of the derivation dropped this very reference, or another one. In the second
    -- case the two rounds change places, and the induction hypothesis takes the reference to the
    -- front of the rest.
    rcases Multiset.cons_eq_cons.mp ht with ⟨rfl, rfl⟩ | ⟨hrq, ts, rfl, rfl⟩
    · obtain ⟨rfl, rfl⟩ := Prod.mk.inj (Option.some.inj (hd.symm.trans hq))
      exact h
    · obtain ⟨y, hwq, hxr⟩ := View.drop_comm hd hq hrq
      have hy : Settles y (cs + (ds + ts)) u :=
        ih hxr (by rw [Multiset.add_cons])
      rw [Multiset.add_cons]
      refine .drop hwq ?_
      rwa [add_left_comm] at hy

/-- There is only one view to settle in. -/
lemma unique (h : Settles v rs u) (h' : Settles v rs u') : u = u' := by
  induction h with
  | done v =>
    generalize hz : (0 : Multiset Ref) = zero at h'
    cases h' with
    | done => rfl
    | drop => exact absurd hz.symm Multiset.cons_ne_zero
  | drop hd _ ih => exact ih (h'.exchange hd)

/-- References can be dropped in two portions. -/
lemma append (h : Settles v rs w) (h' : Settles w ts u) : Settles v (rs + ts) u := by
  induction h with
  | done v => rwa [zero_add]
  | drop hd _ ih =>
    rw [Multiset.cons_add]
    refine .drop hd ?_
    rw [← add_assoc]
    exact ih h'

/-- What settles in the end also does so when a portion of it has settled. -/
lemma cancel (h : Settles v rs w) (h' : Settles v (rs + ts) u) : Settles w ts u := by
  induction h with
  | done v => rwa [zero_add] at h'
  | drop hd _ ih =>
    rw [Multiset.cons_add] at h'
    have := h'.exchange hd
    rw [← add_assoc] at this
    exact ih this

lemma single (hd : v.drop r = some (w, 0)) : Settles v {r} w :=
  .drop hd (by rw [zero_add]; exact .done w)

end Settles

/-! ## The loop settles -/

namespace Heap

variable {h h' : Heap} {r : Ref} {rs : List Ref} {u : View}

lemma demand_of_slot?_eq_none {op : HeapOp} (hr : h.slot? r = none) :
    ∃ m, demand op r h = .error m h := by
  rw [slot?] at hr
  unfold demand
  split
  case h_1 e hs =>
    rw [hs] at hr
    cases hr
  case h_2 => exact ⟨_, rfl⟩
  case h_3 => exact ⟨_, rfl⟩

/-- The references that an object set free. -/
def released : Option Object → List Ref
  | some o => o.children
  | none => []

lemma dropReference_eq {e : Entry} (he : h.slot? r = some e) :
    dropReference r h =
      if e.immortal then .ok none h
      else if 1 < e.refs then .ok none (h.setSlot r (some { e with refs := e.refs - 1 }))
      else .ok (some e.object) (h.vacate r e.object) := by
  rw [dropReference, bind_ok (demand_of_slot? he)]
  by_cases hi : e.immortal = true
  · rw [if_pos hi, if_pos hi]
    rfl
  · rw [if_neg hi, if_neg hi]
    by_cases h1 : 1 < e.refs
    · rw [if_pos h1, if_pos h1]
      rfl
    · rw [if_neg h1, if_neg h1]
      rfl

lemma dropReference_of_slot? {e : Entry} (he : h.slot? r = some e) :
    ∃ o h', dropReference r h = .ok o h' ∧ h.view.drop r = some (h'.view, ↑(released o)) := by
  have hr := lt_size_of_slot? he
  -- It is enough to name what is left in the slot, what becomes free and what is released; each of
  -- the three ways to drop a reference fits.
  have hv : ∀ w cs, w = h.view.write r e.dropped.slot e.dropped.bytes → cs = e.dropped.released →
      h.view.drop r = some (w, cs) :=
    fun w cs hw hcs => View.drop_eq_some.mpr ⟨e, he, hw, hcs⟩
  rw [dropReference_eq he]
  by_cases hi : e.immortal = true
  · rw [if_pos hi]
    refine ⟨none, h, rfl, hv _ _ ?_ ?_⟩
    · simp only [Entry.dropped, if_pos hi, View.write, Tracker.credit_zero]
      ext1
      · exact (Function.update_eq_self_iff.mpr he.symm).symm
      all_goals rfl
    · simp only [Entry.dropped, if_pos hi, released, Multiset.coe_nil]
  · rw [if_neg hi]
    by_cases h1 : 1 < e.refs
    · rw [if_pos h1]
      refine ⟨none, _, rfl, hv _ _ ?_ ?_⟩
      · simp only [Entry.dropped, if_neg hi, if_pos h1, View.write, Tracker.credit_zero, view,
          slot?_setSlot _ hr]
        rfl
      · simp only [Entry.dropped, if_neg hi, if_pos h1, released, Multiset.coe_nil]
    · rw [if_neg h1]
      refine ⟨some e.object, _, rfl, hv _ _ ?_ ?_⟩
      · simp only [Entry.dropped, if_neg hi, if_neg h1, View.write, view, slot?_vacate _ hr]
        rw [← Tracker.uncounted_credit]
        rfl
      · simp only [Entry.dropped, if_neg hi, if_neg h1, released]

/-- One round of the loop: the first waiting reference is dropped. -/
lemma drain_cons {o : Option Object} (hd : dropReference r h = .ok o h') (rest : List Ref) :
    drain (r :: rest) h = drain ((released o).reverse ++ rest) h' := by
  rw [drain]
  split
  case h_1 heq => cases hd.symm.trans heq
  case h_2 heq =>
    cases hd.symm.trans heq
    rfl
  case h_3 heq =>
    cases hd.symm.trans heq
    rfl

lemma drain_stopped {m : Misuse} (hd : dropReference r h = .error m h') (rest : List Ref) :
    drain (r :: rest) h = .error m h' := by
  rw [drain]
  split
  case h_1 heq =>
    cases hd.symm.trans heq
    rfl
  case h_2 heq => cases hd.symm.trans heq
  case h_3 heq => cases hd.symm.trans heq

/-- One round of settling, with the reference that the loop takes. -/
lemma dropReference_of_settles {rest : List Ref} (hs : Settles h.view ↑(r :: rest) u) :
    ∃ o h', dropReference r h = .ok o h' ∧
      Settles h'.view ↑((released o).reverse ++ rest) u := by
  have hmem : r ∈ (↑(r :: rest) : Multiset Ref) := Multiset.mem_cons_self r ↑rest
  obtain ⟨e, he⟩ := Option.ne_none_iff_exists'.mp (hs.slots_ne_none hmem)
  obtain ⟨o, h', hd, hdrop⟩ := dropReference_of_slot? he
  refine ⟨o, h', hd, ?_⟩
  rw [← Multiset.coe_add, Multiset.coe_reverse]
  exact hs.exchange hdrop

/-- The loop finds the view that its references settle in. -/
lemma drain_of_settles (hs : Settles h.view rs u) :
    ∃ h', drain rs h = .ok () h' ∧ h'.view = u := by
  induction rs, h using drain.induct with
  | case1 h => exact ⟨h, by rw [drain], Settles.unique (.done _) hs⟩
  -- A loop that stops is one that came to an empty slot, and a reference to such a slot does not
  -- settle.
  | case2 h r rest m h' hd =>
    obtain ⟨o, h'', hd', -⟩ := dropReference_of_settles hs
    cases hd.symm.trans hd'
  | case3 h r rest h' hd ih =>
    obtain ⟨o, h'', hd', hs'⟩ := dropReference_of_settles hs
    cases hd.symm.trans hd'
    obtain ⟨h₁, hdrain, hv⟩ := ih hs'
    exact ⟨h₁, (drain_cons hd rest).trans hdrain, hv⟩
  | case4 h r rest o h' hd ih =>
    obtain ⟨o', h'', hd', hs'⟩ := dropReference_of_settles hs
    cases hd.symm.trans hd'
    obtain ⟨h₁, hdrain, hv⟩ := ih hs'
    exact ⟨h₁, (drain_cons hd rest).trans hdrain, hv⟩

/-- Where the loop ends, its references have settled. -/
lemma settles_of_drain (hd : drain rs h = .ok () h') : Settles h.view rs h'.view := by
  -- One round, whether or not it frees an object: it ended, so there was an object in the slot.
  have hround : ∀ {h h₁ : Heap} {r : Ref} {o : Option Object} {rest : List Ref},
      dropReference r h = .ok o h₁ → Settles h₁.view ↑((released o).reverse ++ rest) h'.view →
      Settles h.view ↑(r :: rest) h'.view := by
    intro h h₁ r o rest hr hs
    cases hslot : h.slot? r with
    | none =>
      rw [dropReference, bind_stopped (demand_of_slot?_eq_none hslot).choose_spec] at hr
      cases hr
    | some e =>
      obtain ⟨o', h₂, hr', hdrop⟩ := dropReference_of_slot? hslot
      cases hr.symm.trans hr'
      rw [← Multiset.cons_coe]
      refine .drop hdrop ?_
      rwa [← Multiset.coe_add, Multiset.coe_reverse] at hs
  induction rs, h using drain.induct with
  | case1 h =>
    rw [drain] at hd
    cases hd
    exact .done _
  | case2 h r rest m h₁ hr =>
    rw [drain_stopped hr] at hd
    cases hd
  | case3 h r rest h₁ hr ih =>
    rw [drain_cons hr] at hd
    exact hround hr (ih hd)
  | case4 h r rest o h₁ hr ih =>
    rw [drain_cons hr] at hd
    exact hround hr (ih hd)

/-- The loop is through with the references in front before it takes those behind. -/
lemma drain_append (rs ts : List Ref) (h : Heap) :
    drain (rs ++ ts) h =
      match drain rs h with
      | .ok () h' => drain ts h'
      | .error m h' => .error m h' := by
  induction rs, h using drain.induct with
  | case1 h => rw [show drain [] h = .ok () h by rw [drain], List.nil_append]
  | case2 h r rest m h₁ hr => rw [List.cons_append, drain_stopped hr, drain_stopped hr]
  | case3 h r rest h₁ hr ih =>
    rw [List.cons_append, drain_cons hr, drain_cons hr, ← List.append_assoc]
    exact ih
  | case4 h r rest o h₁ hr ih =>
    rw [List.cons_append, drain_cons hr, drain_cons hr, ← List.append_assoc]
    exact ih

lemma decRefs_eq_drain (rs : List Ref) (h : Heap) : decRefs rs h = drain rs h := by
  induction rs generalizing h with
  | nil =>
    rw [drain]
    rfl
  | cons r rs ih =>
    have hcons : decRefs (r :: rs) h = (decRef r >>= fun _ => decRefs rs) h := rfl
    rw [hcons, ← List.singleton_append, drain_append]
    cases hr : drain [r] h with
    | error m h₁ => exact bind_stopped hr
    | ok _ h₁ => rw [bind_ok (show decRef r h = .ok () h₁ from hr), ih]

lemma decRef_eq_decRefs (r : Ref) : decRef r = decRefs [r] := by
  funext h
  rw [decRefs_eq_drain]
  rfl

/-- Releasing references one after the other is one way to settle. -/
lemma decRefs_of_settles (hs : Settles h.view rs u) :
    ∃ h', decRefs rs h = .ok () h' ∧ h'.view = u := by
  rw [decRefs_eq_drain]
  exact drain_of_settles hs

lemma settles_of_decRefs (hd : decRefs rs h = .ok () h') : Settles h.view rs h'.view := by
  rw [decRefs_eq_drain] at hd
  exact settles_of_drain hd

end Heap

end NativeCall
