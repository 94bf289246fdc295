import NativeCall.Context
import NativeCall.Proofs.Heap.Counted

/-!
# Transfers of ownership

Operations that marshal take references over from their caller and hand others out. `Transfers x
take give` says that `x` does so without a leak: given the references `take`, it always ends, and
leaves its caller with the references `give a` if its result is `a`. Whatever else is owned, the
counts stay right, and releasing what was handed out leads to the same view of the heap as releasing
what was taken over.

The references of others are part of the definition, so a transfer may be seen as one of more
references (`Transfers.frame`), and transfers compose (`Transfers.bind`). Operations that may raise
come with what they leave to the caller in that case (`ofOutcome`).

A conversion that native code supplies may rely on references that its caller keeps. The `kept`
references of a transfer are those that are owned throughout.

## Two statements in one

A trade says two things about the heap after an operation. That it is counted excludes a reference
that is released twice, or is still in use when its object goes. It does not exclude an object that
stays behind with a count that nobody will ever take down, since counts are compared with what is
owned, and a leak is an owner who forgot. The second part excludes it: if all that was handed out is
released, the heap looks as if all that was taken over had been released in the first place. So an
object that was made on the way and is not handed out must be gone by then.

The second part is about views, and that is what makes it composable. An operation may release its
references in the middle or leave that to its caller, and `Settles` does not care which.

## Rules

The rules in `Transfers` follow the ways in which operations are put together: sequences, with and
without a result that may be an error, handlers, and operations on the heap of a runtime. Each rule
says which references are in the hands of the operation between two of its parts. Those are the only
lines of a proof about ownership that have to be found; the rest is a rearrangement of a sum.
-/

namespace NativeCall

/-- States that have a heap. -/
class HasHeap (σ : Type) where
  heap : σ → Heap

instance : HasHeap Heap := ⟨fun h => h⟩

instance : HasHeap Context := ⟨Context.heap⟩

export HasHeap (heap)

namespace Heap

/-! ## Trades -/

/-- Between two heaps, references `rs` were traded for `rs'`, while others owned `others`. -/
structure Trade (h : Heap) (rs : Multiset Ref) (h' : Heap) (rs' others : Multiset Ref) : Prop where
  counted : h'.Counted (rs' + others)
  settles : ∀ ts u, Settles h.view (rs + ts) u → Settles h'.view (rs' + ts) u

namespace Trade

variable {h h' h'' : Heap} {rs rs' rs'' ts others : Multiset Ref} {r : Ref} {e : Entry}

lemma refl (hc : h.Counted (rs + others)) : Trade h rs h rs others :=
  ⟨hc, fun _ _ hs => hs⟩

lemma trans (ht : Trade h rs h' rs' others) (ht' : Trade h' rs' h'' rs'' others) :
    Trade h rs h'' rs'' others :=
  ⟨ht'.counted, fun ts u hs => ht'.settles ts u (ht.settles ts u hs)⟩

lemma frame (ht : Trade h rs h' rs' (ts + others)) : Trade h (rs + ts) h' (rs' + ts) others := by
  refine ⟨?_, fun us u hs => ?_⟩
  · rw [add_assoc]
    exact ht.counted
  · rw [add_assoc] at hs ⊢
    exact ht.settles (ts + us) u hs

/-- A heap that looks the same is as good. -/
lemma of_view_eq (hc : h'.Counted (rs + others)) (hv : h'.view = h.view) :
    Trade h rs h' rs others :=
  ⟨hc, fun ts u hs => by rwa [hv]⟩

/-- A reference whose release leads back is worth nothing. -/
lemma of_settles (hc : h'.Counted (rs + others)) (hs : Settles h'.view rs h.view) :
    Trade h 0 h' rs others := by
  refine ⟨hc, fun ts u hu => hs.append ?_⟩
  rwa [zero_add] at hu

lemma of_immortal (hc : h.Counted others) (hs : h.slot? r = some e) (hm : e.immortal = true) :
    Trade h 0 h {r} others := by
  refine of_settles ((Counted.of_immortal hs hm).mpr hc) (.single ?_)
  refine View.drop_eq_some.mpr ⟨e, hs, ?_, ?_⟩
  · simp only [Entry.dropped, if_pos hm, View.write, Tracker.credit_zero]
    ext1
    · exact (Function.update_eq_self_iff.mpr hs.symm).symm
    all_goals rfl
  · simp only [Entry.dropped, if_pos hm]

lemma incRef (hc : h.Counted others) (hs : h.slot? r = some e) :
    ∃ h', Heap.incRef r h = .ok () h' ∧ Trade h 0 h' {r} others := by
  by_cases hi : e.immortal = true
  · refine ⟨h, ?_, of_immortal hc hs hi⟩
    rw [Heap.incRef, bind_ok (demand_of_slot? hs), if_pos hi]
    rfl
  · obtain ⟨h', hinc, hc'⟩ := hc.incRef hs
    refine ⟨h', hinc, of_settles hc' (.single ?_)⟩
    have hr := lt_size_of_slot? hs
    -- The object counted at least one before, so with the new one the count is above one, and
    -- dropping it again frees nothing.
    have hpos := (hc.refs r e hs (Bool.eq_false_iff.mpr hi)).1
    rw [Heap.incRef, bind_ok (demand_of_slot? hs), if_neg hi] at hinc
    obtain rfl : h.setSlot r (some { e with refs := e.refs + 1 }) = h' := by
      cases hinc
      rfl
    have hslot := slot?_setSlot (some { e with refs := e.refs + 1 }) hr
    refine View.drop_eq_some.mpr ⟨{ e with refs := e.refs + 1 }, ?_, ?_, ?_⟩
    · show (h.setSlot r _).slot? r = _
      rw [hslot, Function.update_self]
    · simp only [Entry.dropped, if_neg hi, if_pos (Nat.succ_lt_succ hpos), Nat.add_sub_cancel,
        View.write, Tracker.credit_zero, view, hslot, Function.update_idem]
      ext1
      · exact (Function.update_eq_self_iff.mpr hs.symm).symm
      all_goals rfl
    · simp only [Entry.dropped, if_neg hi, if_pos (Nat.succ_lt_succ hpos)]

lemma decRefs {rs : List Ref} (hc : h.Counted (↑rs + others)) :
    ∃ h', Heap.decRefs rs h = .ok () h' ∧ Trade h rs h' 0 others := by
  obtain ⟨h', hd, hc'⟩ := hc.decRefs
  refine ⟨h', hd, by rwa [zero_add], fun ts u hs => ?_⟩
  rw [zero_add]
  exact (settles_of_decRefs hd).cancel hs

/-- An object that was paid for and placed is worth the references that it took over. -/
lemma placed {o : Object} {t : Tracker} (hc : h.Counted (o.children + others))
    (ht : h.tracker.charge o.size = .ok t)
    (hp : Placed { h with tracker := t } ⟨1, false, o⟩ r h') :
    Trade h o.children h' {r} others := by
  refine ⟨hp.counted rfl (hc.withTracker t), fun ts u hs => ?_⟩
  -- If the new reference is the first to be dropped, the object goes at once, since it is the only
  -- one, and what it took over is waiting again.
  refine .drop (View.drop_eq_some.mpr ⟨⟨1, false, o⟩, ?_, ?_, rfl⟩) hs
  · show h'.slot? r = _
    rw [hp.slots, Function.update_self]
  · have hslot : Function.update h'.slot? r none = h.slot? := by
      rw [hp.slots, Function.update_idem]
      exact Function.update_eq_self_iff.mpr hp.empty.symm
    show h.view = View.write h'.view r none o.size
    simp only [View.write, view, hslot, hp.tracker, hp.interned, hp.levels,
      Tracker.uncounted_credit_charge ht]

end Trade

/-! ## Charges -/

lemma charge_run (o : Object) (h : Heap) :
    (charge o).run h =
      match h.tracker.charge o.size with
      | .ok t => .ok (.ok ()) { h with tracker := t }
      | .error e => .ok (.error e) h := by
  cases ht : h.tracker.charge o.size with
  | ok t =>
    have hrun : (charge o).run h = ((match h.tracker.charge o.size with
      | .ok t => modify ({ · with tracker := t })
      | .error e => throw e : ExceptT ResourceError HeapM Unit)).run h := rfl
    rw [hrun, ht]
    rfl
  | error e =>
    have hrun : (charge o).run h = ((match h.tracker.charge o.size with
      | .ok t => modify ({ · with tracker := t })
      | .error e => throw e : ExceptT ResourceError HeapM Unit)).run h := rfl
    rw [hrun, ht]
    rfl

/-! ## Operations that transfer -/

/-- An operation takes the references `take` over and hands `give` out, while `kept` and perhaps
more is owned by others. -/
def Transfers {σ α : Type} [HasHeap σ] (kept : Multiset Ref) (x : EStateM Misuse σ α)
    (take : Multiset Ref) (give : α → Multiset Ref) : Prop :=
  ∀ s others, kept ≤ others → (heap s).Counted (take + others) →
    ∃ a s', x s = .ok a s' ∧ Trade (heap s) take (heap s') (give a) others

/-- What is owned after an operation that may raise. -/
def ofOutcome {ε α : Type} (value : α → Multiset Ref) (failure : Multiset Ref) :
    Except ε α → Multiset Ref
  | .ok a => value a
  | .error _ => failure

namespace Transfers

section Rules

variable {σ α β ε : Type} [HasHeap σ] {kept take rest failure : Multiset Ref}
  {give : α → Multiset Ref} {give' : β → Multiset Ref}

/-- An operation that changes nothing hands out what it was given. -/
lemma of_ok {x : EStateM Misuse σ α} (a : α) (hx : ∀ s, x s = .ok a s) (ht : take = give a) :
    Transfers kept x take give := by
  intro s others _ hc
  rw [ht] at hc ⊢
  exact ⟨a, s, hx s, .refl hc⟩

lemma bind {x : EStateM Misuse σ α} {f : α → EStateM Misuse σ β} (hx : Transfers kept x take give)
    (hf : ∀ s a s', x s = .ok a s' → Transfers kept (f a) (give a) give') :
    Transfers kept (x >>= f) take give' := by
  intro s others hk hc
  obtain ⟨a, s', hrun, ht⟩ := hx s others hk hc
  obtain ⟨b, s'', hrun', ht'⟩ := hf s a s' hrun s' others hk ht.counted
  exact ⟨b, s'', (bind_ok hrun).trans hrun', ht.trans ht'⟩

/-- An operation does not see what else its caller owns. -/
lemma frame {x : EStateM Misuse σ α} (hx : Transfers kept x take give) :
    Transfers kept x (take + rest) (fun a => give a + rest) := by
  intro s others hk hc
  rw [add_assoc] at hc
  obtain ⟨a, s', hrun, ht⟩ := hx s (rest + others) (hk.trans (Multiset.le_add_left _ _)) hc
  exact ⟨a, s', hrun, ht.frame⟩

lemma congr {x : EStateM Misuse σ α} {take' : Multiset Ref} {give₁ : α → Multiset Ref}
    (hx : Transfers kept x take give) (ht : take' = take) (hg : ∀ a, give a = give₁ a) :
    Transfers kept x take' give₁ := by
  rw [ht, ← funext hg]
  exact hx

variable {x : ExceptT ε (EStateM Misuse σ) α}

lemma run_bind {f : α → ExceptT ε (EStateM Misuse σ) β}
    (hx : Transfers kept x.run take (ofOutcome give failure))
    (hf : ∀ s a s', x.run s = .ok (.ok a) s' →
      Transfers kept (f a).run (give a) (ofOutcome give' failure)) :
    Transfers kept (x >>= f).run take (ofOutcome give' failure) := by
  refine bind hx (fun s outcome s' hrun => ?_)
  cases outcome with
  | ok a => exact hf s a s' hrun
  | error e => exact of_ok (Except.error e) (fun _ => rfl) rfl

lemma run_tryCatch {f : ε → ExceptT ε (EStateM Misuse σ) α} {failure' : Multiset Ref}
    (hx : Transfers kept x.run take (ofOutcome give failure))
    (hf : ∀ e, Transfers kept (f e).run failure (ofOutcome give failure')) :
    Transfers kept (tryCatch x f).run take (ofOutcome give failure') := by
  refine bind hx (fun s outcome s' hrun => ?_)
  cases outcome with
  | ok a => exact of_ok (Except.ok a) (fun _ => rfl) rfl
  | error e => exact hf e

lemma run_pure (a : α) (ht : take = give a) :
    Transfers kept (pure a : ExceptT ε (EStateM Misuse σ) α).run take (ofOutcome give failure) :=
  of_ok (Except.ok a) (fun _ => rfl) ht

lemma run_throw (e : ε) :
    Transfers kept (throw e : ExceptT ε (EStateM Misuse σ) α).run failure
      (ofOutcome give failure) :=
  of_ok (Except.error e) (fun _ => rfl) rfl

lemma run_lift {x : EStateM Misuse σ α} (hx : Transfers kept x take give) :
    Transfers kept (ExceptT.lift x : ExceptT ε (EStateM Misuse σ) α).run take
      (ofOutcome give failure) :=
  bind hx (fun _ a _ _ => of_ok (Except.ok a) (fun _ => rfl) rfl)

lemma run_lift_bind {x : EStateM Misuse σ α} {f : α → ExceptT ε (EStateM Misuse σ) β}
    {give' : Except ε β → Multiset Ref} (hx : Transfers kept x take give)
    (hf : ∀ a, Transfers kept (f a).run (give a) give') :
    Transfers kept (ExceptT.lift x >>= f).run take give' := by
  intro s others hk hc
  obtain ⟨a, s', hrun, ht⟩ := hx s others hk hc
  obtain ⟨b, s'', hrun', ht'⟩ := hf a s' others hk ht.counted
  exact ⟨b, s'', (run_bind_ok (run_lift_ok hrun)).trans hrun', ht.trans ht'⟩

lemma run_adapt {ε' : Type} {f : ε → ε'} (hx : Transfers kept x.run take (ofOutcome give failure)) :
    Transfers kept (ExceptT.adapt f x).run take (ofOutcome give failure) := by
  refine bind hx (fun s outcome s' _ => ?_)
  cases outcome with
  | ok a => exact of_ok (Except.ok a) (fun _ => rfl) rfl
  | error e => exact of_ok (Except.error (f e)) (fun _ => rfl) rfl

end Rules

/-! ## Heap operations -/

section Operations

variable {σ : Type} [HasHeap σ] {kept : Multiset Ref}

lemma decRefs (rs : List Ref) : Transfers kept (Heap.decRefs rs) ↑rs (fun _ => 0) := by
  intro h others _ hc
  obtain ⟨h', hd, ht⟩ := Trade.decRefs hc
  exact ⟨(), h', hd, ht⟩

/-- Releases in front of something else. -/
lemma run_releases {ε α : Type} {rest : Multiset Ref} {f : Unit → ExceptT ε HeapM α}
    {give : Except ε α → Multiset Ref} (rs : List Ref)
    (hf : Transfers kept (f ()).run rest give) :
    Transfers kept (ExceptT.lift (Heap.decRefs rs) >>= f).run (↑rs + rest) give := by
  have hr : Transfers kept (Heap.decRefs rs) (↑rs + rest) (fun _ => rest) :=
    (decRefs rs).frame.congr rfl (fun _ => zero_add rest)
  exact run_lift_bind hr (fun _ => hf)

lemma run_release {ε α : Type} {rest : Multiset Ref} {f : Unit → ExceptT ε HeapM α}
    {give : Except ε α → Multiset Ref} (r : Ref) (hf : Transfers kept (f ()).run rest give) :
    Transfers kept (ExceptT.lift (Heap.decRef r) >>= f).run ({r} + rest) give := by
  rw [decRef_eq_decRefs]
  exact run_releases [r] hf

/-- The objects that are always there can be handed out at any time. -/
lemma singleton {r : Ref} {o : Object} (ho : singletons[r.index]? = some o) :
    Transfers kept (pure r : EStateM Misuse σ Ref) 0 (fun r => {r}) := by
  intro s others _ hc
  rw [zero_add] at hc
  exact ⟨r, s, rfl, .of_immortal hc (hc.singleton r.index o ho) rfl⟩

/-- A new object takes its references over, also where the allocation is refused. -/
lemma allocate (o : Object) :
    Transfers kept (Heap.allocate o).run o.children (ofOutcome (fun r => {r}) 0) := by
  intro h others hk hc
  cases ht : h.tracker.charge o.size with
  | error e =>
    obtain ⟨h', hd, htrade⟩ := Trade.decRefs hc
    refine ⟨.error e, h', ?_, htrade⟩
    have hcharge : (charge o).run h = .ok (.error e) h := by rw [charge_run, ht]
    refine run_bind_raised ((run_tryCatch_raised hcharge).trans ?_)
    exact run_bind_ok (a := ()) (bind_ok hd)
  | ok t =>
    have hcharge : (charge o).run h = .ok (.ok ()) { h with tracker := t } := by
      rw [charge_run, ht]
    have hp := hc.withTracker t |>.placed ⟨1, false, o⟩
    exact ⟨.ok _, _, run_bind_ok (run_tryCatch_ok hcharge), .placed hc ht hp⟩

lemma create (o : Object) :
    Transfers kept (Heap.create o).run o.children (ofOutcome (fun r => {r}) 0) :=
  run_adapt (allocate o)

/-- Runtimes transfer on their heap. -/
lemma onHeap {α : Type} {x : HeapM α} {take : Multiset Ref} {give : α → Multiset Ref}
    (hx : Transfers kept x take give) : Transfers kept (Context.onHeap x) take give := by
  intro c others hk hc
  obtain ⟨a, h', hrun, ht⟩ := hx c.heap others hk hc
  exact ⟨a, { c with heap := h' }, Context.onHeap_ok hrun, ht⟩

end Operations

end Transfers

end Heap

end NativeCall
