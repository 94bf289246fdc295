import NativeCall.Heap.DictItems
import NativeCall.Heap.Repr
import NativeCall.Heap.Slots
import NativeCall.Proofs.Heap.History

/-!
# What operations do to a heap

`Causes p x` says that whatever state `x` starts in, there is a history of what it does to the heap
until it ends or stops, and every event of this history satisfies `p`. Since an operation may stop
at a wrong reference after half of its work, the state that counts is `after x s`, the last one.

Releasing references causes events of counting and no others (`Causes.drain`). What marshals, by
allocating, interning, entering levels and releasing, changes no object in its slot; so it respects
every relation that changes may be held to (`Marshals`). Both notions go along with sequences of
operations, so each operation has one lemma that follows its definition.

## Why the start is not restricted

There is no precondition on the state, not even that references denote anything. That costs little:
an operation on a wrong reference stops, and the history of what it did until then is empty or that
of the rounds before. It pays in that `Causes` can be composed without a look at what a first
operation leaves behind, so that the lemma of an operation has the shape of the definition, bind by
bind and branch by branch. Statements that do need a precondition, such as who owns what afterwards,
are about `Transfers` and in another module.

The relation `allowed` is a parameter of `Marshals` for the sake of the callers. A build respects
every relation, because it changes nothing in place. A native function may append to lists, and
respects just those relations that allow it; the history of a whole run then respects what all of
its parts do.

## Families of operations

Operations on dicts are made of five others, and what is proved of those five often extends to all
that is done with dicts: that nothing is charged, that the heap is marshalled, that an error stays
where it was. `HandlesDicts K` is the list of what is needed for a kind `K`, and the lemmas in its
namespace follow the definitions once for all kinds.
-/

namespace NativeCall

/-- The state in which an operation ends or stops. -/
def after {ε σ α : Type} (x : EStateM ε σ α) (s : σ) : σ :=
  match x s with
  | .ok _ s' => s'
  | .error _ s' => s'

section After

variable {ε σ α β : Type} {x : EStateM ε σ α} {s s' : σ}

lemma after_ok {a : α} (hx : x s = .ok a s') : after x s = s' := by
  rw [after, hx]

lemma after_stopped {e : ε} (hx : x s = .error e s') : after x s = s' := by
  rw [after, hx]

/-- Runs with the same outcome end in the same state. -/
lemma after_eq {x y : EStateM ε σ α} {s t : σ} (hxy : x s = y t) : after x s = after y t := by
  rw [after, after, hxy]

lemma after_map (f : α → β) (x : EStateM ε σ α) (s : σ) : after (f <$> x) s = after x s := by
  show after (EStateM.map f x) s = after x s
  rw [after, after, EStateM.map]
  cases x s <;> rfl

/-- An operation on the heap of a runtime leaves the rest of it alone. -/
lemma after_onHeap_eq (x : HeapM α) (c : Context) :
    after (Context.onHeap x) c = { c with heap := after x c.heap } := by
  rw [after, after, Context.onHeap]
  cases x c.heap <;> rfl

/-- What leads from each state to a later one goes along with sequences, if later than later is
later. -/
lemma sequential_of_trans {later : σ → σ → Prop} (hrefl : ∀ s, later s s)
    (htrans : ∀ {s s₁ s₂}, later s s₁ → later s₁ s₂ → later s s₂) :
    Sequential (fun _ (x : EStateM ε σ _) => ∀ s, later s (after x s)) where
  ret _ := hrefl
  bind_of {α β x f} hx hf := by
    intro s
    have hfirst := hx s
    cases hrun : x s with
    | error e s' =>
      rw [after_stopped hrun] at hfirst
      rwa [after_stopped (bind_stopped hrun)]
    | ok a s' =>
      rw [after_ok hrun] at hfirst
      rw [after_eq (bind_ok hrun)]
      exact htrans hfirst (hf s a s' hrun s')

end After

namespace Heap

/-- All that an operation does to the heap is a history of events that satisfy `p`. -/
def Causes {σ α : Type} [HasHeap σ] (p : Event → Prop) (x : EStateM Misuse σ α) : Prop :=
  ∀ s, ∃ log, History (heap s) log (heap (after x s)) ∧ ∀ event ∈ log, p event

/-- An operation that changes objects in their slots only where that is allowed. -/
def Marshals {σ α : Type} [HasHeap σ] (allowed : Object → Object → Prop)
    (x : EStateM Misuse σ α) : Prop :=
  Causes (Event.Respects allowed) x

/-! ## Rules -/

namespace Causes

section Rules

variable {σ α β ε : Type} [HasHeap σ] {p q : Event → Prop}

lemma mono {x : EStateM Misuse σ α} (hx : Causes p x) (hpq : ∀ event, p event → q event) :
    Causes q x := by
  intro s
  obtain ⟨log, hl, hp⟩ := hx s
  exact ⟨log, hl, fun event he => hpq event (hp event he)⟩

/-- An operation that leaves the heap alone. -/
lemma of_same {x : EStateM Misuse σ α} (hx : ∀ s, heap (after x s) = heap s) : Causes p x :=
  fun s => History.exists_nil (hx s)

/-- Histories go on where the one before ended, so what causes events goes along with sequences. -/
lemma sequential : Sequential (fun _ (x : EStateM Misuse σ _) => Causes p x) := by
  let later (s s' : σ) : Prop :=
    ∃ log, History (heap s) log (heap s') ∧ ∀ event ∈ log, p event
  show Sequential (fun _ (x : EStateM Misuse σ _) => ∀ s, later s (after x s))
  exact sequential_of_trans (fun _ => History.exists_nil rfl) History.exists_append

lemma ret (a : α) : Causes p (pure a : EStateM Misuse σ α) :=
  sequential.ret a

lemma bind {x : EStateM Misuse σ α} {f : α → EStateM Misuse σ β} (hx : Causes p x)
    (hf : ∀ a, Causes p (f a)) : Causes p (x >>= f) :=
  sequential.bind hx hf

lemma map {x : EStateM Misuse σ α} (f : α → β) (hx : Causes p x) : Causes p (f <$> x) :=
  sequential.map f hx

lemma forM {β : Type} {f : β → EStateM Misuse σ PUnit} (hf : ∀ b, Causes p (f b)) (bs : List β) :
    Causes p (bs.forM f) :=
  sequential.forM hf bs

lemma mapM {f : β → EStateM Misuse σ α} (hf : ∀ b, Causes p (f b)) (bs : List β) :
    Causes p (bs.mapM f) :=
  sequential.mapM hf bs

/-- Runtimes do to their heap what their heap operations do. -/
lemma onHeap {x : HeapM α} (hx : Causes p x) : Causes p (Context.onHeap x) := by
  intro c
  rw [after_onHeap_eq]
  exact hx c.heap

variable {x : ExceptT ε (EStateM Misuse σ) α}

lemma run_pure (a : α) : Causes p (pure a : ExceptT ε (EStateM Misuse σ) α).run :=
  sequential.run_pure a

lemma run_throw (e : ε) : Causes p (throw e : ExceptT ε (EStateM Misuse σ) α).run :=
  sequential.run_throw e

lemma run_bind {f : α → ExceptT ε (EStateM Misuse σ) β} (hx : Causes p x.run)
    (hf : ∀ a, Causes p (f a).run) : Causes p (x >>= f).run :=
  sequential.run_bind hx hf

lemma run_tryCatch {f : ε → ExceptT ε (EStateM Misuse σ) α} (hx : Causes p x.run)
    (hf : ∀ e, Causes p (f e).run) : Causes p (tryCatch x f).run :=
  sequential.run_tryCatch hx hf

lemma run_lift {x : EStateM Misuse σ α} (hx : Causes p x) :
    Causes p (ExceptT.lift x : ExceptT ε (EStateM Misuse σ) α).run :=
  sequential.run_lift hx

lemma run_lift_bind {x : EStateM Misuse σ α} {f : α → ExceptT ε (EStateM Misuse σ) β}
    (hx : Causes p x) (hf : ∀ a, Causes p (f a).run) : Causes p (ExceptT.lift x >>= f).run :=
  sequential.run_lift_bind hx hf

lemma run_adapt {ε' : Type} {f : ε → ε'} (hx : Causes p x.run) :
    Causes p (ExceptT.adapt f x).run :=
  sequential.run_adapt hx

lemma run_mapM {f : β → ExceptT ε (EStateM Misuse σ) α} (hf : ∀ b, Causes p (f b).run)
    (bs : List β) : Causes p (bs.mapM f).run :=
  sequential.run_mapM hf bs

lemma run_liftExcept (e : Except ε α) :
    Causes p (liftExcept e : ExceptT ε (EStateM Misuse σ) α).run :=
  sequential.run_liftExcept e

/-- Looking at the state changes nothing. -/
lemma run_look {f : σ → ExceptT ε (EStateM Misuse σ) β} (hf : ∀ s, Causes p (f s).run) :
    Causes p ((ExceptT.lift (getThe σ) : ExceptT ε (EStateM Misuse σ) σ) >>= f).run :=
  run_lift_bind (of_same (fun _ => rfl)) hf

end Rules

/-! ## Counting references -/

section Counting

variable {h : Heap} {p : Event → Prop}

lemma demand (op : HeapOp) (r : Ref) : Causes p (Heap.demand op r) := by
  refine of_same (fun h => ?_)
  show after (Heap.demand op r) h = h
  unfold after Heap.demand
  cases h.slots[r.index]? with
  | none => rfl
  | some slot => cases slot <;> rfl

lemma get (r : Ref) : Causes p (Heap.get r) :=
  map (·.object) (demand .get r)

/-- Something happens to the object of a live slot, or nothing at all. -/
lemma of_slot {α : Type} {x : HeapM α} (r : Ref)
    (hnone : ∀ h, h.slot? r = none → after x h = h)
    (hsome : ∀ h e, h.slot? r = some e →
      after x h = h ∨ ∃ event, p event ∧ Happens h event (after x h)) : Causes p x := by
  intro h
  cases hs : h.slot? r with
  | none => exact History.exists_nil (hnone h hs)
  | some e =>
    rcases hsome h e hs with hsame | ⟨event, hp, hev⟩
    · exact History.exists_nil hsame
    · exact History.exists_single hev hp

lemma incRef (r : Ref) : Causes (fun event => event.isCounting = true) (Heap.incRef r) := by
  refine of_slot r (fun h hs => ?_) (fun h e hs => ?_)
  · obtain ⟨m, hm⟩ : ∃ m, Heap.demand .incRef r h = .error m h := demand_of_slot?_eq_none hs
    exact after_stopped (bind_stopped hm)
  · have hrun : Heap.incRef r h = _ := bind_ok (demand_of_slot? hs)
    by_cases hi : e.immortal = true
    · left
      rw [if_pos hi] at hrun
      exact after_ok hrun
    · right
      rw [if_neg hi] at hrun
      refine ⟨.recounted r, rfl, ?_⟩
      rw [after_ok hrun]
      exact .recounted hs (Bool.eq_false_iff.mpr hi) _

lemma retain (r : Ref) : Causes (fun event => event.isCounting = true) (Heap.retain r) :=
  bind (incRef r) (fun _ => ret _)

lemma dropReference (r : Ref) :
    Causes (fun event => event.isCounting = true) (Heap.dropReference r) := by
  refine of_slot r (fun h hs => ?_) (fun h e hs => ?_)
  · obtain ⟨m, hm⟩ : ∃ m, Heap.demand .decRef r h = .error m h := demand_of_slot?_eq_none hs
    exact after_stopped (bind_stopped hm)
  · have hrun := dropReference_eq hs
    by_cases hi : e.immortal = true
    · left
      rw [if_pos hi] at hrun
      exact after_ok hrun
    · right
      rw [if_neg hi] at hrun
      have hm := Bool.eq_false_iff.mpr hi
      by_cases h1 : 1 < e.refs
      · rw [if_pos h1] at hrun
        refine ⟨.recounted r, rfl, ?_⟩
        rw [after_ok hrun]
        exact .recounted hs hm _
      · rw [if_neg h1] at hrun
        refine ⟨.freed r e.object, rfl, ?_⟩
        rw [after_ok hrun]
        exact .freed hs hm

/-- The loop drops one reference in each round, until none is left or one is wrong. -/
lemma drain (rs : List Ref) :
    Causes (fun event => event.isCounting = true) (Heap.drain rs : HeapM Unit) := by
  -- A round drops one reference, and the rest of the loop begins where the round ended. The
  -- references that it set free join those that wait, so the induction is on the rounds and not on
  -- the list.
  have hround : ∀ {h h₁ : Heap} {r : Ref} {o : Option Object} {rest : List Ref},
      Heap.dropReference r h = .ok o h₁ →
      (∃ log, History h₁ log (after (Heap.drain ((released o).reverse ++ rest)) h₁) ∧
        ∀ event ∈ log, event.isCounting = true) →
      ∃ log, History h log (after (Heap.drain (r :: rest)) h) ∧
        ∀ event ∈ log, event.isCounting = true := by
    intro h h₁ r o rest hd hrest
    have hfirst := dropReference r h
    rw [after_ok hd] at hfirst
    rw [after_eq (drain_cons hd rest)]
    exact History.exists_append hfirst hrest
  intro h
  show ∃ log, History h log (after (Heap.drain rs) h) ∧ _
  induction rs, h using Heap.drain.induct with
  | case1 h =>
    have hdone : Heap.drain [] h = .ok () h := by rw [Heap.drain]
    exact History.exists_nil (after_ok hdone)
  | case2 h r rest m h₁ hd =>
    have hfirst := dropReference r h
    rw [after_stopped hd] at hfirst
    rw [after_stopped (drain_stopped hd rest)]
    exact hfirst
  | case3 h r rest h₁ hd ih => exact hround hd ih
  | case4 h r rest o h₁ hd ih => exact hround hd ih

lemma decRef (r : Ref) : Causes (fun event => event.isCounting = true) (Heap.decRef r) :=
  drain [r]

lemma decRefs (rs : List Ref) : Causes (fun event => event.isCounting = true) (Heap.decRefs rs) :=
  forM decRef rs

lemma releaseStorage (r : Ref) :
    Causes (fun event => event.isCounting = true) (Heap.releaseStorage r) := by
  intro h
  cases hs : h.slot? r with
  | none =>
    obtain ⟨m, hm⟩ : ∃ m, Heap.demand .releaseStorage r h = .error m h :=
      demand_of_slot?_eq_none hs
    have hstop : Heap.releaseStorage r h = .error m h := bind_stopped hm
    exact History.exists_nil (after_stopped hstop)
  | some e =>
    have hrun : Heap.releaseStorage r h = _ := bind_ok (demand_of_slot? hs)
    by_cases hi : e.immortal = true
    · rw [if_pos hi] at hrun
      exact History.exists_nil (after_ok hrun)
    · rw [if_neg hi] at hrun
      rw [after_eq hrun]
      exact History.exists_append
        (History.exists_single (.freed hs (Bool.eq_false_iff.mpr hi)) rfl)
        (drain e.object.children.reverse (h.vacate r e.object))

end Counting

/-- Counting references changes no object. -/
lemma marshals {σ α : Type} [HasHeap σ] {x : EStateM Misuse σ α}
    (hx : Causes (fun event => event.isCounting = true) x) (allowed : Object → Object → Prop) :
    Marshals allowed x :=
  hx.mono (fun _ he => .of_isCounting he)

end Causes

/-! ## Allocating and interning -/

section Granting

variable {h h' : Heap} {o : Object}

/-- A refused allocation releases what the object would have taken over. -/
lemma allocate_refused {e : ResourceError} (ht : h.tracker.charge o.size = .error e) :
    after (allocate o).run h = after (decRefs o.children) h := by
  have hcharge : (charge o).run h = .ok (.error e) h := by rw [charge_run, ht]
  cases hd : decRefs o.children h with
  | ok a h₁ =>
    have hrun : (allocate o).run h = .ok (.error e) h₁ := by
      refine run_bind_raised ((run_tryCatch_raised hcharge).trans ?_)
      exact run_bind_ok (a := ()) (bind_ok hd)
    rw [after_ok hd, after_ok hrun]
  | error m h₁ =>
    have hrun : (allocate o).run h = .error m h₁ := by
      refine bind_stopped ((run_tryCatch_raised hcharge).trans ?_)
      exact bind_stopped (bind_stopped hd)
    rw [after_stopped hd, after_stopped hrun]

lemma allocate_paid {t : Tracker} (ht : h.tracker.charge o.size = .ok t) :
    ∃ r h', (allocate o).run h = .ok (.ok r) h' := by
  have hcharge : (charge o).run h = .ok (.ok ()) { h with tracker := t } := by
    rw [charge_run, ht]
  exact ⟨_, _, run_bind_ok (run_tryCatch_ok hcharge)⟩

lemma intern_known {text : String} {r : Ref} (hr : h.internedRef? text = some r) :
    (intern text).run h = .ok (.ok r) h := by
  refine (run_bind_ok (run_getThe h)).trans ?_
  simp only [hr]
  rfl

lemma intern_refused {text : String} {e : ResourceError} (hr : h.internedRef? text = none)
    (ht : h.tracker.charge (Object.str text).size = .error e) :
    (intern text).run h = .ok (.error e) h := by
  have hcharge : (charge (.str text)).run h = .ok (.error e) h := by rw [charge_run, ht]
  refine (run_bind_ok (run_getThe h)).trans ?_
  simp only [hr]
  exact run_bind_raised hcharge

lemma intern_paid {text : String} {t : Tracker} (hr : h.internedRef? text = none)
    (ht : h.tracker.charge (Object.str text).size = .ok t) :
    ∃ r h', (intern text).run h = .ok (.ok r) h' := by
  have hcharge : (charge (.str text)).run h = .ok (.ok ()) { h with tracker := t } := by
    rw [charge_run, ht]
  let placed := ({ h with tracker := t } : Heap).place ⟨1, true, .str text⟩
  refine ⟨placed.1, { placed.2 with interned := (text, placed.1) :: placed.2.interned }, ?_⟩
  refine (run_bind_ok (run_getThe h)).trans ?_
  simp only [hr]
  exact run_bind_ok hcharge

end Granting

/-! ## What dicts are made with -/

/-- What dicts are made with is of the kind `K`: objects are read, references released, and levels
of nested data entered and left. -/
structure HandlesDicts (K : (α : Type) → HeapM α → Prop) : Prop extends Sequential K where
  get : ∀ r, K Object (Heap.get r)
  decRef : ∀ r, K Unit (Heap.decRef r)
  levels : K Nat (fun h => .ok h.levels h)
  enterLevel : K Bool Heap.enterLevel
  exitLevel : K Unit Heap.exitLevel

namespace HandlesDicts

variable {K : (α : Type) → HeapM α → Prop}

lemma projectionWith (hK : HandlesDicts K) (fuel : Nat) (r : Ref) :
    K _ (Heap.projectionWith fuel r).run := by
  induction fuel generalizing r with
  | zero => exact hK.run_throw _
  | succ fuel ih =>
    refine hK.run_lift_bind (hK.get r) (fun o => ?_)
    cases o with
    | tuple items =>
      have hitems : K _ (items.mapM (Heap.projectionWith fuel)).run := hK.run_mapM ih items
      refine hK.run_lift_bind hK.enterLevel (fun entered => ?_)
      cases entered with
      | false => exact hK.run_throw _
      | true =>
        refine hK.run_lift_bind hitems (fun keys => ?_)
        refine hK.run_lift_bind hK.exitLevel (fun _ => ?_)
        exact hK.run_bind (hK.run_liftExcept keys) (fun _ => hK.run_pure _)
    | list | dict => exact hK.run_throw _
    | _ => exact hK.run_pure _

lemma projection (hK : HandlesDicts K) (r : Ref) : K _ (Heap.projection r).run :=
  hK.run_lift_bind hK.levels (fun n => hK.projectionWith (n + 1) r)

lemma decRefs (hK : HandlesDicts K) (rs : List Ref) : K _ (Heap.decRefs rs) :=
  hK.forM hK.decRef rs

lemma setItem (hK : HandlesDicts K) (d : Dict) (key value : Ref) :
    K _ (Heap.setItem d key value).run := by
  have hprojected : K _ (tryCatch (Heap.projection key) (fun e => do
      Heap.decRef key; Heap.decRef value; throw e)).run := by
    refine hK.run_tryCatch (hK.projection key) (fun e => ?_)
    exact hK.run_lift_bind (hK.decRef key) (fun _ =>
      hK.run_lift_bind (hK.decRef value) (fun _ => hK.run_throw e))
  refine hK.run_bind hprojected (fun k => ?_)
  cases d.find? k with
  | none => exact hK.run_pure _
  | some old =>
    exact hK.run_lift_bind (hK.decRef old.value) (fun _ =>
      hK.run_lift_bind (hK.decRef key) (fun _ => hK.run_pure _))

lemma addPairs (hK : HandlesDicts K) (items : List Ref) (d : Dict) :
    K _ (Heap.addPairs d items).run := by
  induction d, items using Heap.addPairs.induct with
  | case1 d => exact hK.run_pure _
  | case2 d key => exact hK.run_lift_bind (hK.decRef key) (fun _ => hK.run_pure _)
  | case3 d key value rest ih =>
    have hset : K _ (tryCatch (Heap.setItem d key value) (fun e => do
        Heap.decRefs rest; Heap.releaseDict d; throw e)).run := by
      refine hK.run_tryCatch (hK.setItem d key value) (fun e => ?_)
      exact hK.run_lift_bind (hK.decRefs rest) (fun _ =>
        hK.run_lift_bind (hK.decRefs d.refs) (fun _ => hK.run_throw e))
    exact hK.run_bind hset ih

lemma dictOfPairs (hK : HandlesDicts K) (items : List Ref) : K _ (Heap.dictOfPairs items).run :=
  hK.addPairs items .empty

end HandlesDicts

namespace Marshals

variable {allowed : Object → Object → Prop}

lemma allocate (o : Object) : Marshals allowed (Heap.allocate o).run := by
  intro h
  cases ht : h.tracker.charge o.size with
  | error e =>
    rw [allocate_refused ht]
    exact (Causes.decRefs o.children).marshals allowed h
  | ok t =>
    obtain ⟨r, h', hrun⟩ := allocate_paid ht
    rw [after_ok hrun]
    exact History.exists_single (.allocated hrun) trivial

lemma intern (text : String) : Marshals allowed (Heap.intern text).run := by
  intro h
  cases hr : h.internedRef? text with
  | some r => exact History.exists_nil (after_ok (intern_known hr))
  | none =>
    cases ht : h.tracker.charge (Object.str text).size with
    | error e => exact History.exists_nil (after_ok (intern_refused hr ht))
    | ok t =>
      obtain ⟨r, h', hrun⟩ := intern_paid hr ht
      rw [after_ok hrun]
      exact History.exists_single (.interned hr hrun) trivial

lemma decRef (r : Ref) : Marshals allowed (Heap.decRef r) :=
  (Causes.decRef r).marshals allowed

lemma decRefs (rs : List Ref) : Marshals allowed (Heap.decRefs rs) :=
  (Causes.decRefs rs).marshals allowed

lemma incRef (r : Ref) : Marshals allowed (Heap.incRef r) :=
  (Causes.incRef r).marshals allowed

/-! ## Making values -/

lemma create (o : Object) : Marshals allowed (Heap.create o).run :=
  Causes.run_adapt (allocate o)

lemma newTuple (items : List Ref) : Marshals allowed (Heap.newTuple items).run := by
  cases items with
  | nil => exact Causes.run_pure _
  | cons r items => exact create _

/-! ## Levels and keys -/

lemma setLevels {α : Type} {x : HeapM α} (hx : ∀ h, ∃ n, after x h = { h with levels := n }) :
    Marshals allowed x := by
  intro h
  obtain ⟨n, hn⟩ := hx h
  rw [hn]
  exact History.exists_single (.leveled n) trivial

lemma enterLevel : Marshals allowed Heap.enterLevel := by
  refine setLevels (fun h => ?_)
  cases hl : h.levels with
  | zero => exact ⟨h.levels, after_ok (enterLevel_of_levels_zero hl)⟩
  | succ n => exact ⟨n, after_ok (enterLevel_of_levels_succ hl)⟩

lemma exitLevel : Marshals allowed Heap.exitLevel :=
  setLevels (fun h => ⟨h.levels + 1, rfl⟩)

lemma handlesDicts (allowed : Object → Object → Prop) :
    HandlesDicts (fun _ x => Marshals allowed x) where
  toSequential := Causes.sequential
  get r := Causes.get r
  decRef r := decRef r
  levels := Causes.of_same (fun _ => rfl)
  enterLevel := enterLevel
  exitLevel := exitLevel

lemma projection (r : Ref) : Marshals allowed (Heap.projection r).run :=
  (handlesDicts allowed).projection r

lemma reprWith (fuel : Nat) (r : Ref) : Marshals allowed (Heap.reprWith fuel r) := by
  -- Whatever an object is rendered as, the level that was entered for it is left at the end.
  have hleave : ∀ text : String,
      Marshals allowed (Heap.exitLevel >>= fun _ => (pure text : HeapM String)) :=
    fun text => Causes.bind exitLevel (fun _ => Causes.ret _)
  induction fuel generalizing r with
  | zero => exact Causes.ret _
  | succ fuel ih =>
    refine Causes.bind enterLevel (fun entered => ?_)
    cases entered with
    | false => exact Causes.ret _
    | true =>
      refine Causes.bind (Causes.get r) (fun o => ?_)
      cases o with
      | tuple items => exact Causes.bind (Causes.mapM ih items) (fun texts => hleave _)
      | list store => exact Causes.bind (Causes.mapM ih store.items) (fun texts => hleave _)
      | dict d =>
        refine Causes.bind (Causes.mapM (fun e => ?_) d.entries) (fun texts => hleave _)
        exact Causes.bind (ih e.keyRef) (fun _ => Causes.bind (ih e.value) (fun _ => Causes.ret _))
      | _ => exact hleave _

lemma repr (r : Ref) : Marshals allowed (Heap.repr r) :=
  Causes.bind (Causes.of_same (fun _ => rfl)) (fun h => reprWith (h.levels + 1) r)

/-! ## Dicts -/

lemma setItem (d : Dict) (key value : Ref) : Marshals allowed (Heap.setItem d key value).run :=
  (handlesDicts allowed).setItem d key value

lemma releaseDict (d : Dict) : Marshals allowed (Heap.releaseDict d) :=
  decRefs d.refs

lemma dictOfPairs (items : List Ref) : Marshals allowed (Heap.dictOfPairs items).run :=
  (handlesDicts allowed).dictOfPairs items

/-! ## Slot builders -/

lemma setBuilderSlot (b : SlotBuilder) (i : Nat) (r : Ref) : Marshals allowed (b.set i r).run := by
  rw [SlotBuilder.set]
  cases b.slots[i]? with
  | none => exact Causes.run_lift_bind (decRef r) (fun _ => Causes.run_throw _)
  | some old =>
    cases old with
    | none => exact Causes.run_pure _
    | some q => exact Causes.run_lift_bind (decRef q) (fun _ => Causes.run_pure _)

lemma cancelBuilder (b : SlotBuilder) : Marshals allowed b.cancel :=
  decRefs b.owned

lemma buildBuilder (b : SlotBuilder) : Marshals allowed b.build.run := by
  rw [SlotBuilder.build]
  cases b.firstUnset? with
  | some i => exact Causes.run_lift_bind (cancelBuilder b) (fun _ => Causes.run_throw _)
  | none =>
    cases b.kind with
    | tuple => exact newTuple b.owned
    | list => exact create _

end Marshals

end Heap

end NativeCall
