import NativeCall.Proofs.Heap.Effects

/-!
# Operations that do not ask

A charge is the only thing that limits have a say in. What an operation makes of a state without
charging anything is the same under any other limits, and the number of allocations that the meter
has counted is the same afterwards; such operations are `Quiet`. The other way round, nothing quiet
can have charged something: a charge that is granted counts, and under limits that forbid it it does
not.

Objects can be read, retained, released, and filed in dicts without a charge, so all that builds and
binds do between one charge and the next is quiet. As with other kinds of operations, each one has a
lemma that follows its definition.

The statement compares two runs, one under the limits that are in force and one under any others.
Saying that the tracker's record of allocations stays would not be enough, since an operation might
look at the limits and do something else because of what it sees, and saying that the two runs agree
would not be enough either, since both might count. Together they make a call's first charge the
first place at which limits can matter, which is what refusals are measured by.

The comparison has to survive a loop whose body depends on the heap. The references that wait in
`drain` are computed from what was freed; they are the same in both runs because the heaps differ in
their trackers only, and the tracker is not asked what to free.
-/

namespace NativeCall

open Heap

/-! ## Other limits -/

namespace Tracker

/-- A tracker that has counted the same under other limits. One without limits stays as it is. -/
def withLimits (limits : Limits) : Tracker → Tracker
  | unlimited => unlimited
  | limited m => limited { m with limits := limits }

variable (limits : Limits) (t : Tracker) (n : Nat)

@[simp] lemma credit_withLimits :
    (t.withLimits limits).credit n = (t.credit n).withLimits limits := by
  cases t <;> rfl

@[simp] lemma allocations?_credit : (t.credit n).allocations? = t.allocations? := by
  cases t <;> rfl

@[simp] lemma allocations?_withLimits : (t.withLimits limits).allocations? = t.allocations? := by
  cases t <;> rfl

end Tracker

/-- States that hold a heap, and hold it just as well under other limits. -/
class HasLimits (σ : Type) extends HasHeap σ where
  withLimits : Limits → σ → σ

instance : HasLimits Heap where
  withLimits limits h := { h with tracker := h.tracker.withLimits limits }

instance : HasLimits Context where
  withLimits limits c := { c with
    heap := { c.heap with tracker := c.heap.tracker.withLimits limits } }

export HasLimits (withLimits)

/-- The same result in another state. -/
def mapState {ε σ α : Type} (f : σ → σ) :
    EStateM.Result ε σ α → EStateM.Result ε σ α
  | .ok a s => .ok a (f s)
  | .error e s => .error e (f s)

/-! ## Quiet operations -/

/-- What the operation does has nothing to do with limits: under other limits it does the same, and
it counts no allocation. -/
structure Quiet {σ α : Type} [HasLimits σ] (x : EStateM Misuse σ α) : Prop where
  same : ∀ limits s, x (withLimits limits s) = mapState (withLimits limits) (x s)
  counts : ∀ s, (heap (after x s)).tracker.allocations? = (heap s).tracker.allocations?

namespace Quiet

section Rules

variable {σ α β : Type} [HasLimits σ]

lemma sequential : Sequential (fun _ (x : EStateM Misuse σ _) => Quiet x) where
  ret _ := ⟨fun _ _ => rfl, fun _ => rfl⟩
  bind_of {α β x f} hx hf := by
    refine ⟨fun limits s => ?_, fun s => ?_⟩
    -- A first part that stops under some limits stops under all of them, so the second part is
    -- reached in both runs or in none.
    · have hfirst := hx.same limits s
      cases hrun : x s with
      | error m s' =>
        rw [hrun] at hfirst
        rw [bind_stopped hrun, bind_stopped hfirst]
        rfl
      | ok a s' =>
        rw [hrun] at hfirst
        rw [bind_ok hrun, bind_ok hfirst]
        exact (hf s a s' hrun).same limits s'
    · have hfirst := hx.counts s
      cases hrun : x s with
      | error m s' =>
        rw [after_stopped hrun] at hfirst
        rwa [after_stopped (bind_stopped hrun)]
      | ok a s' =>
        rw [after_ok hrun] at hfirst
        rw [after_eq (bind_ok hrun)]
        exact ((hf s a s' hrun).counts s').trans hfirst

/-- Looking at something that is not about limits. -/
lemma of_look {g : σ → α} (hg : ∀ limits s, g (withLimits limits s) = g s) :
    Quiet (fun s => .ok (g s) s : EStateM Misuse σ α) where
  same limits s := by
    show EStateM.Result.ok _ _ = EStateM.Result.ok _ _
    rw [hg]
  counts _ := rfl

/-- What is done depends on the state, but not on the limits. -/
lemma run_look {ε : Type} {f : σ → ExceptT ε (EStateM Misuse σ) β}
    (hsame : ∀ limits s, f (withLimits limits s) = f s) (hf : ∀ s, Quiet (f s).run) :
    Quiet ((ExceptT.lift (getThe σ) : ExceptT ε (EStateM Misuse σ) σ) >>= f).run where
  same limits s := by
    show (f (withLimits limits s)).run (withLimits limits s) =
      mapState (withLimits limits) ((f s).run s)
    rw [hsame]
    exact (hf s).same limits s
  counts s := (hf s).counts s

/-- A change that has nothing to do with limits. -/
lemma of_modify {f : σ → σ} (hf : ∀ limits s, f (withLimits limits s) = withLimits limits (f s))
    (hcounts : ∀ s, (heap (f s)).tracker.allocations? = (heap s).tracker.allocations?) :
    Quiet (modify f : EStateM Misuse σ PUnit) where
  same limits s := congrArg (EStateM.Result.ok PUnit.unit) (hf limits s)
  counts := hcounts

end Rules

/-! ## Heap operations -/

section Operations

variable {α : Type}

lemma demand (op : HeapOp) (r : Ref) : Quiet (Heap.demand op r) where
  same limits h := by
    have hslots : (withLimits limits h).slots = h.slots := rfl
    unfold Heap.demand
    rw [hslots]
    cases h.slots[r.index]? with
    | none => rfl
    | some slot => cases slot <;> rfl
  counts h := by
    unfold after Heap.demand
    cases h.slots[r.index]? with
    | none => rfl
    | some slot => cases slot <;> rfl

lemma get (r : Ref) : Quiet (Heap.get r) :=
  sequential.map _ (demand .get r)

lemma setSlot (r : Ref) (s : Option Entry) :
    Quiet (modify (·.setSlot r s) : HeapM PUnit) :=
  of_modify (fun _ _ => rfl) (fun _ => rfl)

lemma vacate (r : Ref) (o : Object) : Quiet (modify (·.vacate r o) : HeapM PUnit) := by
  refine of_modify (fun limits h => ?_) (fun h => Tracker.allocations?_credit h.tracker o.size)
  show ({ h.vacate r o with tracker := (h.tracker.withLimits limits).credit o.size } : Heap) = _
  rw [Tracker.credit_withLimits]
  rfl

lemma incRef (r : Ref) : Quiet (Heap.incRef r) := by
  refine sequential.bind (demand .incRef r) (fun e => ?_)
  by_cases hi : e.immortal = true
  · rw [if_pos hi]
    exact sequential.ret _
  · rw [if_neg hi]
    exact setSlot r _

lemma retain (r : Ref) : Quiet (Heap.retain r) :=
  sequential.bind (incRef r) (fun _ => sequential.ret r)

lemma dropReference (r : Ref) : Quiet (Heap.dropReference r) := by
  refine sequential.bind (demand .decRef r) (fun e => ?_)
  by_cases hi : e.immortal = true
  · rw [if_pos hi]
    exact sequential.ret _
  · rw [if_neg hi]
    by_cases h1 : 1 < e.refs
    · rw [if_pos h1]
      exact sequential.bind (setSlot r _) (fun _ => sequential.ret _)
    · rw [if_neg h1]
      exact sequential.bind (vacate r _) (fun _ => sequential.ret _)

/-- Every round of the loop is quiet, and the references that wait are the same under all limits. -/
lemma drain (rs : List Ref) : Quiet (Heap.drain rs : HeapM Unit) := by
  have hdrain : ∀ h : Heap, (∀ limits, Heap.drain rs (withLimits limits h) =
      mapState (withLimits limits) (Heap.drain rs h)) ∧
      (after (Heap.drain rs) h).tracker.allocations? = h.tracker.allocations? := by
    intro h
    -- In each round the same reference is dropped in both runs, and sets the same references free.
    have hround : ∀ {h h₁ : Heap} {r : Ref} {o : Option Object} {waiting : List Ref}
        (rest : List Ref), Heap.dropReference r h = .ok o h₁ →
        waiting = (released o).reverse ++ rest →
        (∀ limits, Heap.drain waiting (withLimits limits h₁) =
          mapState (withLimits limits) (Heap.drain waiting h₁)) ∧
        (after (Heap.drain waiting) h₁).tracker.allocations? = h₁.tracker.allocations? →
        (∀ limits, Heap.drain (r :: rest) (withLimits limits h) =
          mapState (withLimits limits) (Heap.drain (r :: rest) h)) ∧
        (after (Heap.drain (r :: rest)) h).tracker.allocations? = h.tracker.allocations? := by
      rintro h h₁ r o _ rest hd rfl ⟨hsame, hcounts⟩
      have hquiet := dropReference r
      refine ⟨fun limits => ?_, ?_⟩
      · have hd' := hquiet.same limits h
        rw [hd] at hd'
        rw [drain_cons hd' rest, drain_cons hd rest, hsame]
      · have hfirst := hquiet.counts h
        rw [after_ok hd] at hfirst
        rw [after_eq (drain_cons hd rest)]
        exact hcounts.trans hfirst
    induction rs, h using Heap.drain.induct with
    | case1 h =>
      have hdone : ∀ h : Heap, Heap.drain [] h = .ok () h := fun h => by rw [Heap.drain]
      refine ⟨fun limits => ?_, ?_⟩
      · rw [hdone, hdone]
        rfl
      · rw [after_ok (hdone h)]
    | case2 h r rest m h₁ hd =>
      refine ⟨fun limits => ?_, ?_⟩
      · have hd' := (dropReference r).same limits h
        rw [hd] at hd'
        rw [drain_stopped hd' rest, drain_stopped hd rest]
        rfl
      · have hfirst := (dropReference r).counts h
        rw [after_stopped hd] at hfirst
        rw [after_stopped (drain_stopped hd rest)]
        exact hfirst
    | case3 h r rest h₁ hd ih => exact hround rest hd rfl ih
    | case4 h r rest o h₁ hd ih => exact hround rest hd rfl ih
  exact ⟨fun limits h => (hdrain h).1 limits, fun h => (hdrain h).2⟩

lemma decRef (r : Ref) : Quiet (Heap.decRef r) :=
  drain [r]

lemma decRefs (rs : List Ref) : Quiet (Heap.decRefs rs) :=
  sequential.forM decRef rs

lemma enterLevel : Quiet Heap.enterLevel where
  same limits h := by
    have hlevels : (withLimits limits h).levels = h.levels := rfl
    unfold Heap.enterLevel
    rw [hlevels]
    cases h.levels <;> rfl
  counts h := by
    unfold after Heap.enterLevel
    cases h.levels <;> rfl

lemma handlesDicts : HandlesDicts (fun _ x => Quiet x) where
  toSequential := sequential
  get := get
  decRef := decRef
  levels := of_look (fun _ _ => rfl)
  enterLevel := enterLevel
  exitLevel := of_modify (fun _ _ => rfl) (fun _ => rfl)

/-- An object that was paid for is put into a slot. -/
lemma insert (o : Object) (immortal : Bool) : Quiet (Heap.insert o immortal) := by
  have hplace : ∀ (limits : Limits) (h : Heap) (e : Entry),
      (withLimits limits h).place e = ((h.place e).1, withLimits limits (h.place e).2) := by
    intro limits h e
    obtain ⟨slots, freeList, tracker, interned, levels⟩ := h
    cases freeList <;> rfl
  refine ⟨fun limits h => ?_, fun h => ?_⟩
  · show EStateM.Result.ok ((withLimits limits h).place _).1 ((withLimits limits h).place _).2 = _
    rw [hplace]
    rfl
  · obtain ⟨slots, freeList, tracker, interned, levels⟩ := h
    cases freeList <;> rfl

/-! ## Operations of runtimes -/

lemma onHeap {x : HeapM α} (hx : Quiet x) : Quiet (Context.onHeap x) where
  same limits c := by
    have hsame := hx.same limits c.heap
    cases hrun : x c.heap with
    | ok a h =>
      rw [hrun] at hsame
      rw [Context.onHeap_ok hrun]
      exact Context.onHeap_ok hsame
    | error m h =>
      rw [hrun] at hsame
      rw [Context.onHeap_stopped hrun]
      exact Context.onHeap_stopped hsame
  counts c := by
    have hcounts := hx.counts c.heap
    rw [after_onHeap_eq]
    exact hcounts

lemma trace (event : TraceEvent) : Quiet (Context.trace event) :=
  of_modify (fun _ _ => rfl) (fun _ => rfl)

lemma takeError : Quiet Context.takeError :=
  ⟨fun _ _ => rfl, fun _ => rfl⟩

end Operations

end Quiet

end NativeCall
