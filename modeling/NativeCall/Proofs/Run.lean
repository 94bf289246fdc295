import Mathlib.Tactic.Lemma
import NativeCall.Context

/-!
# Running operations

Operations of heaps and runtimes are state transformers that stop at a misuse and otherwise hand out
a result, which for an operation that may raise is a value or an error. The lemmas here run a
sequence of two operations from what is known of the first one, so that proofs follow a run step by
step. Those that end in `_inv` go back from the run of a sequence to the runs of its parts.

What is shown of single operations often has to be shown of whatever is made of them. `Sequential`
kinds of operations go along with sequences, and so with every other way of composing operations.

There are two ways to end early, and they are kept apart throughout. An error that is raised is a
result: the state goes on, and a handler may be run on it. A misuse is not: the run is over, no
handler sees it, and the state is of interest only to someone who asks what had happened until then.
In names, `raised` is for the first and `stopped` for the second, and a lemma whose name has neither
is about a first operation that answers with a value.

A kind that is sequential has two rules, for returning and for one operation after another.
Everything else is derived: loops over lists, handlers, operations lifted from one layer to the
next. So a new kind of operations comes with all of these for the price of two proofs. The rule for
a sequence is given the run of its first part, since kinds such as "answers with something that is
alive" do not hold of the second part for all results.
-/

namespace NativeCall

section Sequence

variable {ε σ α β : Type} {x : EStateM ε σ α} {f : α → EStateM ε σ β} {s s' : σ}

lemma bind_ok {a : α} (h : x s = .ok a s') : (x >>= f) s = f a s' := by
  show EStateM.bind x f s = f a s'
  rw [EStateM.bind, h]

lemma bind_stopped {e : ε} (h : x s = .error e s') : (x >>= f) s = .error e s' := by
  show EStateM.bind x f s = .error e s'
  rw [EStateM.bind, h]

lemma bind_inv {b : β} (h : (x >>= f) s = .ok b s') :
    ∃ a t, x s = .ok a t ∧ f a t = .ok b s' := by
  cases hx : x s with
  | ok a t => exact ⟨a, t, rfl, by rwa [bind_ok hx] at h⟩
  | error e t =>
    rw [bind_stopped hx] at h
    cases h

end Sequence

section Raising

variable {ε σ ρ α β : Type} {x : ExceptT ρ (EStateM ε σ) α} {f : α → ExceptT ρ (EStateM ε σ) β}
  {s s' : σ}

lemma run_bind_ok {a : α} (h : x.run s = .ok (.ok a) s') : (x >>= f).run s = (f a).run s' :=
  bind_ok (x := x.run) h

lemma run_bind_raised {e : ρ} (h : x.run s = .ok (.error e) s') :
    (x >>= f).run s = .ok (.error e) s' :=
  bind_ok (x := x.run) h

lemma run_tryCatch_ok {a : α} {g : ρ → ExceptT ρ (EStateM ε σ) α} (h : x.run s = .ok (.ok a) s') :
    (tryCatch x g).run s = .ok (.ok a) s' :=
  bind_ok (x := x.run) h

lemma run_tryCatch_raised {e : ρ} {g : ρ → ExceptT ρ (EStateM ε σ) α}
    (h : x.run s = .ok (.error e) s') : (tryCatch x g).run s = (g e).run s' :=
  bind_ok (x := x.run) h

/-- A sequence ends where its first part raises, or goes on with its second part. -/
lemma run_bind_cases {outcome : Except ρ β} (h : (x >>= f).run s = .ok outcome s') :
    (∃ e, x.run s = .ok (.error e) s' ∧ outcome = .error e) ∨
      ∃ a t, x.run s = .ok (.ok a) t ∧ (f a).run t = .ok outcome s' := by
  obtain ⟨first, t, hx, hf⟩ := bind_inv (x := x.run) h
  cases first with
  | ok a => exact .inr ⟨a, t, hx, hf⟩
  | error e =>
    cases hf
    exact .inl ⟨e, hx, rfl⟩

lemma run_bind_inv {b : β} (h : (x >>= f).run s = .ok (.ok b) s') :
    ∃ a t, x.run s = .ok (.ok a) t ∧ (f a).run t = .ok (.ok b) s' := by
  rcases run_bind_cases h with ⟨e, -, hb⟩ | hok
  · cases hb
  · exact hok

lemma run_tryCatch_inv {a : α} {g : ρ → ExceptT ρ (EStateM ε σ) α}
    (h : (tryCatch x g).run s = .ok (.ok a) s') :
    x.run s = .ok (.ok a) s' ∨
      ∃ e t, x.run s = .ok (.error e) t ∧ (g e).run t = .ok (.ok a) s' := by
  obtain ⟨outcome, t, hx, hg⟩ := bind_inv (x := x.run) h
  cases outcome with
  | ok b =>
    cases hg
    exact .inl hx
  | error e => exact .inr ⟨e, t, hx, hg⟩

lemma run_lift_ok {x : EStateM ε σ α} {a : α} (h : x s = .ok a s') :
    (ExceptT.lift x : ExceptT ρ (EStateM ε σ) α).run s = .ok (.ok a) s' := by
  show EStateM.map Except.ok x s = .ok (.ok a) s'
  rw [EStateM.map, h]

/-- An operation that cannot raise comes first. -/
lemma run_lift_bind_inv {x : EStateM ε σ α} {outcome : Except ρ β}
    (h : (ExceptT.lift x >>= f).run s = .ok outcome s') :
    ∃ a t, x s = .ok a t ∧ (f a).run t = .ok outcome s' := by
  obtain ⟨lifted, t, hx, hf⟩ := bind_inv (x := (ExceptT.lift x).run) h
  obtain ⟨a, t', hx, hlift⟩ := bind_inv (x := x) hx
  cases hlift
  exact ⟨a, t, hx, hf⟩

lemma run_adapt {ρ' : Type} {outcome : Except ρ α} (g : ρ → ρ') (h : x.run s = .ok outcome s') :
    (ExceptT.adapt g x).run s = .ok (outcome.mapError g) s' := by
  show EStateM.map (Except.mapError g) x.run s = _
  rw [EStateM.map, h]

lemma run_mapM_raised {g : α → ExceptT ρ (EStateM ε σ) β} {a : α} {e : ρ}
    (h : (g a).run s = .ok (.error e) s') (as : List α) :
    ((a :: as).mapM g).run s = .ok (.error e) s' := by
  rw [List.mapM_cons]
  exact run_bind_raised h

/-- Where the first element raises nothing, it is the others that decide. -/
lemma run_mapM_cons {g : α → ExceptT ρ (EStateM ε σ) β} {a : α} {b : β} {as : List α} {t : σ}
    {others : Except ρ (List β)} (h : (g a).run s = .ok (.ok b) t)
    (hs : (as.mapM g).run t = .ok others s') :
    ((a :: as).mapM g).run s = .ok (others.map (b :: ·)) s' := by
  rw [List.mapM_cons]
  refine (run_bind_ok h).trans ?_
  cases others with
  | ok bs => exact run_bind_ok hs
  | error e => exact run_bind_raised hs

/-- Looking at the state changes nothing. -/
lemma run_getThe (s : σ) :
    (ExceptT.lift (getThe σ) : ExceptT ρ (EStateM ε σ) σ).run s = .ok (.ok s) s := rfl

end Raising

/-! ## Running on the heap of a runtime -/

namespace Context

variable {α β : Type} {x : HeapM α} {c : Context} {h' : Heap}

lemma onHeap_ok {a : α} (hx : x c.heap = .ok a h') : onHeap x c = .ok a { c with heap := h' } := by
  rw [onHeap, hx]

lemma onHeap_stopped {m : Misuse} (hx : x c.heap = .error m h') :
    onHeap x c = .error m { c with heap := h' } := by
  rw [onHeap, hx]

/-- A sequence on the heap is a sequence of two operations of the runtime. -/
lemma onHeap_bind (x : HeapM α) (f : α → HeapM β) :
    onHeap (x >>= f) = onHeap x >>= fun a => onHeap (f a) := by
  funext c
  cases hx : x c.heap with
  | ok a h =>
    rw [bind_ok (onHeap_ok hx), onHeap, onHeap, bind_ok hx]
  | error m h =>
    rw [bind_stopped (onHeap_stopped hx)]
    exact onHeap_stopped (bind_stopped hx)

end Context

/-! ## Kinds of operations that go along with sequences -/

/-- Operations of the kind `K` can be done one after the other. The second part of a sequence has to
be of the kind for the results only that the first part can have. -/
structure Sequential {ε σ : Type} (K : (α : Type) → EStateM ε σ α → Prop) : Prop where
  ret : ∀ {α : Type} (a : α), K α (pure a)
  bind_of : ∀ {α β : Type} {x : EStateM ε σ α} {f : α → EStateM ε σ β}, K α x →
    (∀ s a s', x s = .ok a s' → K β (f a)) → K β (x >>= f)

namespace Sequential

variable {ε σ ρ α β : Type} {K : (α : Type) → EStateM ε σ α → Prop}

section Plain

variable {x : EStateM ε σ α}

lemma bind {f : α → EStateM ε σ β} (hK : Sequential K) (hx : K α x) (hf : ∀ a, K β (f a)) :
    K β (x >>= f) :=
  hK.bind_of hx (fun _ a _ _ => hf a)

lemma map (hK : Sequential K) (f : α → β) (hx : K α x) : K β (f <$> x) := by
  rw [map_eq_pure_bind]
  exact hK.bind hx (fun a => hK.ret (f a))

lemma forM (hK : Sequential K) {f : β → EStateM ε σ PUnit} (hf : ∀ b, K PUnit (f b))
    (bs : List β) : K PUnit (bs.forM f) := by
  induction bs with
  | nil => exact hK.ret _
  | cons b bs ih => exact hK.bind (hf b) (fun _ => ih)

lemma mapM (hK : Sequential K) {f : β → EStateM ε σ α} (hf : ∀ b, K α (f b)) (bs : List β) :
    K (List α) (bs.mapM f) := by
  induction bs with
  | nil => exact hK.ret _
  | cons b bs ih =>
    rw [List.mapM_cons]
    exact hK.bind (hf b) (fun a => hK.bind ih (fun _ => hK.ret _))

end Plain

/-! Operations that may raise are of a kind if they are so with their errors as results. -/

section Raising

variable {x : ExceptT ρ (EStateM ε σ) α}

lemma run_pure (hK : Sequential K) (a : α) : K _ (pure a : ExceptT ρ (EStateM ε σ) α).run :=
  hK.ret (Except.ok a)

lemma run_throw (hK : Sequential K) (e : ρ) : K _ (throw e : ExceptT ρ (EStateM ε σ) α).run :=
  hK.ret (Except.error e)

lemma run_bind {f : α → ExceptT ρ (EStateM ε σ) β} (hK : Sequential K) (hx : K _ x.run)
    (hf : ∀ a, K _ (f a).run) : K _ (x >>= f).run := by
  refine hK.bind (x := x.run) hx (fun outcome => ?_)
  cases outcome with
  | ok a => exact hf a
  | error e => exact hK.ret _

lemma run_tryCatch {f : ρ → ExceptT ρ (EStateM ε σ) α} (hK : Sequential K) (hx : K _ x.run)
    (hf : ∀ e, K _ (f e).run) : K _ (tryCatch x f).run := by
  refine hK.bind (x := x.run) hx (fun outcome => ?_)
  cases outcome with
  | ok a => exact hK.ret _
  | error e => exact hf e

lemma run_lift {x : EStateM ε σ α} (hK : Sequential K) (hx : K α x) :
    K _ (ExceptT.lift x : ExceptT ρ (EStateM ε σ) α).run :=
  hK.map Except.ok hx

lemma run_lift_bind {x : EStateM ε σ α} {f : α → ExceptT ρ (EStateM ε σ) β} (hK : Sequential K)
    (hx : K α x) (hf : ∀ a, K _ (f a).run) : K _ (ExceptT.lift x >>= f).run :=
  hK.run_bind (hK.run_lift hx) hf

lemma run_adapt {ρ' : Type} {f : ρ → ρ'} (hK : Sequential K) (hx : K _ x.run) :
    K _ (ExceptT.adapt f x).run :=
  hK.map (Except.mapError f) hx

lemma run_mapM {f : β → ExceptT ρ (EStateM ε σ) α} (hK : Sequential K) (hf : ∀ b, K _ (f b).run)
    (bs : List β) : K _ (bs.mapM f).run := by
  induction bs with
  | nil => exact hK.run_pure _
  | cons b bs ih =>
    rw [List.mapM_cons]
    exact hK.run_bind (hf b) (fun a => hK.run_bind ih (fun _ => hK.run_pure _))

lemma run_liftExcept (hK : Sequential K) (e : Except ρ α) :
    K _ (liftExcept e : ExceptT ρ (EStateM ε σ) α).run := by
  cases e with
  | ok a => exact hK.run_pure a
  | error e => exact hK.run_throw e

end Raising

end Sequential

end NativeCall
