import NativeCall.Proofs.Heap.Filed

/-!
# What the key of an object is

Computing the key of an object descends into tuples and charges every level to the depth budget of
the heap. `HasKey` says what the key is without either: an object that holds no others has a key of
its own (`Object.atom?`), a tuple has the keys of its items, and a list or a dict has none, however
deep in a tuple it is.

Both descriptions agree. An object whose key is computed has that key, and the key is no deeper than
the budget; an object that has a key gets it under every budget that is deep enough
(`projection_iff`). So a key that was computed once is computed again for as long as the object
keeps it, whatever the budget is by then, as long as it is no smaller.

`HasKey` is a relation between references, keys and what is at references, and not a function. As a
function it would need a bound on the descent, since objects on a heap may hold themselves, and the
bound would be in every statement about keys. As a relation it simply does not hold where the
descent does not end. Its derivations are finite, and their depth is that of the key (`Key.depth`),
which is the one number that has to be compared with the budget.

That objects are given by a function of references rather than by a heap is for the users of this
module. A dict and its key objects are followed through changes of the heap that leave those objects
alone, and `HasKey` depends on the objects that it comes to and on nothing else.
-/

namespace NativeCall

/-! ## Depth -/

namespace Key

mutual

/-- How many tuples stand one inside another in a key. -/
def depth : Key → Nat
  | tuple ks => depthAll ks + 1
  | _ => 0

/-- The depth of the deepest of some keys. -/
def depthAll : List Key → Nat
  | [] => 0
  | k :: ks => max (depth k) (depthAll ks)

end

@[simp] lemma depth_ofInt (i : Int) : (ofInt i).depth = 0 := by
  unfold ofInt
  split <;> simp [depth]

@[simp] lemma depth_ofFloat (x : Binary64) : (ofFloat x).depth = 0 := by
  unfold ofFloat
  split
  · split <;> simp [depth]
  · simp [depth]

end Key

/-! ## Keys of objects -/

/-- The key of an object at `r` that holds no others. -/
def Object.atom? (r : Ref) : Object → Option Key
  | none => some .none
  | bool b => some (.int (if b then 1 else 0))
  | int i => some (.int i)
  | bigInt i => some (.ofInt i)
  | float x => some (.ofFloat x)
  | str s => some (.str s)
  | bytes bs => some (.bytes bs)
  | native _ => some (.identity r)
  | tuple _ | list _ | dict _ => Option.none

namespace Heap

mutual

/-- `HasKey objects r k`: among these objects, the one at `r` has the key `k`. -/
inductive HasKey (objects : Ref → Option Object) : Ref → Key → Prop where
  | atom {r : Ref} {o : Object} {k : Key} (ho : objects r = some o) (hk : o.atom? r = some k) :
      HasKey objects r k
  | tuple {r : Ref} {items : List Ref} {ks : List Key} (ho : objects r = some (.tuple items))
      (hks : HaveKeys objects items ks) : HasKey objects r (.tuple ks)

/-- The objects at some references have these keys, one after the other. -/
inductive HaveKeys (objects : Ref → Option Object) : List Ref → List Key → Prop where
  | nil : HaveKeys objects [] []
  | cons {r : Ref} {rs : List Ref} {k : Key} {ks : List Key} (hk : HasKey objects r k)
      (hks : HaveKeys objects rs ks) : HaveKeys objects (r :: rs) (k :: ks)

end

variable {h h' : Heap} {r : Ref} {rs items : List Ref} {k : Key} {ks : List Key} {o : Object}
  {fuel n : Nat}

/-- Only a tuple has a key with depth. -/
lemma depth_atom? (hk : o.atom? r = some k) : k.depth = 0 := by
  unfold Object.atom? at hk
  split at hk <;> simp only [Option.some.injEq, reduceCtorEq] at hk <;> subst hk <;>
    simp [Key.depth]

/-! ## Reading an object -/

lemma get_inv (hrun : get r h = .ok o h') : h.object? r = some o ∧ h' = h := by
  cases hs : h.slot? r with
  | none =>
    obtain ⟨m, hstop⟩ : ∃ m, demand .get r h = .error m h := demand_of_slot?_eq_none hs
    have hstopped : get r h = .error m h := by
      show EStateM.map _ _ h = _
      rw [EStateM.map, hstop]
    cases hstopped.symm.trans hrun
  | some e =>
    cases (get_of_slot? hs).symm.trans hrun
    exact ⟨object?_eq_some.mpr ⟨e, hs, rfl⟩, rfl⟩

/-- The key of an object other than a tuple depends on no other object. -/
lemma projectionWith_run_atom (ho : h.object? r = some o) (ht : ∀ items, o ≠ .tuple items) :
    (projectionWith (fuel + 1) r).run h =
      .ok ((o.atom? r).elim (.error (.unhashable o.typeName)) .ok) h := by
  rw [projectionWith]
  refine (run_bind_ok (run_lift_ok (get_of_object? ho))).trans ?_
  cases o with
  | tuple items => exact absurd rfl (ht items)
  | _ => rfl

/-! ## Computed keys are keys -/

/-- What computing one key shows, computing several shows of all of them. -/
lemma mapM_keys_inv {f : Ref → RunM Key}
    (hf : ∀ r k h', (f r).run h = .ok (.ok k) h' →
      HasKey h.object? r k ∧ k.depth ≤ h.levels ∧ h' = h)
    (hrun : (rs.mapM f).run h = .ok (.ok ks) h') :
    HaveKeys h.object? rs ks ∧ Key.depthAll ks ≤ h.levels ∧ h' = h := by
  induction rs generalizing ks h' with
  | nil =>
    cases hrun
    exact ⟨.nil, Nat.zero_le _, rfl⟩
  | cons r rs ih =>
    rw [List.mapM_cons] at hrun
    obtain ⟨k, h₁, hfirst, hothers⟩ := run_bind_inv hrun
    obtain ⟨rest, h₂, hrest, hresult⟩ := run_bind_inv hothers
    obtain ⟨hkey, hdepth, rfl⟩ := hf r k h₁ hfirst
    obtain ⟨hkeys, hdepths, rfl⟩ := ih hrest
    cases hresult
    exact ⟨.cons hkey hkeys, Nat.max_le.mpr ⟨hdepth, hdepths⟩, rfl⟩

lemma enterLevel_inv (hrun : enterLevel h = .ok true h') :
    ∃ n, h.levels = n + 1 ∧ h' = { h with levels := n } := by
  unfold enterLevel at hrun
  split at hrun
  · simp at hrun
  · rename_i n hn
    simp only [EStateM.Result.ok.injEq, true_and] at hrun
    exact ⟨n, hn, hrun.symm⟩

/-- The key that was computed for a tuple comes from the keys of its items, which were computed one
level deeper. -/
lemma projectionWith_tuple_inv (ho : h.object? r = some (.tuple items))
    (hrun : (projectionWith (fuel + 1) r).run h = .ok (.ok k) h') :
    ∃ n ks h₁, h.levels = n + 1 ∧ k = .tuple ks ∧
      (items.mapM (projectionWith fuel)).run { h with levels := n } = .ok (.ok ks) h₁ ∧
      h' = { h₁ with levels := h₁.levels + 1 } := by
  rw [projectionWith] at hrun
  obtain ⟨o, h₁, hget, hrun⟩ := run_lift_bind_inv hrun
  cases (get_of_object? ho).symm.trans hget
  obtain ⟨entered, h₁, henter, hrun⟩ := run_lift_bind_inv hrun
  cases entered with
  | false =>
    obtain ⟨_, h₂, hthrow, -⟩ := run_bind_inv hrun
    cases hthrow
  | true =>
    obtain ⟨n, hn, rfl⟩ := enterLevel_inv henter
    obtain ⟨outcome, h₂, hitems, hrun⟩ := run_lift_bind_inv hrun
    obtain ⟨⟨⟩, h₃, hexit, hrun⟩ := run_lift_bind_inv hrun
    cases hexit
    cases outcome with
    | error e => cases hrun
    | ok ks =>
      cases hrun
      exact ⟨n, ks, h₂, hn, rfl, hitems, rfl⟩

lemma exists_object?_of_projectionWith
    (hrun : (projectionWith (fuel + 1) r).run h = .ok (.ok k) h') : ∃ o, h.object? r = some o := by
  rw [projectionWith] at hrun
  obtain ⟨o, h₁, hget, -⟩ := run_lift_bind_inv hrun
  exact ⟨o, (get_inv hget).1⟩

lemma projectionWith_inv (hrun : (projectionWith fuel r).run h = .ok (.ok k) h') :
    HasKey h.object? r k ∧ k.depth ≤ h.levels ∧ h' = h := by
  -- The fuel takes part in the recursion and not in the result: a key was found, so the fuel was
  -- enough.
  induction fuel generalizing h h' r k with
  | zero => cases hrun
  | succ fuel ih =>
    obtain ⟨o, ho⟩ := exists_object?_of_projectionWith hrun
    by_cases ht : ∃ items, o = .tuple items
    · obtain ⟨items, rfl⟩ := ht
      obtain ⟨n, ks, h₁, hn, rfl, hitems, rfl⟩ := projectionWith_tuple_inv ho hrun
      obtain ⟨hkeys, hdepth, rfl⟩ := mapM_keys_inv (fun _ _ _ hitem => ih hitem) hitems
      refine ⟨.tuple ho hkeys, ?_, by rw [← hn]⟩
      have hbelow : Key.depthAll ks ≤ n := hdepth
      simp only [Key.depth, hn]
      omega
    · rw [projectionWith_run_atom ho (not_exists.mp ht)] at hrun
      cases hatom : o.atom? r with
      | none =>
        rw [hatom] at hrun
        cases hrun
      | some key =>
        rw [hatom] at hrun
        cases hrun
        exact ⟨.atom ho hatom, by simp [depth_atom? hatom], rfl⟩

/-! ## Keys are computed -/

lemma mapM_keys_run {f : Ref → RunM Key} (hks : HaveKeys h.object? rs ks)
    (hf : ∀ r k, HasKey h.object? r k → k.depth ≤ Key.depthAll ks →
      (f r).run h = .ok (.ok k) h) :
    (rs.mapM f).run h = .ok (.ok ks) h := by
  induction rs generalizing ks with
  | nil =>
    cases hks
    rfl
  | cons r rs ih =>
    cases hks with
    | @cons _ _ k ks hk hks =>
      have hfirst : (f r).run h = .ok (.ok k) h := by
        apply hf r k hk
        simp [Key.depthAll]
      have hrest : (rs.mapM f).run h = .ok (.ok ks) h := by
        apply ih hks
        intro r' k' hk' hd
        apply hf r' k' hk'
        simp [Key.depthAll, hd]
      exact run_mapM_cons hfirst hrest

lemma projectionWith_run (hk : HasKey h.object? r k) (hlevels : k.depth ≤ h.levels)
    (hfuel : k.depth < fuel) : (projectionWith fuel r).run h = .ok (.ok k) h := by
  induction fuel generalizing h r k with
  | zero => exact absurd hfuel (Nat.not_lt_zero _)
  | succ fuel ih =>
    cases hk with
    | @atom _ o _ ho hatom =>
      rw [projectionWith_run_atom ho, hatom]
      · rfl
      · rintro items rfl
        cases hatom
    | @tuple _ items ks ho hks =>
      unfold Key.depth at hlevels hfuel
      obtain ⟨n, hn⟩ : ∃ n, h.levels = n + 1 := Nat.exists_eq_add_one_of_ne_zero (by omega)
      refine projectionWith_tuple_succ ho hn (mapM_keys_run hks ?_)
      intro r' k' hk' hd
      have hbelow : k'.depth ≤ n := by omega
      exact ih hk' hbelow (by omega)

/-- **The key of an object.** Computing the key of an object succeeds just if it has a key that is
no deeper than the depth budget, and then it finds the key and changes nothing. -/
theorem projection_iff : (projection r).run h = .ok (.ok k) h' ↔
    HasKey h.object? r k ∧ k.depth ≤ h.levels ∧ h' = h := by
  have hstart : (projection r).run h = (projectionWith (h.levels + 1) r).run h :=
    run_bind_ok (run_getThe h)
  rw [hstart]
  constructor
  · exact projectionWith_inv
  · rintro ⟨hk, hlevels, rfl⟩
    exact projectionWith_run hk hlevels (Nat.lt_succ_of_le hlevels)

/-! ## Dicts of distinct keys -/

/-- The keys of some pairs are found on the heap and are pairwise distinct. -/
def DistinctKeys (h : Heap) (pairs : List (Ref × Ref)) : Prop :=
  ∃ ks, List.Forall₂ (fun p k => ∃ h', (projection p.1).run h = .ok (.ok k) h') pairs ks ∧ ks.Nodup

variable {d : Dict} {key value : Ref} {pairs : List (Ref × Ref)}

/-- A key that is new comes behind the others, and the heap stays as it is. -/
lemma setItem_run_new (hk : (projection key).run h = .ok (.ok k) h')
    (hnew : k ∉ d.entries.map (·.key)) :
    (setItem d key value).run h = .ok (.ok (d.append ⟨k, key, value⟩)) h := by
  obtain ⟨-, -, rfl⟩ := projection_iff.mp hk
  rw [setItem, run_bind_ok (run_tryCatch_ok hk)]
  simp only [Dict.find?_eq_none.mpr hnew]
  rfl

lemma addPairs_run_new
    (hks : List.Forall₂ (fun p k => ∃ h', (projection p.1).run h = .ok (.ok k) h') pairs ks)
    (hnodup : (d.entries.map (·.key) ++ ks).Nodup) :
    ∃ d', (addPairs d (pairs.flatMap (fun p => [p.1, p.2]))).run h = .ok (.ok d') h ∧
      d'.entries.map (fun e => (e.keyRef, e.value)) =
        d.entries.map (fun e => (e.keyRef, e.value)) ++ pairs := by
  induction hks generalizing d with
  | nil => exact ⟨d, rfl, (List.append_nil _).symm⟩
  | @cons p k pairs ks hk _ ih =>
    obtain ⟨h', hk⟩ := hk
    -- A key that is not among those before it is filed behind them, and the rest of the pairs meets
    -- a dict with one more key.
    have hnew : k ∉ d.entries.map (·.key) := by
      intro hmem
      exact (List.nodup_append.mp hnodup).2.2 k hmem k List.mem_cons_self rfl
    have hnext : ((d.append ⟨k, p.1, p.2⟩).entries.map (·.key) ++ ks).Nodup := by
      simpa [Dict.append] using hnodup
    obtain ⟨d', hrun, hitems⟩ := ih hnext
    refine ⟨d', ?_, ?_⟩
    · show (addPairs d (p.1 :: p.2 :: pairs.flatMap (fun p => [p.1, p.2]))).run h = _
      rw [addPairs, run_bind_ok (run_tryCatch_ok (setItem_run_new hk hnew))]
      exact hrun
    · rw [hitems]
      simp [Dict.append]

/-- A dict made of pairs with distinct keys has just these pairs, in their order. -/
lemma dictOfPairs_run (hp : h.DistinctKeys pairs) :
    ∃ d, (dictOfPairs (pairs.flatMap (fun p => [p.1, p.2]))).run h = .ok (.ok d) h ∧
      d.entries.map (fun e => (e.keyRef, e.value)) = pairs := by
  obtain ⟨ks, hks, hnodup⟩ := hp
  exact addPairs_run_new (d := .empty) hks hnodup

end Heap

end NativeCall
