import NativeCall.Heap.DictItems
import NativeCall.Heap.Slots
import NativeCall.Proofs.Heap.Transfer

/-!
# Dicts transfer their references

A dict that is being filled owns its keys and values, and putting a pair into it takes both over,
also where the key is refused. What makes replacing a value safe is that the keys of a dict are
pairwise distinct (`Dict.Distinct`): the value under a key stands in one entry only, so one
reference goes and one comes (`refs_replace`).

Computing the key of an object looks at objects and changes nothing, also where it fails inside
nested tuples: `reads_projection`.

What makes a container of items takes them over too. Only a tuple of objects of others retains them
first, so these have to be alive (`tupleOf_returns`).

## The order of an entry

Replacing a value keeps the entry in its place, with the key object that was there first, and
releases the old value and the new key object. That the new value is written before the old one is
released is of no concern to counts. What is of concern is that there is exactly one old value: the
scan for the key writes wherever it finds it, and with two entries under one key it would write
twice and release once. So distinctness is no nicety here. It is carried along by every operation on
dicts and asked for wherever the transfer of a pair is used.

## Failure

There are three ways for a pair not to enter the dict: its key object is of a kind that has no key,
it contains one, or it is nested too deeply. In all of them the pair is released and the dict stays,
and the caller decides about the dict. A run of pairs gives up all that was taken over before:
`addPairs` goes through the list with the recursion of the function, and at each pair the dict and
the pairs behind it are what is released if the key is refused.
-/

namespace NativeCall

/-! ## Distinct keys -/

namespace Dict

variable {d : Dict} {k : Key} {old : DictEntry} {value keyRef : Ref}

/-- The keys of a dict are pairwise distinct. -/
def Distinct (d : Dict) : Prop :=
  (d.entries.map (·.key)).Nodup

lemma distinct_empty : empty.Distinct :=
  List.nodup_nil

lemma map_key_replace (d : Dict) (k : Key) (value : Ref) :
    (d.replace k value).entries.map (·.key) = d.entries.map (·.key) := by
  rw [replace, List.map_map]
  refine List.map_congr_left (fun e _ => ?_)
  show (if e.key = k then { e with value := value } else e).key = e.key
  split <;> rfl

lemma Distinct.replace (hd : d.Distinct) (k : Key) (value : Ref) :
    (d.replace k value).Distinct := by
  rw [Distinct, map_key_replace]
  exact hd

lemma find?_eq_none : d.find? k = none ↔ k ∉ d.entries.map (·.key) := by
  simp [find?]

lemma Distinct.append (hd : d.Distinct) (hk : d.find? k = none) :
    (d.append ⟨k, keyRef, value⟩).Distinct := by
  rw [Distinct, Dict.append, List.map_append]
  refine List.nodup_append.mpr ⟨hd, List.nodup_singleton _, fun x hx y hy => ?_⟩
  obtain rfl : y = k := by simpa using hy
  rintro rfl
  exact find?_eq_none.mp hk hx

lemma refs_append (d : Dict) (k : Key) (keyRef value : Ref) :
    (d.append ⟨k, keyRef, value⟩).refs = d.refs ++ [keyRef, value] := by
  simp [refs, Dict.append]

lemma refs_cons (e : DictEntry) (entries : List DictEntry) :
    refs ⟨e :: entries⟩ = e.keyRef :: e.value :: refs ⟨entries⟩ := rfl

lemma replace_cons (e : DictEntry) (entries : List DictEntry) (k : Key) (value : Ref) :
    replace ⟨e :: entries⟩ k value =
      ⟨(if e.key = k then { e with value := value } else e) ::
        (replace ⟨entries⟩ k value).entries⟩ := rfl

lemma replace_of_not_mem (hk : k ∉ d.entries.map (·.key)) : d.replace k value = d := by
  obtain ⟨entries⟩ := d
  refine congrArg Dict.mk ((List.map_congr_left (fun e he => ?_)).trans (List.map_id entries))
  show (if e.key = k then { e with value := value } else e) = e
  rw [if_neg]
  rintro rfl
  exact hk (List.mem_map_of_mem he)

/-- A value that is replaced leaves the dict, and the new one enters it. -/
lemma refs_replace (hd : d.Distinct) (hk : d.find? k = some old) :
    ({old.value} : Multiset Ref) + (d.replace k value).refs = {value} + d.refs := by
  obtain ⟨entries⟩ := d
  induction entries with
  | nil => cases hk
  | cons e entries ih =>
    obtain ⟨hne, hd'⟩ := List.nodup_cons.mp hd
    rw [replace_cons, refs_cons, refs_cons]
    -- If the key is in this entry it is in no later one, and replacing leaves those alone.
    by_cases he : e.key = k
    · obtain rfl : e = old := by simpa [find?, he] using hk
      rw [if_pos he, ← he, replace_of_not_mem hne]
      simp only [← Multiset.cons_coe, ← Multiset.singleton_add]
      abel
    · have hk' : find? ⟨entries⟩ k = some old := by simpa [find?, he] using hk
      have hrest := ih hd' hk'
      rw [if_neg he]
      simp only [← Multiset.cons_coe, ← Multiset.singleton_add]
      calc ({old.value} : Multiset Ref) +
          ({e.keyRef} + ({e.value} + ↑(replace ⟨entries⟩ k value).refs))
        _ = {e.keyRef} + {e.value} + ({old.value} + ↑(replace ⟨entries⟩ k value).refs) := by abel
        _ = {e.keyRef} + {e.value} + ({value} + ↑(refs ⟨entries⟩)) := by rw [hrest]
        _ = {value} + ({e.keyRef} + ({e.value} + ↑(refs ⟨entries⟩))) := by abel

end Dict

namespace Heap

/-! ## Keys of objects -/

/-- A computation that reads the heap and may raise. -/
def Reads {α : Type} (x : RunM α) (h : Heap) : Prop :=
  ∃ outcome, x.run h = .ok outcome h

lemma Reads.mapM {α β : Type} {f : α → RunM β} {h : Heap} {l : List α}
    (hf : ∀ a ∈ l, Reads (f a) h) : Reads (l.mapM f) h := by
  induction l with
  | nil => exact ⟨.ok [], rfl⟩
  | cons a l ih =>
    obtain ⟨outcome, ha⟩ := hf a List.mem_cons_self
    cases outcome with
    | error e => exact ⟨.error e, run_mapM_raised ha l⟩
    | ok b =>
      obtain ⟨others, hl⟩ := ih (fun a ha => hf a (List.mem_cons_of_mem _ ha))
      exact ⟨others.map (b :: ·), run_mapM_cons ha hl⟩

lemma get_of_slot? {h : Heap} {r : Ref} {e : Entry} (hs : h.slot? r = some e) :
    get r h = .ok e.object h := by
  have hd : demand .get r h = .ok e h := demand_of_slot? hs
  show EStateM.map _ _ h = _
  rw [EStateM.map, hd]

lemma object?_eq_some {h : Heap} {r : Ref} {o : Object} :
    h.object? r = some o ↔ ∃ e, h.slot? r = some e ∧ e.object = o :=
  Option.map_eq_some_iff

lemma get_of_object? {h : Heap} {r : Ref} {o : Object} (ho : h.object? r = some o) :
    get r h = .ok o h := by
  obtain ⟨e, he, rfl⟩ := object?_eq_some.mp ho
  exact get_of_slot? he

/-- No tuple is entered when the budget is used up. -/
lemma projectionWith_tuple_zero {h : Heap} {r : Ref} {items : List Ref} (fuel : Nat)
    (ho : h.object? r = some (.tuple items)) (hn : h.levels = 0) :
    (projectionWith (fuel + 1) r).run h = .ok (.error .recursionLimit) h := by
  rw [projectionWith]
  refine (run_bind_ok (run_lift_ok (get_of_object? ho))).trans ?_
  exact run_bind_ok (run_lift_ok (enterLevel_of_levels_zero hn))

/-- A tuple that is entered has the keys of its items, or none where one of them has none. -/
lemma projectionWith_tuple_succ {h : Heap} {r : Ref} {items : List Ref} {fuel n : Nat}
    {keys : Except RunError (List Key)} (ho : h.object? r = some (.tuple items))
    (hn : h.levels = n + 1)
    (hitems : (items.mapM (projectionWith fuel)).run { h with levels := n } =
      .ok keys { h with levels := n }) :
    (projectionWith (fuel + 1) r).run h = .ok (keys.map .tuple) h := by
  have hget : (ExceptT.lift (get r) : RunM Object).run h = .ok (.ok (.tuple items)) h :=
    run_lift_ok (get_of_object? ho)
  -- The budget is taken down before the items are looked at and put back after, whether they have
  -- keys or not; the attempt in between keeps an error from skipping that.
  have henter : (ExceptT.lift enterLevel : RunM Bool).run h =
      .ok (.ok true) { h with levels := n } := run_lift_ok (enterLevel_of_levels_succ hn)
  have hattempt : (attempt (items.mapM (projectionWith fuel))).run { h with levels := n } =
      .ok (.ok keys) { h with levels := n } := bind_ok hitems
  have hexit : (ExceptT.lift exitLevel : RunM Unit).run { h with levels := n } =
      .ok (.ok ()) h := run_lift_ok (exitLevel_of_levels_succ hn)
  rw [projectionWith]
  refine (run_bind_ok hget).trans ((run_bind_ok henter).trans ((run_bind_ok hattempt).trans
    ((run_bind_ok hexit).trans ?_)))
  cases keys <;> rfl

/-- Computing a key changes nothing, if what objects hold is alive. -/
lemma reads_projectionWith (fuel : Nat) {h : Heap} {r : Ref}
    (hclosed : ∀ q e, h.slot? q = some e → ∀ c ∈ e.object.children, h.slot? c ≠ none)
    (hr : h.slot? r ≠ none) : Reads (projectionWith fuel r) h := by
  -- The fuel is one more than the budget, so that it is the budget that ends a descent into nested
  -- tuples; for the statement that nothing changes either end will do.
  induction fuel generalizing h r with
  | zero => exact ⟨.error .recursionLimit, rfl⟩
  | succ fuel ih =>
    obtain ⟨e, he⟩ := Option.ne_none_iff_exists'.mp hr
    cases ho : e.object with
    | tuple items =>
      have htuple : h.object? r = some (.tuple items) := object?_eq_some.mpr ⟨e, he, ho⟩
      cases hn : h.levels with
      | zero => exact ⟨_, projectionWith_tuple_zero fuel htuple hn⟩
      | succ n =>
        have hitems : Reads (items.mapM (projectionWith fuel)) { h with levels := n } := by
          refine .mapM (fun q hq => ih hclosed (hclosed r e he q ?_))
          rw [ho]
          exact hq
        obtain ⟨keys, hkeys⟩ := hitems
        exact ⟨_, projectionWith_tuple_succ htuple hn hkeys⟩
    | _ =>
      have hget : (ExceptT.lift (get r) : RunM Object).run h = .ok (.ok e.object) h :=
        run_lift_ok (get_of_slot? he)
      rw [ho] at hget
      rw [projectionWith]
      exact ⟨_, run_bind_ok hget⟩

lemma reads_projection {h : Heap} {owned : Multiset Ref} (hc : h.Counted owned) {r : Ref}
    (hr : h.slot? r ≠ none) : Reads (projection r) h := by
  obtain ⟨outcome, hrun⟩ := reads_projectionWith (h.levels + 1)
    (fun q e hq c hch => hc.slot?_child hq hch) hr
  exact ⟨outcome, (run_bind_ok (run_getThe h)).trans hrun⟩

/-! ## Filling a dict -/

/-- A key that was accepted replaced a value or came behind the others, under the key that its
object projects to. -/
lemma setItem_inv {d d' : Dict} {key value : Ref} {h h' : Heap}
    (hrun : (setItem d key value).run h = .ok (.ok d') h') :
    ∃ k h₁, (projection key).run h = .ok (.ok k) h₁ ∧
      ((∃ old, d.find? k = some old ∧ d' = d.replace k value) ∨
        (d.find? k = none ∧ d' = d.append ⟨k, key, value⟩)) := by
  obtain ⟨k, h₁, htry, hrest⟩ := run_bind_inv hrun
  have hproj : (projection key).run h = .ok (.ok k) h₁ := by
    rcases run_tryCatch_inv htry with hproj | ⟨e, h₂, -, hhandled⟩
    · exact hproj
    · obtain ⟨-, h₃, -, hhandled⟩ := run_bind_inv hhandled
      obtain ⟨-, h₄, -, hhandled⟩ := run_bind_inv hhandled
      cases hhandled
  refine ⟨k, h₁, hproj, ?_⟩
  cases hk : d.find? k with
  | some old =>
    simp only [hk] at hrest
    obtain ⟨-, h₂, -, hrest⟩ := run_bind_inv hrest
    obtain ⟨-, h₃, -, hrest⟩ := run_bind_inv hrest
    cases hrest
    exact .inl ⟨old, rfl, rfl⟩
  | none =>
    simp only [hk] at hrest
    cases hrest
    exact .inr ⟨rfl, rfl⟩

lemma distinct_setItem {d d' : Dict} {key value : Ref} {h h' : Heap} (hd : d.Distinct)
    (hrun : (setItem d key value).run h = .ok (.ok d') h') : d'.Distinct := by
  obtain ⟨k, -, -, ⟨old, -, rfl⟩ | ⟨hk, rfl⟩⟩ := setItem_inv hrun
  · exact hd.replace k value
  · exact hd.append hk

namespace Transfers

variable {kept take rest : Multiset Ref} {key value : Ref} {d : Dict}

/-- Computing the key of an owned object. -/
lemma projection (hkey : key ∈ take) :
    Transfers kept (Heap.projection key).run take (ofOutcome (fun _ => take) take) := by
  intro h others _ hc
  have hlive := hc.slot?_ne_none (Multiset.mem_add.mpr (.inl hkey))
  obtain ⟨outcome, hrun⟩ := reads_projection hc hlive
  refine ⟨outcome, h, hrun, ?_⟩
  cases outcome <;> exact .refl hc

lemma setItem (hd : d.Distinct) :
    Transfers kept (Heap.setItem d key value).run ({key} + ({value} + d.refs))
      (ofOutcome (fun d => d.refs) d.refs) := by
  have hkey : key ∈ ({key} + ({value} + d.refs) : Multiset Ref) :=
    Multiset.mem_add.mpr (.inl (Multiset.mem_singleton_self key))
  have hproj : Transfers kept (Heap.projection key).run ({key} + ({value} + d.refs))
      (ofOutcome (fun _ => {key} + ({value} + d.refs)) ({key} + ({value} + d.refs))) :=
    projection hkey
  refine run_bind (run_tryCatch hproj (fun e => ?_)) (fun _ k _ _ => ?_)
  · refine run_release key (run_release value ?_)
    exact run_throw e
  · cases hk : d.find? k with
    | some old =>
      -- The old value leaves the dict in the same moment in which the new one enters it, so that
      -- what has to be released can be read off the sum.
      have hswap : ({key} + ({value} + d.refs) : Multiset Ref) =
          {old.value} + ({key} + (d.replace k value).refs) := by
        rw [add_left_comm ({old.value} : Multiset Ref), Dict.refs_replace hd hk]
      rw [hswap]
      refine run_release old.value (run_release key ?_)
      exact run_pure (d.replace k value) rfl
    | none =>
      refine run_pure (d.append ⟨k, key, value⟩) ?_
      rw [Dict.refs_append, ← Multiset.coe_add, add_comm (d.refs : Multiset Ref), ← add_assoc]
      rfl

lemma addPairs (items : List Ref) (d : Dict) (hd : d.Distinct) :
    Transfers kept (Heap.addPairs d items).run (↑items + ↑d.refs)
      (ofOutcome (fun d => d.refs) 0) := by
  match items with
  | [] => exact run_pure d (zero_add _)
  | [key] => exact run_release key (run_pure d rfl)
  | key :: value :: items =>
    have hsplit : (↑(key :: value :: items) + ↑d.refs : Multiset Ref) =
        {key} + ({value} + ↑d.refs) + ↑items := by
      rw [← Multiset.cons_coe, ← Multiset.cons_coe, ← Multiset.singleton_add,
        ← Multiset.singleton_add]
      abel
    rw [hsplit, Heap.addPairs]
    have hset : Transfers kept (Heap.setItem d key value).run
        ({key} + ({value} + ↑d.refs) + ↑items)
        (ofOutcome (fun d => ↑d.refs + ↑items) (↑d.refs + ↑items)) := by
      refine (setItem hd).frame.congr rfl (fun outcome => ?_)
      cases outcome <;> rfl
    refine run_bind (run_tryCatch hset (fun e => ?_)) (fun h d' h' hrun => ?_)
    · rw [add_comm, ← add_zero (d.refs : Multiset Ref)]
      exact run_releases items (run_releases d.refs (run_throw e))
    · have hd' : d'.Distinct := by
        rcases run_tryCatch_inv hrun with hrun | ⟨e, h₁, -, hhandled⟩
        · exact distinct_setItem hd hrun
        · obtain ⟨-, h₂, -, hhandled⟩ := run_bind_inv hhandled
          obtain ⟨-, h₃, -, hhandled⟩ := run_bind_inv hhandled
          cases hhandled
      rw [add_comm]
      exact addPairs items d' hd'

/-! ## Making values -/

lemma newTuple (items : List Ref) :
    Transfers kept (Heap.newTuple items).run items (ofOutcome (fun r => {r}) 0) := by
  cases items with
  | nil => exact run_lift (singleton (r := emptyTupleRef) rfl)
  | cons r items => exact create (.tuple (r :: items))

lemma newList (store : ListStore) :
    Transfers kept (Heap.newList store).run store.items (ofOutcome (fun r => {r}) 0) :=
  create (.list store)

lemma newDict (d : Dict) :
    Transfers kept (Heap.newDict d).run d.refs (ofOutcome (fun r => {r}) 0) :=
  create (.dict d)

/-- A builder gives up all that it owns, whether the container is made, refused or incomplete. -/
lemma builder (b : SlotBuilder) :
    Transfers kept b.build.run b.owned (ofOutcome (fun r => {r}) 0) := by
  rw [SlotBuilder.build]
  cases b.firstUnset? with
  | some i =>
    have hgiven : ∀ e : RunError, Transfers kept (do b.cancel; throw e : RunM Ref).run
        (↑b.owned + 0) (ofOutcome (fun r => {r}) 0) :=
      fun e => .run_releases (f := fun _ => throw e) b.owned (.run_throw e)
    simp only [add_zero] at hgiven
    exact hgiven _
  | none =>
    cases b.kind with
    | tuple => exact .newTuple b.owned
    | list => exact .newList (.filled b.owned)

end Transfers

/-! ## Tuples of objects of others -/

section TupleOf

variable {h h' : Heap} {others : Multiset Ref}

lemma isLive_incRef {r q : Ref} (hrun : incRef r h = .ok () h') (hq : h.isLive q = true) :
    h'.isLive q = true := by
  cases hs : h.slot? r with
  | none =>
    rw [incRef, bind_stopped (demand_of_slot?_eq_none hs).choose_spec] at hrun
    cases hrun
  | some e =>
    rw [incRef, bind_ok (demand_of_slot? hs)] at hrun
    by_cases hi : e.immortal = true
    · rw [if_pos hi] at hrun
      cases hrun
      exact hq
    · rw [if_neg hi] at hrun
      cases hrun
      rw [isLive, slot?_setSlot _ (lt_size_of_slot? hs)]
      by_cases hqr : q = r
      · rw [hqr, Function.update_self]
        rfl
      · rwa [Function.update_of_ne hqr]

/-- Live objects are retained one after the other. -/
lemma incRefs_run (rs : List Ref) (hc : h.Counted others) (hlive : ∀ r ∈ rs, h.isLive r = true) :
    ∃ h₁, (rs.forM (fun r => (ExceptT.lift (incRef r) : RunM Unit))).run h = .ok (.ok ()) h₁ ∧
      h₁.Counted (↑rs + others) := by
  -- A reference may be in the list twice. Retaining it once leaves the others alive, which is all
  -- that the next one needs.
  induction rs generalizing h others with
  | nil => exact ⟨h, rfl, by rwa [Multiset.coe_nil, zero_add]⟩
  | cons r rs ih =>
    obtain ⟨e, he⟩ := Option.isSome_iff_exists.mp (hlive r List.mem_cons_self)
    obtain ⟨h₁, hinc, hc₁⟩ := hc.incRef he
    obtain ⟨h₂, hrun, hc₂⟩ := ih hc₁ (fun q hq =>
      isLive_incRef hinc (hlive q (List.mem_cons_of_mem r hq)))
    refine ⟨h₂, (run_bind_ok (run_lift_ok hinc)).trans hrun, ?_⟩
    rw [← Multiset.cons_coe, Multiset.cons_add, ← Multiset.add_cons]
    exact hc₂

/-- A tuple of live objects is made, or refused. -/
lemma tupleOf_returns {items : List Ref} (hc : h.Counted others)
    (hlive : ∀ r ∈ items, h.isLive r = true) :
    ∃ outcome h', (tupleOf items).run h = .ok outcome h' := by
  obtain ⟨h₁, hrun, hc₁⟩ := incRefs_run items hc hlive
  have hnew : Transfers 0 (newTuple items).run items (ofOutcome (fun r => {r}) 0) :=
    .newTuple items
  obtain ⟨outcome, h₂, hmade, -⟩ := hnew h₁ others (Multiset.zero_le _) hc₁
  exact ⟨outcome, h₂, (run_bind_ok hrun).trans hmade⟩

end TupleOf

end Heap

end NativeCall
