import Mathlib.Algebra.Group.Nat.Even
import NativeCall.Proofs.Heap.StoredKeys

/-!
# Making a dict of pairs

A dict takes over every reference of the pairs that it is made of. The first key object of each key
goes into the dict, and the last value (`Dict.Gathers`); what a later pair with the same key makes
superfluous is released on the way. If a key is refused, everything is released: what was
superfluous before, the pair, the items to come, and what the dict holds by then.

Releases change the heap while there are keys yet to be computed. These keys stay what they were:
the items to come are still owned, so they and all that they hold live on, and what lives on is as
it was (`Outlives`). So whether a key is refused, and with which error, can be read off the heap
that the pairs were given on (`dictOfPairs_spec`).

## The difficulty

A statement about the result would be easy if all keys were computed first and all surplus released
afterwards. The program goes pair by pair, so the heap on which the third key is computed is not the
one on which the first was, and a release between the two may have freed any number of objects. The
specification speaks of the given heap alone. What it takes is that a search for a key reads nothing
that is freed, and this is `ReadsBoth`: a run on the earlier heap and one on the later heap have the
same outcome, an error included. It holds for an object that is alive on the later heap, because
what is alive there was alive and the same before, and so is all that it holds.

An error matters as much as a key here. It would not be enough that keys which are found stay the
same; the first key that is refused might be another one after a release, or be refused with another
error. Comparing whole runs has both.

## Gathering

What the dict is like in the end has nothing to do with any heap. `Dict.put` is one pair, `Gathers`
is the relation between the pairs so far and the dict, and the two cases of a pair are one lemma
each: a key that came before keeps its entry and gets a new value, and a key that is new comes last.
-/

namespace NativeCall

/-! ## Dicts without a heap -/

namespace Dict

variable {d : Dict} {e f : DictEntry} {given : List DictEntry} {k : Key}

/-- The dict with a pair put into it. -/
def put (d : Dict) (e : DictEntry) : Dict :=
  match d.find? e.key with
  | some _ => d.replace e.key e.value
  | none => d.append e

/-- The references that are no longer needed once a pair was put into a dict. -/
def surplus (d : Dict) (e : DictEntry) : List Ref :=
  match d.find? e.key with
  | some old => [old.value, e.keyRef]
  | none => []

/-- The dict has an entry for each of the keys that were given, in the order in which they first
came. An entry has the first key object and the last value that came with its key. -/
structure Gathers (d : Dict) (given : List DictEntry) : Prop where
  keys : d.entries.map (·.key) = (given.map (·.key)).eraseDups
  first : ∀ e ∈ d.entries, ∃ f, given.find? (·.key = e.key) = some f ∧ e.keyRef = f.keyRef
  last : ∀ e ∈ d.entries, ∃ f, given.reverse.find? (·.key = e.key) = some f ∧ e.value = f.value

lemma gathers_empty : empty.Gathers [] :=
  ⟨rfl, by simp [empty], by simp [empty]⟩

lemma Gathers.mem_keys (hg : d.Gathers given) :
    k ∈ d.entries.map (·.key) ↔ k ∈ given.map (·.key) := by
  rw [hg.keys, List.mem_eraseDups]

lemma eraseDups_concat (ks : List Key) (k : Key) :
    (ks ++ [k]).eraseDups = if k ∈ ks then ks.eraseDups else ks.eraseDups ++ [k] := by
  rw [List.eraseDups_append]
  split <;> simp [List.removeAll, List.eraseDups_cons, *]

/-- A value that is given under a key that came before is the last one. -/
lemma Gathers.replace (hg : d.Gathers given) (hk : e.key ∈ d.entries.map (·.key)) :
    (d.replace e.key e.value).Gathers (given ++ [e]) := by
  refine ⟨?_, ?_, ?_⟩
  · rw [map_key_replace, List.map_append, List.map_singleton, eraseDups_concat,
      if_pos (hg.mem_keys.mp hk), hg.keys]
  · intro f hf
    obtain ⟨g, hg', hkey, hkeyRef, -⟩ := Heap.mem_replace hf
    obtain ⟨g', hfind, hsame⟩ := hg.first g hg'
    refine ⟨g', ?_, hkeyRef.trans hsame⟩
    rw [hkey, List.find?_append, hfind]
    rfl
  · intro f hf
    obtain ⟨g, hg', rfl⟩ := List.mem_map.mp hf
    rw [List.reverse_append, List.reverse_singleton, List.singleton_append]
    by_cases hkey : g.key = e.key
    · exact ⟨e, by simp [hkey], by simp [hkey]⟩
    · obtain ⟨g', hfind, hsame⟩ := hg.last g hg'
      exact ⟨g', by simp [hkey, Ne.symm hkey, hfind], by simp [hkey, hsame]⟩

/-- A pair with a key that is new is the first and the last one with it. -/
lemma Gathers.append (hg : d.Gathers given) (hk : e.key ∉ d.entries.map (·.key)) :
    (d.append e).Gathers (given ++ [e]) := by
  have hnew : e.key ∉ given.map (·.key) := fun h => hk (hg.mem_keys.mpr h)
  have hcases : ∀ f ∈ (d.append e).entries, (f ∈ d.entries ∧ f.key ≠ e.key) ∨ f = e := by
    intro f hf
    rcases List.mem_append.mp hf with hf | hf
    · refine .inl ⟨hf, fun hkey => hk ?_⟩
      rw [← hkey]
      exact List.mem_map_of_mem hf
    · exact .inr (List.mem_singleton.mp hf)
  refine ⟨?_, ?_, ?_⟩
  · show (d.entries ++ [e]).map (·.key) = _
    simp only [List.map_append, List.map_singleton, eraseDups_concat, if_neg hnew, hg.keys]
  · intro f hf
    rcases hcases f hf with ⟨hf, -⟩ | rfl
    · obtain ⟨g, hfind, hsame⟩ := hg.first f hf
      exact ⟨g, by simp [hfind], hsame⟩
    · have hnone : given.find? (·.key = f.key) = none := by simpa using hnew
      exact ⟨f, by simp [hnone], rfl⟩
  · intro f hf
    rw [List.reverse_append, List.reverse_singleton, List.singleton_append]
    rcases hcases f hf with ⟨hf, hkey⟩ | rfl
    · obtain ⟨g, hfind, hsame⟩ := hg.last f hf
      exact ⟨g, by simp [Ne.symm hkey, hfind], hsame⟩
    · exact ⟨f, by simp, rfl⟩

lemma Gathers.put (hg : d.Gathers given) (e : DictEntry) : (d.put e).Gathers (given ++ [e]) := by
  unfold Dict.put
  cases hk : d.find? e.key with
  | some old =>
    have hmem : e.key ∈ d.entries.map (·.key) := by
      by_contra hnew
      simp [find?_eq_none.mpr hnew] at hk
    exact hg.replace hmem
  | none => exact hg.append (find?_eq_none.mp hk)

lemma Distinct.put (hd : d.Distinct) (e : DictEntry) : (d.put e).Distinct := by
  unfold Dict.put
  cases hk : d.find? e.key with
  | some old => exact hd.replace e.key e.value
  | none => exact hd.append hk

/-- What is put into a dict stays in it or is no longer needed, and so with what was there. -/
lemma refs_put (hd : d.Distinct) (e : DictEntry) :
    (↑(d.surplus e) + ↑(d.put e).refs : Multiset Ref) = ↑[e.keyRef, e.value] + ↑d.refs := by
  unfold surplus put
  cases hk : d.find? e.key with
  | some old =>
    have hswap : ({old.value} : Multiset Ref) + (d.replace e.key e.value).refs =
        {e.value} + d.refs := refs_replace hd hk
    simp only [← Multiset.cons_coe, Multiset.coe_nil, ← Multiset.singleton_add, add_zero]
    calc ({old.value} : Multiset Ref) + {e.keyRef} + ↑(d.replace e.key e.value).refs
      _ = {e.keyRef} + ({old.value} + ↑(d.replace e.key e.value).refs) := by abel
      _ = {e.keyRef} + {e.value} + ↑d.refs := by rw [hswap, add_assoc]
  | none =>
    have hrefs : (d.append e).refs = d.refs ++ [e.keyRef, e.value] :=
      refs_append d e.key e.keyRef e.value
    rw [hrefs, Multiset.coe_nil, zero_add, ← Multiset.coe_add, add_comm]

end Dict

namespace Heap

variable {h h' : Heap} {r key value : Ref} {d : Dict} {e : DictEntry} {given : List DictEntry}
  {items rest rs ts : List Ref} {owned others : Multiset Ref} {o : Object} {k : Key} {n fuel : Nat}

/-! ## Keys outlast releases -/

/-- What is on `h'` was on `h`, and what it holds is there too. -/
structure Outlives (h h' : Heap) : Prop where
  object : ∀ r o, h'.object? r = some o → h.object? r = some o
  levels : h'.levels = h.levels
  closed : Closed h'

lemma Outlives.withLevels (ho : Outlives h h') (n : Nat) :
    Outlives { h with levels := n } { h' with levels := n } :=
  ⟨ho.object, rfl, ho.closed⟩

lemma Counted.closed (hc : h.Counted owned) : Closed h := by
  intro r o ho q hq
  obtain ⟨e, he, rfl⟩ := object?_eq_some.mp ho
  exact exists_object? (hc.slot?_child he hq)

lemma levels_of_settles {v w : View} {rs : Multiset Ref} (hs : Settles v rs w) :
    w.levels = v.levels := by
  induction hs with
  | done v => rfl
  | drop hd _ ih =>
    obtain ⟨e, -, rfl, -⟩ := View.drop_eq_some.mp hd
    exact ih

lemma outlives_of_decRefs (hrun : decRefs rs h = .ok () h') (hc : h'.Counted owned) :
    Outlives h h' := by
  refine ⟨?_, ?_, hc.closed⟩
  · intro r o ho
    obtain ⟨e', he', rfl⟩ := object?_eq_some.mp ho
    obtain ⟨e, he, hsame⟩ := (NothingNew.decRefs hrun).object r e' he'
    exact object?_eq_some.mpr ⟨e, he, hsame.symm⟩
  · exact levels_of_settles (settles_of_decRefs hrun)

/-- A computation that reads both heaps has the same outcome on both. -/
def ReadsBoth {α : Type} (x : RunM α) (h h' : Heap) : Prop :=
  ∃ outcome, x.run h = .ok outcome h ∧ x.run h' = .ok outcome h'

lemma ReadsBoth.mapM {α β : Type} {f : α → RunM β} {l : List α}
    (hf : ∀ a ∈ l, ReadsBoth (f a) h h') : ReadsBoth (l.mapM f) h h' := by
  induction l with
  | nil => exact ⟨.ok [], rfl, rfl⟩
  | cons a l ih =>
    obtain ⟨first, ha, ha'⟩ := hf a List.mem_cons_self
    obtain ⟨others, hl, hl'⟩ := ih (fun b hb => hf b (List.mem_cons_of_mem a hb))
    cases first with
    | error e => exact ⟨.error e, run_mapM_raised ha l, run_mapM_raised ha' l⟩
    | ok b => exact ⟨others.map (b :: ·), run_mapM_cons ha hl, run_mapM_cons ha' hl'⟩

lemma projectionWith_both (ho : Outlives h h') (hr : ∃ o, h'.object? r = some o) :
    ReadsBoth (projectionWith fuel r) h h' := by
  induction fuel generalizing h h' r with
  | zero => exact ⟨.error .recursionLimit, rfl, rfl⟩
  | succ fuel ih =>
    obtain ⟨o, hlater⟩ := hr
    have hearlier := ho.object r o hlater
    -- A tuple is looked into on both heaps, with the same items; whatever else it is has the same
    -- key on both, or none.
    by_cases ht : ∃ items, o = .tuple items
    · obtain ⟨items, rfl⟩ := ht
      cases hn : h.levels with
      | zero =>
        exact ⟨_, projectionWith_tuple_zero fuel hearlier hn,
          projectionWith_tuple_zero fuel hlater (ho.levels.trans hn)⟩
      | succ n =>
        obtain ⟨keys, hkeys, hkeys'⟩ := ReadsBoth.mapM (l := items) (f := projectionWith fuel)
          (fun q hq => ih (ho.withLevels n) (ho.closed r _ hlater q hq))
        exact ⟨_, projectionWith_tuple_succ hearlier hn hkeys,
          projectionWith_tuple_succ hlater (ho.levels.trans hn) hkeys'⟩
    · have hatom := not_exists.mp ht
      exact ⟨_, projectionWith_run_atom hearlier hatom, projectionWith_run_atom hlater hatom⟩

/-- A key is refused just as it would have been before, with the same error. -/
lemma projection_both (ho : Outlives h h') (hr : ∃ o, h'.object? r = some o) :
    ReadsBoth (projection r) h h' := by
  have hboth : ReadsBoth (projectionWith (h.levels + 1) r) h h' := projectionWith_both ho hr
  obtain ⟨outcome, hrun, hrun'⟩ := hboth
  refine ⟨outcome, (run_bind_ok (run_getThe h)).trans hrun, (run_bind_ok (run_getThe h')).trans ?_⟩
  rw [ho.levels]
  exact hrun'

/-! ## Putting pairs in -/

lemma decRefs_append : decRefs (rs ++ ts) h = .ok () h' ↔
    ∃ h₁, decRefs rs h = .ok () h₁ ∧ decRefs ts h₁ = .ok () h' := by
  simp only [decRefs_eq_drain, drain_append]
  cases drain rs h with
  | ok _ h₁ => simp
  | error m h₁ => simp

/-- Two references are released before something else. -/
lemma run_decRefs_pair {α : Type} {f : RunM α} {outcome : Except RunError α} {h'' : Heap}
    (hrun : decRefs [r, key] h = .ok () h') (hf : f.run h' = .ok outcome h'') :
    (ExceptT.lift (decRef r) >>= fun _ => ExceptT.lift (decRef key) >>= fun _ => f).run h =
      .ok outcome h'' := by
  obtain ⟨⟨⟩, h₁, hfirst, hothers⟩ := bind_inv hrun
  obtain ⟨⟨⟩, h₂, hsecond, hdone⟩ := bind_inv hothers
  cases hdone
  exact (run_bind_ok (run_lift_ok hfirst)).trans ((run_bind_ok (run_lift_ok hsecond)).trans hf)

/-- A key that is not refused: the pair is put into the dict, and what it makes superfluous is
released. -/
lemma setItem_run (hk : (projection e.keyRef).run h = .ok (.ok e.key) h)
    (hrun : decRefs (d.surplus e) h = .ok () h') :
    (setItem d e.keyRef e.value).run h = .ok (.ok (d.put e)) h' := by
  unfold Dict.surplus at hrun
  unfold Dict.put
  cases hold : d.find? e.key with
  | none =>
    rw [hold] at hrun
    cases hrun
    exact setItem_run_new hk (Dict.find?_eq_none.mp hold)
  | some old =>
    rw [hold] at hrun
    rw [setItem, run_bind_ok (run_tryCatch_ok hk)]
    simp only [hold]
    exact run_decRefs_pair hrun rfl

/-- A key that is refused goes along with its value. -/
lemma setItem_run_refused {err : RunError} (hk : (projection key).run h = .ok (.error err) h)
    (hrun : decRefs [key, value] h = .ok () h') :
    (setItem d key value).run h = .ok (.error err) h' := by
  rw [setItem]
  exact run_bind_raised ((run_tryCatch_raised hk).trans (run_decRefs_pair hrun rfl))

lemma addPairs_run_put (hk : (projection e.keyRef).run h = .ok (.ok e.key) h)
    (hrun : decRefs (d.surplus e) h = .ok () h') :
    (addPairs d (e.keyRef :: e.value :: rest)).run h = (addPairs (d.put e) rest).run h' := by
  rw [addPairs, run_bind_ok (run_tryCatch_ok (setItem_run hk hrun))]

/-- A key that is refused goes along with its value, the items to come, and the dict. -/
lemma addPairs_run_refused {err : RunError} (hk : (projection key).run h = .ok (.error err) h)
    (hrun : decRefs ([key, value] ++ (rest ++ d.refs)) h = .ok () h') :
    (addPairs d (key :: value :: rest)).run h = .ok (.error err) h' := by
  obtain ⟨h₁, hpair, hrun⟩ := decRefs_append.mp hrun
  obtain ⟨h₂, hrest, hdict⟩ := decRefs_append.mp hrun
  rw [addPairs]
  refine run_bind_raised ((run_tryCatch_raised (setItem_run_refused hk hpair)).trans ?_)
  exact (run_bind_ok (run_lift_ok hrest)).trans (run_bind_ok (run_lift_ok hdict))

/-! ## The pairs one after the other -/

/-- Every one of these key objects has this key, and it is found under the depth budget. -/
def Keyed (h : Heap) (given : List DictEntry) : Prop :=
  ∀ e ∈ given, HasKey h.object? e.keyRef e.key ∧ e.key.depth ≤ h.levels

/-- The first key object among these items that has no key is refused with this error. -/
def Refused (h : Heap) (items : List Ref) (err : RunError) : Prop :=
  ∃ given key value rest, items = Dict.refs ⟨given⟩ ++ key :: value :: rest ∧ h.Keyed given ∧
    (projection key).run h = .ok (.error err) h

lemma Keyed.projection (hk : h.Keyed given) (he : e ∈ given) :
    (projection e.keyRef).run h = .ok (.ok e.key) h :=
  projection_iff.mpr ⟨(hk e he).1, (hk e he).2, rfl⟩

lemma Keyed.outlives (hk : h.Keyed given) (ho : Outlives h h')
    (hlive : ∀ e ∈ given, ∃ o, h'.object? e.keyRef = some o) : h'.Keyed given := by
  intro e he
  obtain ⟨outcome, hrun, hrun'⟩ := projection_both ho (hlive e he)
  rw [hk.projection he] at hrun
  cases hrun
  obtain ⟨hkey, hdepth, -⟩ := projection_iff.mp hrun'
  exact ⟨hkey, hdepth⟩

/-- Pairs whose keys are not refused are put into a dict one by one. -/
lemma addPairs_run_keyed (hd : d.Distinct) (hk : h.Keyed given)
    (hc : h.Counted (↑(Dict.refs ⟨given⟩) + ↑d.refs + others)) :
    ∃ d' h' released, d'.Distinct ∧ (∀ before, d.Gathers before → d'.Gathers (before ++ given)) ∧
      decRefs released h = .ok () h' ∧
      (↑released + ↑d'.refs : Multiset Ref) = ↑(Dict.refs ⟨given⟩) + ↑d.refs ∧
      h'.Counted (↑d'.refs + others) ∧
      ∀ rest, (addPairs d (Dict.refs ⟨given⟩ ++ rest)).run h = (addPairs d' rest).run h' := by
  induction given generalizing h d with
  | nil =>
    have hc' : h.Counted (↑d.refs + others) := by simpa [Dict.refs] using hc
    exact ⟨d, h, [], hd, by simp, rfl, by simp [Dict.refs], hc', fun rest => rfl⟩
  | cons e given ih =>
    have hproj := hk.projection List.mem_cons_self
    have hput := Dict.refs_put hd e
    have hcons : (↑(Dict.refs ⟨e :: given⟩) : Multiset Ref) =
        ↑[e.keyRef, e.value] + ↑(Dict.refs ⟨given⟩) := by
      rw [Multiset.coe_add]
      rfl
    have hc₁ : h.Counted (↑(d.surplus e) + (↑(Dict.refs ⟨given⟩) + ↑(d.put e).refs + others)) := by
      convert hc using 1
      rw [hcons]
      calc (↑(d.surplus e) + (↑(Dict.refs ⟨given⟩) + ↑(d.put e).refs + others) : Multiset Ref)
        _ = (↑(d.surplus e) + ↑(d.put e).refs) + ↑(Dict.refs ⟨given⟩) + others := by abel
        _ = ↑[e.keyRef, e.value] + ↑d.refs + ↑(Dict.refs ⟨given⟩) + others := by rw [hput]
        _ = ↑[e.keyRef, e.value] + ↑(Dict.refs ⟨given⟩) + ↑d.refs + others := by abel
    obtain ⟨h₁, hsurplus, hc₁⟩ := hc₁.decRefs
    have hk₁ : h₁.Keyed given := by
      refine Keyed.outlives (fun f hf => hk f (List.mem_cons_of_mem e hf))
        (outlives_of_decRefs hsurplus hc₁) (fun f hf => exists_object? (hc₁.slot?_ne_none ?_))
      simp [Dict.keyRef_mem_refs (d := ⟨given⟩) hf]
    obtain ⟨d', h', released, hd', hgathers, hreleased, hrefs, hc', hrun⟩ := ih (hd.put e) hk₁ hc₁
    refine ⟨d', h', d.surplus e ++ released, hd', ?_, decRefs_append.mpr ⟨h₁, hsurplus, hreleased⟩,
      ?_, hc', ?_⟩
    · intro before hbefore
      simpa using hgathers _ (hbefore.put e)
    · calc (↑(d.surplus e ++ released) + ↑d'.refs : Multiset Ref)
        _ = ↑(d.surplus e) + (↑released + ↑d'.refs) := by rw [← Multiset.coe_add, add_assoc]
        _ = (↑(d.surplus e) + ↑(d.put e).refs) + ↑(Dict.refs ⟨given⟩) := by rw [hrefs]; abel
        _ = ↑(Dict.refs ⟨e :: given⟩) + ↑d.refs := by rw [hput, hcons]; abel
    · intro rest
      exact (addPairs_run_put hproj hsurplus).trans (hrun rest)

/-- Going through the items, every key is found, or a first one is refused. -/
lemma keyed_or_refused (hc : h.Counted owned) (items : List Ref) (heven : Even items.length)
    (hitems : ∀ r ∈ items, r ∈ owned) :
    (∃ given, Dict.refs ⟨given⟩ = items ∧ h.Keyed given) ∨ ∃ err, h.Refused items err := by
  match items with
  | [] => exact .inl ⟨[], rfl, by simp [Keyed]⟩
  | [r] => exact absurd heven Nat.not_even_one
  | key :: value :: items =>
    have hothers : Even items.length := by
      simpa [Nat.even_add_one] using heven
    obtain ⟨outcome, hrun⟩ := reads_projection hc (hc.slot?_ne_none (hitems key (by simp)))
    cases outcome with
    | error err => exact .inr ⟨err, [], key, value, items, rfl, by simp [Keyed], hrun⟩
    | ok k =>
      obtain ⟨hkey, hdepth, -⟩ := projection_iff.mp hrun
      have hcons : ∀ {given}, h.Keyed given → h.Keyed (⟨k, key, value⟩ :: given) := by
        intro given hk
        simpa [Keyed] using ⟨⟨hkey, hdepth⟩, hk⟩
      rcases keyed_or_refused hc items hothers (fun r hr => hitems r (by simp [hr])) with
        ⟨given, rfl, hk⟩ | ⟨err, given, key', value', rest, rfl, hk, hrefused⟩
      · exact .inl ⟨⟨k, key, value⟩ :: given, rfl, hcons hk⟩
      · exact .inr ⟨err, ⟨k, key, value⟩ :: given, key', value', rest, rfl, hcons hk, hrefused⟩

lemma dictOfPairs_keyed (hk : h.Keyed given) (hc : h.Counted (↑(Dict.refs ⟨given⟩) + others)) :
    ∃ d h' released, (dictOfPairs (Dict.refs ⟨given⟩)).run h = .ok (.ok d) h' ∧ d.Gathers given ∧
      decRefs released h = .ok () h' ∧
      (↑released + ↑d.refs : Multiset Ref) = ↑(Dict.refs ⟨given⟩) ∧
      h'.Counted (↑d.refs + others) := by
  have hempty : h.Counted (↑(Dict.refs ⟨given⟩) + ↑Dict.empty.refs + others) := by
    simpa [Dict.refs, Dict.empty] using hc
  obtain ⟨d, h', released, -, hgathers, hreleased, hrefs, hc', hrun⟩ :=
    addPairs_run_keyed Dict.distinct_empty hk hempty
  refine ⟨d, h', released, ?_, hgathers [] Dict.gathers_empty, hreleased, ?_, hc'⟩
  · have hall := hrun []
    rwa [List.append_nil] at hall
  · simpa [Dict.refs, Dict.empty] using hrefs

lemma dictOfPairs_refused {err : RunError} (hr : h.Refused items err)
    (hc : h.Counted (↑items + others)) :
    ∃ h' released, (dictOfPairs items).run h = .ok (.error err) h' ∧
      decRefs released h = .ok () h' ∧ released.Perm items ∧ h'.Counted others := by
  obtain ⟨given, key, value, rest, rfl, hk, hrefused⟩ := hr
  have hsplit : (↑(Dict.refs ⟨given⟩ ++ key :: value :: rest) : Multiset Ref) =
      ↑(Dict.refs ⟨given⟩) + ↑(key :: value :: rest) := (Multiset.coe_add _ _).symm
  rw [hsplit, add_assoc] at hc
  have hempty : h.Counted (↑(Dict.refs ⟨given⟩) + ↑Dict.empty.refs +
      (↑(key :: value :: rest) + others)) := by
    simpa [Dict.refs, Dict.empty] using hc
  obtain ⟨d, h₁, released, -, -, hreleased, hrefs, hc₁, hrun⟩ :=
    addPairs_run_keyed Dict.distinct_empty hk hempty
  have hkey : ∃ o, h₁.object? key = some o := exists_object? (hc₁.slot?_ne_none (by simp))
  obtain ⟨outcome, hbefore, hafter⟩ :=
    projection_both (outlives_of_decRefs hreleased hc₁) hkey
  cases hrefused.symm.trans hbefore
  have hmoved : (↑([key, value] ++ (rest ++ d.refs)) : Multiset Ref) =
      ↑d.refs + ↑(key :: value :: rest) := by
    rw [← List.append_assoc, ← Multiset.coe_add, add_comm]
    rfl
  rw [← add_assoc, ← hmoved] at hc₁
  obtain ⟨h', hall, hc'⟩ := hc₁.decRefs
  refine ⟨h', released ++ ([key, value] ++ (rest ++ d.refs)), ?_,
    decRefs_append.mpr ⟨h₁, hreleased, hall⟩, ?_, hc'⟩
  · exact (hrun (key :: value :: rest)).trans (addPairs_run_refused hafter hall)
  · have hempty : (↑released + ↑d.refs : Multiset Ref) = ↑(Dict.refs ⟨given⟩) := by
      simpa [Dict.refs, Dict.empty] using hrefs
    rw [← Multiset.coe_eq_coe, hsplit, ← Multiset.coe_add, hmoved, ← add_assoc, hempty]

/-- **A dict of pairs.** Making a dict of pairs whose references are owned succeeds just if every
key object has a key that is found under the depth budget. The dict then has one entry for each key,
in the order of first occurrence, with the first key object and the last value; every other
reference was released once, and nothing else happened to the heap. Otherwise the error is that of
the first key object that is refused, and every reference was released once. -/
theorem dictOfPairs_spec (hc : h.Counted (↑items + others)) (heven : Even items.length) :
    ((∃ d h', (dictOfPairs items).run h = .ok (.ok d) h') ↔
      ∃ given, Dict.refs ⟨given⟩ = items ∧ h.Keyed given) ∧
    (∀ given, Dict.refs ⟨given⟩ = items → h.Keyed given →
      ∃ d h' released, (dictOfPairs items).run h = .ok (.ok d) h' ∧ d.Gathers given ∧
        decRefs released h = .ok () h' ∧ (↑released + ↑d.refs : Multiset Ref) = ↑items ∧
        h'.Counted (↑d.refs + others)) ∧
    ((¬ ∃ given, Dict.refs ⟨given⟩ = items ∧ h.Keyed given) →
      ∃ err h' released, (dictOfPairs items).run h = .ok (.error err) h' ∧ h.Refused items err ∧
        decRefs released h = .ok () h' ∧ released.Perm items ∧ h'.Counted others) := by
  have hcases := keyed_or_refused hc items heven (fun r hr => by simp [hr])
  refine ⟨⟨?_, ?_⟩, ?_, ?_⟩
  · rintro ⟨d, h', hrun⟩
    rcases hcases with hkeyed | ⟨err, hrefused⟩
    · exact hkeyed
    · obtain ⟨h'', released, hrun', -⟩ := dictOfPairs_refused hrefused hc
      simp [hrun] at hrun'
  · rintro ⟨given, rfl, hk⟩
    obtain ⟨d, h', released, hrun, -⟩ := dictOfPairs_keyed hk hc
    exact ⟨d, h', hrun⟩
  · rintro given rfl hk
    exact dictOfPairs_keyed hk hc
  · intro hnone
    obtain ⟨err, hrefused⟩ := hcases.resolve_left hnone
    obtain ⟨h', released, hrun, hreleased, hperm, hc'⟩ := dictOfPairs_refused hrefused hc
    exact ⟨err, h', released, hrun, hrefused, hreleased, hperm, hc'⟩

/-- A dict of `1: "a"` and `True: "b"` has one entry, and one with a list for a key is refused. -/
theorem dictOfPairs_spec_repeated :
    (∃ h d h', h.Counted (↑([⟨4⟩, ⟨5⟩, trueRef, ⟨6⟩] : List Ref) + 0) ∧
      Even ([⟨4⟩, ⟨5⟩, trueRef, ⟨6⟩] : List Ref).length ∧
      (dictOfPairs [⟨4⟩, ⟨5⟩, trueRef, ⟨6⟩]).run h = .ok (.ok d) h' ∧
      d.entries.map (·.key) = [.int 1] ∧ h'.Counted (↑d.refs + 0)) ∧
    ∃ h err h' released, h.Counted (↑([⟨4⟩, trueRef] : List Ref) + 0) ∧
      Even ([⟨4⟩, trueRef] : List Ref).length ∧
      (dictOfPairs [⟨4⟩, trueRef]).run h = .ok (.error err) h' ∧
      decRefs released h = .ok () h' ∧ released.Perm [⟨4⟩, trueRef] := by
  refine ⟨?_, ?_⟩
  · let h (entries : List Entry) : Heap := freshWith .unlimited entries
    let one : Entry := ⟨1, false, .int 1⟩
    let text (s : String) : Entry := ⟨1, false, .str s⟩
    have hone : Reached (h [one]) ⟨⟨4⟩ ::ₘ 0, 0⟩ :=
      (Reached.fresh .unlimited).allocate (o := one.object) rfl rfl
    have hfirst : Reached (h [one, text "a"]) ⟨⟨5⟩ ::ₘ ⟨4⟩ ::ₘ 0, 0⟩ :=
      hone.allocate (o := .str "a") rfl rfl
    have hsecond : Reached (h [one, text "a", text "b"]) ⟨⟨6⟩ ::ₘ ⟨5⟩ ::ₘ ⟨4⟩ ::ₘ 0, 0⟩ :=
      hfirst.allocate (o := .str "b") rfl rfl
    have htrue : Reached (h [one, text "a", text "b"])
        ⟨trueRef ::ₘ ⟨6⟩ ::ₘ ⟨5⟩ ::ₘ ⟨4⟩ ::ₘ 0, 0⟩ := hsecond.retain rfl
    have hc : (h [one, text "a", text "b"]).Counted
        (↑([⟨4⟩, ⟨5⟩, trueRef, ⟨6⟩] : List Ref) + 0) := by
      convert htrue.sound.counted using 1
      decide
    have hk : (h [one, text "a", text "b"]).Keyed [⟨.int 1, ⟨4⟩, ⟨5⟩⟩, ⟨.int 1, trueRef, ⟨6⟩⟩] := by
      intro e he
      have hrun : (projection e.keyRef).run (h [one, text "a", text "b"]) =
          .ok (.ok e.key) (h [one, text "a", text "b"]) := by
        rcases List.mem_pair.mp he with rfl | rfl <;> rfl
      obtain ⟨hkey, hdepth, -⟩ := projection_iff.mp hrun
      exact ⟨hkey, hdepth⟩
    obtain ⟨d, h', released, hrun, hgathers, -, -, hc'⟩ :=
      (dictOfPairs_spec hc (by decide)).2.1 _ rfl hk
    exact ⟨_, d, h', hc, by decide, hrun, hgathers.keys, hc'⟩
  · let h : Heap := freshWith .unlimited [⟨1, false, .list ⟨[], 0⟩⟩]
    have hlist : Reached h ⟨⟨4⟩ ::ₘ 0, 0⟩ :=
      (Reached.fresh .unlimited).allocate (o := .list ⟨[], 0⟩) rfl rfl
    have hpair : Reached h ⟨trueRef ::ₘ ⟨4⟩ ::ₘ 0, 0⟩ := hlist.retain rfl
    have hc : h.Counted (↑([⟨4⟩, trueRef] : List Ref) + 0) := by
      convert hpair.sound.counted using 1
      decide
    have hnone : ¬ ∃ given, Dict.refs ⟨given⟩ = [⟨4⟩, trueRef] ∧ h.Keyed given := by
      rintro ⟨given, hrefs, hk⟩
      have hrefused : (projection ⟨4⟩).run h = .ok (.error (.unhashable "list")) h := rfl
      cases given with
      | nil => cases hrefs
      | cons e given =>
        have hkey : e.keyRef = ⟨4⟩ := (List.cons.inj hrefs).1
        have hfound := hk.projection List.mem_cons_self
        rw [hkey, hrefused] at hfound
        cases hfound
    obtain ⟨err, h', released, hrun, -, hreleased, hperm, -⟩ :=
      (dictOfPairs_spec hc (by decide)).2.2 hnone
    exact ⟨h, err, h', released, hc, by decide, hrun, hreleased, hperm⟩

end Heap

end NativeCall
