import Mathlib.Algebra.Order.BigOperators.Group.List
import Mathlib.Algebra.Order.Group.Nat
import Mathlib.Data.Fintype.EquivFin
import Mathlib.Logic.Relation
import NativeCall.Proofs.Heap.Command

/-!
# Exact counts over whole runs

A client keeps books when it spends each reference that it owns at most once and asks for new ones
only of objects that it can see. `Owns t h owned` says that such a client, on a heap that was fresh
with the tracker `t`, has come to the heap `h` and owns the references `owned`. Its commands may be
granted or refused.

A client that keeps books is never stopped, counts are exact at any time, and what is immortal stays
as it is (`counts_exact`). Nothing is left behind either, but for one exception: a list can be put
into itself, and then keeps itself alive. To show that there is no other, `Ranked` gives every
object a rank above those that it holds, where it is no list. An object is ranked when it is made,
since what it holds was made before; only a list gets items that may be younger than it is. So a
chain of objects each of which holds the next one ends (`Kept.reachable`), unless it goes through a
list and back to it.

## The invariant

`Kept` has four parts. Two of them are known from elsewhere: the heap is counted for what the client
owns, and furnished with the objects that are always there. `Modest` is about immortal objects and
says that they cannot be in anyone's way: they count one, hold nothing and are no lists, so a chain
of holders does not begin at one of them and no command changes one. `Ranked` is the part that
reachability needs.

A rank is not the index of a slot, since slots are used again, and not the time at which an object
was made, since the heap keeps no time. So the rank is existentially quantified, and placing an
object in a slot that another one had before defines the rank there anew: nobody refers to an empty
slot, so no inequality that was there speaks of it.

## The argument for reachability

Take a mortal object that no chain reaches from what the client owns. Its count is positive, so
somebody owns or holds a reference; nobody owns one, so some object holds one, which is mortal
itself, since immortal objects hold nothing. Going on like that, holders are found without end, on a
heap with finitely many slots. One of them comes twice, and the ranks along the cycle go down unless
the cycle goes through a list. In the proof the descent is an induction over the slots, along the
relation of being held, which is well-founded because it is transitive, finite and without cycles.
-/

namespace NativeCall

/-! ## Clients that keep books -/

namespace Command

/-- The references that a command takes from its caller. -/
def spends : Command → List Ref
  | allocate o => o.children
  | decRef r => [r]
  | append _ item => [item]
  | _ => []

/-- The references that a command only looks at. -/
def borrows : Command → List Ref
  | incRef r => [r]
  | append list _ => [list]
  | _ => []

end Command

namespace Heap

/-- An object that a client can see: one that it owns a reference to, one that another object
holds, one that is always there, or an interned string. -/
def Sees (h : Heap) (owned : Multiset Ref) (r : Ref) : Prop :=
  r ∈ owned ∨ r ∈ h.held ∨ r.index < singletons.length ∨ ∃ text, h.internedRef? text = some r

/-- A command that a client who keeps books may give: it releases nothing but what the client owns,
and looks only at what the client sees. -/
structure Permits (h : Heap) (owned : Multiset Ref) (c : Command) : Prop where
  counted : ∀ r, c ≠ .releaseStorage r
  sees : ∀ r ∈ c.borrows, h.Sees owned r

/-- A client that keeps books has come to the heap `h` and owns the references `owned`. -/
inductive Owns (t : Tracker) : Heap → Multiset Ref → Prop where
  | fresh : Owns t (fresh t) 0
  /-- It takes one of the objects that are always there. -/
  | singleton {h : Heap} {owned : Multiset Ref} (ho : Owns t h owned) {r : Ref}
      (hr : r.index < singletons.length) : Owns t h (r ::ₘ owned)
  /-- It gives a command, pays with references that it owns, and owns what the command returns. -/
  | command {h h' : Heap} {owned : Multiset Ref} {given : List Ref} (c : Command)
      (ho : Owns t h (↑c.spends + owned)) (hc : h.Permits (↑c.spends + owned) c)
      (hrun : c.run h = .ok given h') : Owns t h' (↑given + owned)

/-- The object in one slot holds a reference to another. -/
def Holds (h : Heap) (a b : Ref) : Prop :=
  ∃ e, h.slot? a = some e ∧ b ∈ e.object.children

variable {h h' : Heap} {owned : Multiset Ref} {r q : Ref} {e : Entry}

/-! ## Ranks -/

/-- Objects other than lists are ranked above what they hold. -/
def Ranked (h : Heap) : Prop :=
  ∃ rank : Ref → Nat, ∀ r e, h.slot? r = some e → (∀ store, e.object ≠ .list store) →
    ∀ q ∈ e.object.children, rank q < rank r

lemma ranked_fresh (t : Tracker) : (fresh t).Ranked := by
  refine ⟨fun _ => 0, fun r e he _ q hq => ?_⟩
  rw [slot?_fresh] at he
  obtain ⟨o, ho, rfl⟩ := Option.map_eq_some_iff.mp he
  have hmem := List.mem_of_getElem? ho
  simp only [singletons, List.mem_cons, List.not_mem_nil, or_false] at hmem
  rcases hmem with rfl | rfl | rfl | rfl <;> exact absurd hq List.not_mem_nil

lemma Ranked.nothingNew (hr : h.Ranked) (hn : NothingNew h h') : h'.Ranked := by
  obtain ⟨rank, hrank⟩ := hr
  refine ⟨rank, fun r e' he' hl q hq => ?_⟩
  obtain ⟨e, he, ho⟩ := hn.object r e' he'
  rw [ho] at hl hq
  exact hrank r e he hl q hq

/-- A new object is ranked above what it holds. Nobody holds it yet. -/
lemma Ranked.placed (hr : h.Ranked) (hp : Placed h e r h')
    (hnew : ∀ q f, h.slot? q = some f → r ∉ f.object.children) (hself : r ∉ e.object.children) :
    h'.Ranked := by
  obtain ⟨rank, hrank⟩ := hr
  -- Any number above the ranks of what the object holds will do; the sum of them is one.
  obtain ⟨top, htop⟩ : ∃ top, ∀ q ∈ e.object.children, rank q < top := by
    refine ⟨(e.object.children.map rank).sum + 1, fun q hq => ?_⟩
    exact Nat.lt_succ_of_le (List.le_sum_of_mem (List.mem_map_of_mem hq))
  refine ⟨Function.update rank r top, fun q f hf hl p hp' => ?_⟩
  rw [hp.slots] at hf
  by_cases hqr : q = r
  · subst hqr
    rw [Function.update_self] at hf
    obtain rfl := Option.some.inj hf
    have hpq : p ≠ q := fun hpq => hself (hpq ▸ hp')
    rw [Function.update_self, Function.update_of_ne hpq]
    exact htop p hp'
  · rw [Function.update_of_ne hqr] at hf
    have hpr : p ≠ r := fun hpr => hnew q f hf (hpr ▸ hp')
    rw [Function.update_of_ne hqr, Function.update_of_ne hpr]
    exact hrank q f hf hl p hp'

/-- Lists are not ranked, so they may get any items. -/
lemma Ranked.setList (hr : h.Ranked) (he : h.slot? r = some e) (store : ListStore) :
    (h.setSlot r (some { e with object := .list store })).Ranked := by
  obtain ⟨rank, hrank⟩ := hr
  refine ⟨rank, fun q f hf hl p hp => ?_⟩
  rw [slot?_setSlot _ (lt_size_of_slot? he)] at hf
  by_cases hqr : q = r
  · rw [hqr, Function.update_self] at hf
    obtain rfl := Option.some.inj hf
    exact absurd rfl (hl store)
  · rw [Function.update_of_ne hqr] at hf
    exact hrank q f hf hl p hp

/-! ## Immortal objects -/

/-- An entry that is immortal counts one reference, holds nothing and is no list. -/
def ModestEntry (e : Entry) : Prop :=
  e.immortal = true → e.refs = 1 ∧ e.object.children = [] ∧ ∀ store, e.object ≠ .list store

/-- Immortal objects count one reference, hold nothing and are no lists. -/
def Modest (h : Heap) : Prop :=
  ∀ r e, h.slot? r = some e → ModestEntry e

lemma modest_fresh (t : Tracker) : (fresh t).Modest := by
  intro r e he _
  rw [slot?_fresh] at he
  obtain ⟨o, ho, rfl⟩ := Option.map_eq_some_iff.mp he
  have hl := not_list_of_singletons ho
  have hmem := List.mem_of_getElem? ho
  simp only [singletons, List.mem_cons, List.not_mem_nil, or_false] at hmem
  rcases hmem with rfl | rfl | rfl | rfl <;> exact ⟨rfl, rfl, hl⟩

/-- One slot gets a modest entry, or none. -/
lemma Modest.of_update {s : Option Entry} (hm : h.Modest)
    (hslot : h'.slot? = Function.update h.slot? r s) (hs : ∀ e, s = some e → ModestEntry e) :
    h'.Modest := by
  intro q f hf
  rw [hslot] at hf
  by_cases hqr : q = r
  · rw [hqr, Function.update_self] at hf
    exact hs f hf
  · rw [Function.update_of_ne hqr] at hf
    exact hm q f hf

lemma Modest.setSlot (hm : h.Modest) (he : h.slot? r = some e) {e' : Entry}
    (he' : ModestEntry e') : (h.setSlot r (some e')).Modest := by
  refine hm.of_update (slot?_setSlot _ (lt_size_of_slot? he)) (fun f hf => ?_)
  cases hf
  exact he'

lemma Modest.placed {t : Tracker} (hm : h.Modest) (hp : Placed { h with tracker := t } e r h')
    (he : ModestEntry e) : h'.Modest := by
  refine hm.of_update hp.slots (fun f hf => ?_)
  cases hf
  exact he

lemma Modest.happens (hm : h.Modest) (ht : h.Tidy) {event : Event} (hev : Happens h event h')
    (hp : event.Respects Object.Grows) : h'.Modest := by
  cases hev with
  | allocated hrun =>
    obtain ⟨t, -, hplaced⟩ := ht.allocate hrun
    exact hm.placed hplaced (fun himm => by cases himm)
  | @interned _ text r hnew hrun =>
    obtain ⟨t, h₁, -, hplaced, rfl⟩ := ht.intern hnew hrun
    have hmodest : h₁.Modest := by
      refine hm.placed hplaced (fun _ => ⟨rfl, rfl, ?_⟩)
      intro store hstore
      cases hstore
    exact hmodest
  | recounted he hme n =>
    refine hm.setSlot he (fun himm => ?_)
    rw [hme] at himm
    cases himm
  | @freed r e he hme =>
    refine hm.of_update (slot?_vacate _ (lt_size_of_slot? he)) (fun f hf => ?_)
    cases hf
  | changed he o =>
    obtain ⟨store, item, hold, rfl⟩ := hp
    refine hm.setSlot he (fun himm => ?_)
    exact absurd hold ((hm _ _ he himm).2.2 store)
  | leveled n => exact hm

/-! ## Books are kept -/

/-- What holds of a heap whose client keeps books and owns the references `owned`. -/
structure Kept (h : Heap) (owned : Multiset Ref) : Prop where
  counted : h.Counted owned
  furnished : h.Furnished
  modest : h.Modest
  ranked : h.Ranked

lemma kept_fresh (t : Tracker) : (fresh t).Kept 0 :=
  ⟨counted_fresh t, furnished_fresh t, modest_fresh t, ranked_fresh t⟩

lemma Kept.of_nil (hk : h.Kept (↑([] : List Ref) + owned)) : h.Kept owned := by
  rwa [Multiset.coe_nil, zero_add] at hk

/-- What a client sees is alive. -/
lemma Kept.live (hk : h.Kept owned) (hr : h.Sees owned r) : h.slot? r ≠ none := by
  rcases hr with hr | hr | hr | ⟨text, hr⟩
  · exact hk.counted.live r (Multiset.mem_add.mpr (.inl hr))
  · exact hk.counted.live r (Multiset.mem_add.mpr (.inr hr))
  · have hs := hk.furnished.singleton r.index _ (List.getElem?_eq_getElem hr)
    show h.slot? ⟨r.index⟩ ≠ none
    rw [hs]
    exact Option.some_ne_none _
  · rw [hk.furnished.interned text r hr]
    exact Option.some_ne_none _

/-- A new object is ranked, if what it holds is alive. -/
lemma Kept.ranked_placed {t : Tracker} (hk : h.Kept owned)
    (hp : Placed { h with tracker := t } e r h')
    (hlive : ∀ q ∈ e.object.children, h.slot? q ≠ none) : h'.Ranked := by
  refine Ranked.placed (h := { h with tracker := t }) hk.ranked hp (fun q f hf hr => ?_)
    (fun hr => hlive r hr hp.empty)
  exact hk.counted.slot?_child hf hr hp.empty

/-- An allocation takes over what the new object holds, whether it is granted or refused. -/
lemma Kept.allocate {o : Object} (hk : h.Kept (↑o.children + owned)) :
    ∃ given h', (Command.allocate o).run h = .ok given h' ∧ h'.Counted (↑given + owned) ∧
      h'.Ranked := by
  have htransfers : Transfers 0 (Heap.allocate o).run o.children (ofOutcome (fun r => {r}) 0) :=
    .allocate o
  obtain ⟨outcome, h', hrun, htrade⟩ := htransfers h owned (Multiset.zero_le _) hk.counted
  have hinv := allocate_inv hk.counted hrun
  cases outcome with
  | ok r =>
    refine ⟨[r], h', bind_ok hrun, htrade.counted, ?_⟩
    rcases hinv with ⟨q, t, hq, hp⟩ | ⟨e, he, -⟩
    · cases hq
      refine hk.ranked_placed hp (fun q hq => ?_)
      exact hk.counted.slot?_ne_none (Multiset.mem_add.mpr (.inl hq))
    · cases he
  | error e =>
    refine ⟨[], h', bind_ok hrun, htrade.counted, ?_⟩
    rcases hinv with ⟨q, t, hq, -⟩ | ⟨e, -, hdrop⟩
    · cases hq
    · exact hk.ranked.nothingNew (.decRefs hdrop)

/-- Interned strings are immortal, so nobody counts references to them. -/
lemma Kept.intern (hk : h.Kept owned) (text : String) :
    ∃ given h', (Command.intern text).run h = .ok given h' ∧ h'.Counted (↑given + owned) ∧
      h'.Ranked := by
  obtain ⟨outcome, h', hrun, hi⟩ := intern_run hk.counted text
  refine ⟨[], h', bind_ok hrun, ?_⟩
  rw [Multiset.coe_nil, zero_add]
  cases hi with
  | known | refused => exact ⟨hk.counted, hk.ranked⟩
  | made hr hp =>
    have hc := hp.counted_immortal rfl rfl rfl (hk.counted.withTracker _)
    have hranked := hk.ranked_placed hp (fun q hq => absurd hq List.not_mem_nil)
    exact ⟨⟨hc.live, hc.refs, hc.nodup_freeList, hc.mem_freeList, hc.singleton⟩, hranked⟩

/-- A list takes an item over; what is no list leaves it to the client. -/
lemma Kept.append {list item : Ref} (hk : h.Kept (↑[item] + owned))
    (hlive : h.slot? list ≠ none) :
    ∃ given h', (Command.append list item).run h = .ok given h' ∧ h'.Counted (↑given + owned) ∧
      h'.Ranked := by
  obtain ⟨e, hs⟩ := Option.ne_none_iff_exists'.mp hlive
  by_cases hlist : ∃ store, e.object = .list store
  · obtain ⟨store, ho⟩ := hlist
    refine ⟨[], _, append_list hs ho, ?_, hk.ranked.setList hs _⟩
    refine hk.counted.update hs ?_ ?_
    · rw [ho]
      simp [singletons]
    · rw [ho]
      show (↑(store.items ++ [item]) : Multiset Ref) + (↑([] : List Ref) + owned) = _
      rw [← Multiset.coe_add, Multiset.coe_nil, zero_add, add_assoc]
      rfl
  · exact ⟨[item], h, append_other hs (fun store ho => hlist ⟨store, ho⟩), hk.counted, hk.ranked⟩

/-- A permitted command is not stopped, and books are kept after it. -/
lemma Kept.command {c : Command} (hk : h.Kept (↑c.spends + owned))
    (hc : h.Permits (↑c.spends + owned) c) :
    ∃ given h', c.run h = .ok given h' ∧ h'.Kept (↑given + owned) := by
  -- Each command is a transfer, which gives the counts, and the ranks are a look at what it places
  -- or changes.
  have hrun : ∃ given h', c.run h = .ok given h' ∧ h'.Counted (↑given + owned) ∧ h'.Ranked := by
    cases c with
    | allocate o => exact hk.allocate
    | intern text =>
      have hk' : h.Kept owned := hk.of_nil
      exact hk'.intern text
    | incRef r =>
      have hk' : h.Kept owned := hk.of_nil
      obtain ⟨e, hs⟩ := Option.ne_none_iff_exists'.mp
        (hk.live (hc.sees r (List.mem_singleton_self r)))
      obtain ⟨h', hinc, hcounted⟩ := hk'.counted.incRef hs
      exact ⟨[r], h', bind_ok hinc, hcounted, hk'.ranked.nothingNew (.incRef hinc)⟩
    | decRef r =>
      obtain ⟨h', hdrop, hcounted⟩ := hk.counted.drain
      refine ⟨[], h', bind_ok (show decRef r h = .ok () h' from hdrop), ?_,
        hk.ranked.nothingNew (.drain hdrop)⟩
      rwa [Multiset.coe_nil, zero_add]
    | releaseStorage r => exact absurd rfl (hc.counted r)
    | append list item =>
      exact hk.append (hk.live (hc.sees list (List.mem_singleton_self list)))
  obtain ⟨given, h', hrun, hcounted, hranked⟩ := hrun
  obtain ⟨log, hl, hp⟩ := command_effect c h
  rw [after_ok hrun] at hl
  -- The other two parts hold after any event, so they follow from the history alone.
  have hkeeps : h'.Tidy ∧ h'.Furnished ∧ h'.Modest := by
    refine hl.keeps (I := fun h => h.Tidy ∧ h.Furnished ∧ h.Modest) hp
      (fun h event h' hp hev hi => ?_) ⟨hk.counted.tidy, hk.furnished, hk.modest⟩
    obtain ⟨ht, hf, hm⟩ := hi
    exact ⟨ht.happens hev, hf.happens ht hev hp, hm.happens ht hev hp⟩
  exact ⟨given, h', hrun, hcounted, hkeeps.2.1, hkeeps.2.2, hranked⟩

lemma Owns.kept {t : Tracker} (ho : Owns t h owned) : h.Kept owned := by
  induction ho with
  | fresh => exact kept_fresh t
  | @singleton h owned _ r hr ih =>
    have hs := ih.furnished.singleton r.index _ (List.getElem?_eq_getElem hr)
    exact ⟨(Counted.of_immortal hs rfl).mpr ih.counted, ih.furnished, ih.modest, ih.ranked⟩
  | command c _ hc hrun ih =>
    obtain ⟨given, h', hrun', hk⟩ := ih.command hc
    cases hrun'.symm.trans hrun
    exact hk

/-! ## Nothing is left behind -/

lemma mem_sum_map {α β : Type} {f : α → Multiset β} {l : List α} {b : β}
    (hb : b ∈ (l.map f).sum) : ∃ a ∈ l, b ∈ f a := by
  induction l with
  | nil => exact absurd hb (Multiset.notMem_zero b)
  | cons a l ih =>
    rw [List.map_cons, List.sum_cons] at hb
    rcases Multiset.mem_add.mp hb with hb | hb
    · exact ⟨a, List.mem_cons_self, hb⟩
    · obtain ⟨a', ha', hb'⟩ := ih hb
      exact ⟨a', List.mem_cons_of_mem _ ha', hb'⟩

/-- Whatever is held is held by an object. -/
lemma exists_holds (hr : r ∈ h.held) : ∃ q, h.Holds q r := by
  obtain ⟨s, hs, hmem⟩ := mem_sum_map hr
  cases s with
  | none => exact absurd hmem (Multiset.notMem_zero r)
  | some e =>
    obtain ⟨i, hi, hget⟩ := List.getElem_of_mem hs
    refine ⟨⟨i⟩, e, ?_, hmem⟩
    rw [slot?, ← Array.getElem?_toList, List.getElem?_eq_getElem hi, hget]
    rfl

/-- Along a chain of objects ranks go down, unless it goes through a list. -/
lemma rank_lt_or_list {rank : Ref → Nat} {a b : Ref}
    (hrank : ∀ r e, h.slot? r = some e → (∀ store, e.object ≠ .list store) →
      ∀ q ∈ e.object.children, rank q < rank r) (hab : Relation.TransGen h.Holds a b) :
    rank b < rank a ∨ ∃ l store, h.object? l = some (.list store) ∧
      Relation.ReflTransGen h.Holds a l ∧ Relation.TransGen h.Holds l b := by
  have hstep : ∀ {p q : Ref}, h.Holds p q →
      rank q < rank p ∨ ∃ store, h.object? p = some (.list store) := by
    rintro p q ⟨e, he, hq⟩
    by_cases hlist : ∃ store, e.object = .list store
    · obtain ⟨store, ho⟩ := hlist
      refine .inr ⟨store, ?_⟩
      rw [object?, he, ← ho]
      rfl
    · exact .inl (hrank p e he (fun store ho => hlist ⟨store, ho⟩) q hq)
  -- Following the chain from its end, either no list has been met so far and ranks have gone down,
  -- or one has, and it is remembered with the way from it to here.
  induction hab with
  | single hb =>
    rcases hstep hb with hlt | ⟨store, hs⟩
    · exact .inl hlt
    · exact .inr ⟨a, store, hs, .refl, .single hb⟩
  | @tail b c hab hc ih =>
    rcases ih with hlt | ⟨l, store, hs, hal, hlb⟩
    · rcases hstep hc with hlt' | ⟨store, hs⟩
      · exact .inl (hlt'.trans hlt)
      · exact .inr ⟨b, store, hs, hab.to_reflTransGen, .single hc⟩
    · exact .inr ⟨l, store, hs, hal, hlb.tail hc⟩

/-- If no list is put into itself, nothing is. -/
lemma Ranked.acyclic (hr : h.Ranked)
    (hlists : ∀ l store, h.object? l = some (.list store) → ¬ Relation.TransGen h.Holds l l)
    (r : Ref) : ¬ Relation.TransGen h.Holds r r := by
  intro hcycle
  obtain ⟨rank, hrank⟩ := hr
  rcases rank_lt_or_list hrank hcycle with hlt | ⟨l, store, hs, hrl, hlr⟩
  · exact absurd hlt (Nat.lt_irrefl _)
  · exact hlists l store hs (hlr.trans_left hrl)

/-- Where no list is put into itself, everything mortal is reachable from what is owned: the chain
of those that hold it ends, and the last one is held by nobody. -/
lemma Kept.reachable (hk : h.Kept owned)
    (hlists : ∀ l store, h.object? l = some (.list store) → ¬ Relation.TransGen h.Holds l l)
    (he : h.slot? r = some e) (hm : e.immortal = false) :
    ∃ root ∈ owned, Relation.ReflTransGen h.Holds root r := by
  have hwf : WellFounded
      (fun i j : Fin h.slots.size => Relation.TransGen h.Holds ⟨i.val⟩ ⟨j.val⟩) := by
    have htrans : IsTrans (Fin h.slots.size)
        (fun i j => Relation.TransGen h.Holds ⟨i.val⟩ ⟨j.val⟩) :=
      ⟨fun _ _ _ hij hjk => hij.trans hjk⟩
    have hirrefl : Std.Irrefl
        (fun i j : Fin h.slots.size => Relation.TransGen h.Holds ⟨i.val⟩ ⟨j.val⟩) :=
      ⟨fun i => hk.ranked.acyclic hlists ⟨i.val⟩⟩
    exact Finite.wellFounded_of_trans_of_irrefl _
  have hall : ∀ (i : Fin h.slots.size) (e : Entry), h.slot? ⟨i.val⟩ = some e →
      e.immortal = false → ∃ root ∈ owned, Relation.ReflTransGen h.Holds root ⟨i.val⟩ := by
    intro i
    induction i using hwf.induction with
    | _ i ih =>
      intro e he hm
      by_cases howned : (⟨i.val⟩ : Ref) ∈ owned
      · exact ⟨_, howned, .refl⟩
      · obtain ⟨hpos, hcount⟩ := hk.counted.refs _ e he hm
        rw [hcount] at hpos
        have hheld : (⟨i.val⟩ : Ref) ∈ h.held :=
          (Multiset.mem_add.mp (Multiset.count_pos.mp hpos)).resolve_left howned
        obtain ⟨q, f, hf, hmem⟩ := exists_holds hheld
        have hfm : f.immortal = false := by
          by_contra himm
          have hnil := (hk.modest q f hf (Bool.not_eq_false _ ▸ himm)).2.1
          rw [hnil] at hmem
          exact absurd hmem List.not_mem_nil
        obtain ⟨root, hroot, hpath⟩ :=
          ih ⟨q.index, lt_size_of_slot? hf⟩ (.single ⟨f, hf, hmem⟩) f hf hfm
        exact ⟨root, hroot, hpath.tail ⟨f, hf, hmem⟩⟩
  exact hall ⟨r.index, lt_size_of_slot? he⟩ e he hm

/-- What is reachable from an owned reference is alive. -/
lemma Kept.live_of_reachable (hk : h.Kept owned) {root : Ref} (hroot : root ∈ owned)
    (hpath : Relation.ReflTransGen h.Holds root r) : h.slot? r ≠ none := by
  induction hpath with
  | refl => exact hk.counted.slot?_ne_none hroot
  | tail _ hlast _ =>
    obtain ⟨e, he, hmem⟩ := hlast
    exact hk.counted.slot?_child he hmem

/-- **Counts are exact over whole runs.** Let a client that keeps books have come to a heap, with
commands that were granted or refused. Whatever it owns is alive, and so is whatever a live object
holds. A mortal object counts the references that the client owns to it and those that live objects
hold, and there is at least one. An immortal object counts one, and no command changes that. The
next command that keeps books is not stopped, and books are kept after it. If no list holds itself,
directly or through others, then the mortal objects are those that can be reached from what the
client owns. -/
theorem counts_exact {t : Tracker} (ho : Owns t h owned) :
    (∀ r ∈ owned, h.slot? r ≠ none) ∧
    (∀ r q, h.Holds r q → h.slot? q ≠ none) ∧
    (∀ r e, h.slot? r = some e → e.immortal = false →
      e.refs = owned.count r + h.held.count r ∧ 1 ≤ e.refs) ∧
    (∀ r e, h.slot? r = some e → e.immortal = true →
      e.refs = 1 ∧ ∀ c : Command, (after c.run h).slot? r = some e) ∧
    (∀ (c : Command) rest, owned = ↑c.spends + rest → h.Permits owned c →
      ∃ given h', c.run h = .ok given h' ∧ Owns t h' (↑given + rest)) ∧
    ((∀ l store, h.object? l = some (.list store) → ¬ Relation.TransGen h.Holds l l) →
      ∀ r, (∃ e, h.slot? r = some e ∧ e.immortal = false) ↔
        (∃ root ∈ owned, Relation.ReflTransGen h.Holds root r) ∧
          ∀ e, h.slot? r = some e → e.immortal = false) := by
  have hk := ho.kept
  refine ⟨fun r hr => hk.counted.slot?_ne_none hr, ?_, fun r e he hm => ?_, fun r e he hm => ?_,
    fun c rest howned hc => ?_, fun hlists r => ?_⟩
  · rintro r q ⟨e, he, hq⟩
    exact hk.counted.slot?_child he hq
  · obtain ⟨hpos, hcount⟩ := hk.counted.refs r e he hm
    rw [Multiset.count_add] at hcount
    exact ⟨hcount, hpos⟩
  · obtain ⟨hone, -, hlist⟩ := hk.modest r e he hm
    refine ⟨hone, fun c => ?_⟩
    obtain ⟨log, hl, hp⟩ := command_effect c h
    exact hl.immortal hk.counted.tidy hp he hm hlist
  · subst howned
    obtain ⟨given, h', hrun, -⟩ := hk.command hc
    exact ⟨given, h', hrun, .command c ho hc hrun⟩
  · constructor
    · rintro ⟨e, he, hm⟩
      refine ⟨hk.reachable hlists he hm, fun e' he' => ?_⟩
      obtain rfl := Option.some.inj (he.symm.trans he')
      exact hm
    · rintro ⟨⟨root, hroot, hpath⟩, hm⟩
      obtain ⟨e, he⟩ := Option.ne_none_iff_exists'.mp (hk.live_of_reachable hroot hpath)
      exact ⟨e, he, hm e he⟩

/-- A client makes a list and a number, puts one of two references to the number into the list, and
is refused another number. -/
theorem counts_exact_list :
    ∃ t h, Owns t h {⟨5⟩, ⟨4⟩} ∧ h.slot? ⟨5⟩ = some ⟨2, false, .int 5⟩ ∧
      h.held.count ⟨5⟩ = 1 ∧
      (∀ l store, h.object? l = some (.list store) → ¬ Relation.TransGen h.Holds l l) ∧
      ∀ r, (∃ e, h.slot? r = some e ∧ e.immortal = false) →
        ∃ root ∈ ({⟨5⟩, ⟨4⟩} : Multiset Ref), Relation.ReflTransGen h.Holds root r := by
  let t (allocations memory : Nat) : Tracker := .limited ⟨⟨some 2, none⟩, allocations, memory⟩
  let number (refs : Nat) : Entry := ⟨refs, false, .int 5⟩
  let list (store : ListStore) : Entry := ⟨1, false, .list store⟩
  let h := freshWith (t 2 176) [list ⟨[⟨5⟩], 4⟩, number 2]
  have hfree : ∀ {h : Heap} {owned : Multiset Ref} (o : Object),
      h.Permits owned (.allocate o) :=
    fun o => ⟨by rintro r ⟨⟩, fun r hr => absurd hr List.not_mem_nil⟩
  have hlist : Owns (t 0 0) (freshWith (t 1 88) [list ⟨[], 0⟩])
      (↑([⟨4⟩] : List Ref) + 0) :=
    .command (.allocate (.list ⟨[], 0⟩)) .fresh (hfree _) rfl
  have hnumber : Owns (t 0 0) (freshWith (t 2 176) [list ⟨[], 0⟩, number 1])
      (↑([⟨5⟩] : List Ref) + (↑([⟨4⟩] : List Ref) + 0)) :=
    .command (.allocate (.int 5)) hlist (hfree _) rfl
  have hshared : Owns (t 0 0) (freshWith (t 2 176) [list ⟨[], 0⟩, number 2])
      (↑([⟨5⟩] : List Ref) + (↑([⟨5⟩] : List Ref) + (↑([⟨4⟩] : List Ref) + 0))) := by
    refine .command (.incRef ⟨5⟩) hnumber ⟨by rintro r ⟨⟩, fun r hr => .inl ?_⟩ rfl
    rw [List.mem_singleton.mp hr]
    decide
  have happended : Owns (t 0 0) h
      (↑([] : List Ref) + (↑([⟨5⟩] : List Ref) + (↑([⟨4⟩] : List Ref) + 0))) := by
    refine .command (.append ⟨4⟩ ⟨5⟩) hshared ⟨by rintro r ⟨⟩, fun r hr => .inl ?_⟩ rfl
    rw [List.mem_singleton.mp hr]
    decide
  have howns : Owns (t 0 0) h {⟨5⟩, ⟨4⟩} :=
    .command (.allocate (.int 9)) happended (hfree _) rfl
  obtain ⟨-, -, hcounts, -, -, hreach⟩ := counts_exact howns
  have hholds : ∀ a b, h.Holds a b → a = ⟨4⟩ ∧ b = ⟨5⟩ := by
    rintro ⟨i⟩ b ⟨e, he, hb⟩
    have hall : ∀ i < 6, ∀ b ∈ ((h.object? ⟨i⟩).map Object.children).getD [],
        (⟨i⟩ : Ref) = ⟨4⟩ ∧ b = ⟨5⟩ := by
      decide
    refine hall i (lt_size_of_slot? he) b ?_
    rw [object?, he]
    exact hb
  have hlists : ∀ l store, h.object? l = some (.list store) →
      ¬ Relation.TransGen h.Holds l l := by
    intro l store _ hcycle
    obtain ⟨b, hfirst, -⟩ := Relation.TransGen.head'_iff.mp hcycle
    obtain ⟨c, -, hlast⟩ := Relation.TransGen.tail'_iff.mp hcycle
    obtain ⟨rfl, -⟩ := hholds _ _ hfirst
    obtain ⟨-, hl⟩ := hholds _ _ hlast
    cases hl
  have hslot : h.slot? ⟨5⟩ = some (number 2) := rfl
  refine ⟨t 0 0, h, howns, hslot, ?_, hlists, fun r hr => ((hreach hlists r).mp hr).1⟩
  obtain ⟨hcount, -⟩ := hcounts _ _ hslot rfl
  have howned : ({⟨5⟩, ⟨4⟩} : Multiset Ref).count ⟨5⟩ = 1 := by decide
  rw [howned] at hcount
  exact (Nat.add_left_cancel hcount).symm

end Heap

end NativeCall
