import NativeCall.Proofs.Heap.ExactCounts
import NativeCall.Proofs.Heap.Steps

/-!
# Stored keys stay right

A dict computes the key of an object once, when the object enters the dict. The object lives on in a
heap where objects change in place, where others are freed and their slots filled again, and where
the depth budget goes up and down. The stored key stays right all the same, for three reasons. The
dict holds a reference to the object, and a tuple to its items, so nothing that a key was computed
from is freed. What changes in place is a list, a dict or an extension object; the first two have no
key, and an extension object has its identity for a key, whatever it holds (`SameParts`). And a key
that was found under some budget is found under every larger one, since its depth is what counts
(`projection_iff`).

`HasKey.stays` says this of the objects that live through a step. A dict has only entries that it
had before, and the one that was put into it (`knows_of_step`, `entry_of_setItem`). So whatever a
client does, every entry of every dict is stored under the key of its object (`Reached.stored`).

## Which changes are allowed

`Reached` is the run of a client with one proviso: an object that lives on stays of its kind.
Without it a list could become an extension object in its slot, which would give a key to something
that a tuple holds and that had none; nothing in the program does that, and a heap that is reached
says so. Beyond the proviso nothing is asked of a change in place. A list may get any items, itself
included.

## Under which budget

The key that is stored was found when some number of levels was left, and the theorem speaks of that
number (`Entered`). It is not the depth of the key. A key may be found with many levels left and be
shallow, and it is then found with as few as its depth; but what a user of a dict knows is the
budget of the first time, and that every budget from there on is as good.
-/

namespace NativeCall

namespace Heap

/-! ## What a client can bring a heap to -/

/-- Objects that live on stay of their kind. -/
def KeepsKinds (h h' : Heap) : Prop :=
  ∀ r o o', h.object? r = some o → h'.object? r = some o' → o'.kind = o.kind

/-- What a client can bring a fresh heap to by changing in place what stays of its kind: it puts
items into lists, writes to extension objects, and puts dicts in the place of dicts. -/
inductive Reached : Heap → Holdings → Prop where
  | fresh (t : Tracker) : Reached (fresh t) .empty
  | step {h h' : Heap} {s s' : Holdings} (hr : Reached h s) (hstep : Step h s h' s')
      (hkinds : KeepsKinds h h') : Reached h' s'

/-- An object at `r` entered a dict under a new key `k` when `n` levels were left. -/
def Entered (k : Key) (r : Ref) (n : Nat) : Prop :=
  ∃ h refs dicts d value h', Reached h ⟨r ::ₘ value ::ₘ refs, d ::ₘ dicts⟩ ∧ h.levels = n ∧
    (setItem d r value).run h = .ok (.ok (d.append ⟨k, r, value⟩)) h'

variable {h h' : Heap} {s s' : Holdings} {r : Ref} {k : Key} {d : Dict} {o o' : Object}
  {e : DictEntry} {refs : Multiset Ref} {dicts : Multiset Dict} {rs : List Ref} {ks : List Key}

lemma Reached.sound (hr : Reached h s) : h.Sound s := by
  induction hr with
  | fresh t => exact sound_fresh t
  | step _ hstep _ ih => exact ih.step hstep

/-! ## Making dicts of pairs -/

lemma NothingNew.keepsKinds (hn : NothingNew h h') : KeepsKinds h h' :=
  fun _ _ _ ho ho' => by rw [hn.object?_eq ho ho']

lemma Extends.keepsKinds (he : Extends h h') : KeepsKinds h h' :=
  fun _ _ _ ho ho' => by rw [he.object?_eq ho ho']

namespace Reached

variable {items : List Ref} {d' : Dict} {key value : Ref}

lemma retain (hr : Reached h ⟨refs, dicts⟩) (hrun : incRef r h = .ok () h') :
    Reached h' ⟨r ::ₘ refs, dicts⟩ :=
  hr.step (.retain hrun) (NothingNew.incRef hrun).keepsKinds

lemma allocate (hr : Reached h ⟨↑o.children + refs, dicts⟩) (ho : o.dict? = none)
    (hrun : (Heap.allocate o).run h = .ok (.ok r) h') : Reached h' ⟨r ::ₘ refs, dicts⟩ :=
  hr.step (.allocate ho hrun) (extends_of_allocate hr.sound.counted hrun).keepsKinds

lemma releases (hr : Reached h ⟨↑rs + refs, dicts⟩) (hrun : decRefs rs h = .ok () h') :
    Reached h' ⟨refs, dicts⟩ := by
  induction rs generalizing h with
  | nil =>
    cases hrun
    rwa [Multiset.coe_nil, zero_add] at hr
  | cons r rs ih =>
    obtain ⟨⟨⟩, h₁, hfirst, hrest⟩ := bind_inv hrun
    rw [← Multiset.cons_coe, Multiset.cons_add] at hr
    exact ih (hr.step (.release hfirst) (NothingNew.drain hfirst).keepsKinds) hrest

lemma setItem (hr : Reached h ⟨key ::ₘ value ::ₘ refs, d ::ₘ dicts⟩)
    (hrun : (Heap.setItem d key value).run h = .ok (.ok d') h') :
    Reached h' ⟨refs, d' ::ₘ dicts⟩ :=
  hr.step (.setItem hrun) (hr.sound.nothingNew_setItem hrun).keepsKinds

lemma rejectItem {e : RunError} (hr : Reached h ⟨key ::ₘ value ::ₘ refs, d ::ₘ dicts⟩)
    (hrun : (Heap.setItem d key value).run h = .ok (.error e) h') :
    Reached h' ⟨refs, d ::ₘ dicts⟩ :=
  hr.step (.rejectItem hrun) (hr.sound.nothingNew_setItem hrun).keepsKinds

/-- A dict that was made joins the others. -/
def join : Except RunError Dict → Multiset Dict → Multiset Dict
  | .ok d, dicts => d ::ₘ dicts
  | .error _, dicts => dicts

/-- Filling a dict from pairs is a course of steps: the pairs are put into it one by one, and if a
key is refused, what is left of the pairs and the dict is released. -/
lemma addPairs {h : Heap} {d : Dict} {outcome : Except RunError Dict} (items : List Ref)
    (hr : Reached h ⟨↑items + refs, d ::ₘ dicts⟩)
    (hrun : (Heap.addPairs d items).run h = .ok outcome h') :
    Reached h' ⟨refs, join outcome dicts⟩ := by
  match items with
  | [] =>
    cases hrun
    rwa [Multiset.coe_nil, zero_add] at hr
  | [key] =>
    obtain ⟨⟨⟩, h₁, hdrop, hrun⟩ := run_lift_bind_inv hrun
    cases hrun
    exact hr.step (.release hdrop) (NothingNew.drain hdrop).keepsKinds
  | key :: value :: items =>
    rw [← Multiset.cons_coe, ← Multiset.cons_coe, Multiset.cons_add, Multiset.cons_add] at hr
    rw [Heap.addPairs] at hrun
    obtain ⟨_, _, htry, -⟩ := bind_inv (x := (tryCatch (Heap.setItem d key value) _).run) hrun
    obtain ⟨tried, h₁, hset, -⟩ := bind_inv (x := (Heap.setItem d key value).run) htry
    cases tried with
    | ok d' =>
      rw [run_bind_ok (run_tryCatch_ok hset)] at hrun
      exact addPairs items (hr.setItem hset) hrun
    | error e =>
      have hr₁ := hr.rejectItem hset
      -- The pair is gone already; the items to come are released, and then the dict, which is taken
      -- apart for that.
      have hreleased : ∀ {outcome : Except RunError Dict} {h' : Heap},
          (ExceptT.lift (decRefs items) >>= fun _ => ExceptT.lift (releaseDict d) >>= fun _ =>
            (throw e : RunM Dict)).run h₁ = .ok outcome h' →
          outcome = .error e ∧ Reached h' ⟨refs, dicts⟩ := by
        intro outcome h' hraise
        obtain ⟨⟨⟩, h₂, hdrop, hraise⟩ := run_lift_bind_inv hraise
        obtain ⟨⟨⟩, h₃, hdrop', hraise⟩ := run_lift_bind_inv hraise
        cases hraise
        have hopened := (hr₁.releases hdrop).step .openDict (NothingNew.refl _).keepsKinds
        exact ⟨rfl, hopened.releases hdrop'⟩
      rcases run_bind_cases hrun with ⟨e', htry, rfl⟩ | ⟨d', h₂, htry, -⟩
      · rw [run_tryCatch_raised hset] at htry
        exact (hreleased htry).2
      · rw [run_tryCatch_raised hset] at htry
        cases (hreleased htry).1

lemma dictOfPairs (hr : Reached h ⟨↑items + refs, dicts⟩)
    (hrun : (Heap.dictOfPairs items).run h = .ok (.ok d) h') :
    Reached h' ⟨refs, d ::ₘ dicts⟩ :=
  addPairs items (hr.step .newDict (NothingNew.refl h).keepsKinds) hrun

end Reached

/-! ## Keys outlast changes -/

/-- Objects that live on keep all that their keys are computed from. -/
def SameParts (h h' : Heap) : Prop :=
  ∀ r o o', h.object? r = some o → h'.object? r = some o' →
    o'.atom? r = o.atom? r ∧ o'.tupleItems? = o.tupleItems?

/-- No key is computed from what a list or a dict holds, nor from what an extension object does. -/
lemma Changeable.same_parts (ho : Changeable o) (ho' : Changeable o') (hkind : o'.kind = o.kind)
    (r : Ref) : o'.atom? r = o.atom? r ∧ o'.tupleItems? = o.tupleItems? := by
  have hshape : ∀ {o : Object}, Changeable o →
      (∃ l, o = .list l) ∨ (∃ d, o = .dict d) ∨ ∃ n, o = .native n := by
    rintro o (hm | hd)
    · cases o with
      | list l => exact .inl ⟨l, rfl⟩
      | native n => exact .inr (.inr ⟨n, rfl⟩)
      | _ => exact hm.elim
    · exact .inr (.inl hd)
  rcases hshape ho with ⟨l, rfl⟩ | ⟨d, rfl⟩ | ⟨n, rfl⟩ <;>
    rcases hshape ho' with ⟨l', rfl⟩ | ⟨d', rfl⟩ | ⟨n', rfl⟩ <;>
    simp [Object.atom?, Object.tupleItems?, Object.kind] at hkind ⊢

lemma sameParts_of_step (hs : h.Sound s) (hstep : Step h s h' s') (hkinds : KeepsKinds h h') :
    SameParts h h' := by
  intro r o o' ho ho'
  -- Only the last of the three cases is a change in a slot, and there the kind is what it was.
  rcases step_cases hs hstep with hn | he | ⟨q, f, new, hf, rfl, hold, hnew⟩
  · rw [hn.object?_eq ho ho']
    exact ⟨rfl, rfl⟩
  · rw [he.object?_eq ho ho']
    exact ⟨rfl, rfl⟩
  · have hkind := hkinds r o o' ho ho'
    rw [object?, slot?_setSlot _ (lt_size_of_slot? hf)] at ho'
    by_cases hrq : r = q
    · rw [hrq, Function.update_self] at ho'
      rw [hrq, object?_of_slot? hf] at ho
      obtain rfl := Option.some.inj ho
      obtain rfl := Option.some.inj ho'
      exact hold.same_parts hnew hkind r
    · rw [Function.update_of_ne hrq] at ho'
      obtain rfl := Option.some.inj (ho.symm.trans ho')
      exact ⟨rfl, rfl⟩

/-- What objects hold is alive. -/
def Closed (h : Heap) : Prop :=
  ∀ r o, h.object? r = some o → ∀ q ∈ o.children, ∃ o', h.object? q = some o'

lemma exists_object? (hr : h.slot? r ≠ none) : ∃ o, h.object? r = some o := by
  obtain ⟨f, hf⟩ := Option.ne_none_iff_exists'.mp hr
  exact ⟨_, object?_of_slot? hf⟩

lemma Sound.closed (hs : h.Sound s) : Closed h := by
  intro r o ho q hq
  obtain ⟨f, hf, rfl⟩ := object?_eq_some.mp ho
  exact exists_object? (hs.counted.slot?_child hf hq)

lemma eq_tuple_of_tupleItems? {items : List Ref} (ho : o.tupleItems? = some items) :
    o = .tuple items := by
  cases o with
  | tuple items' =>
    cases ho
    rfl
  | _ => cases ho

mutual

/-- An object that lives on keeps its key. -/
theorem HasKey.stays (hp : SameParts h h') (hc : Closed h') {r : Ref} {k : Key} :
    HasKey h.object? r k → (∃ o, h'.object? r = some o) → HasKey h'.object? r k
  | .atom ho hatom, ⟨o', ho'⟩ => .atom ho' ((hp _ _ _ ho ho').1.trans hatom)
  | .tuple ho hks, ⟨o', ho'⟩ => by
    obtain rfl := eq_tuple_of_tupleItems? (hp _ _ _ ho ho').2
    exact .tuple ho' (HaveKeys.stay hp hc hks (hc _ _ ho'))

/-- Objects that live on keep their keys. -/
theorem HaveKeys.stay (hp : SameParts h h') (hc : Closed h') {rs : List Ref} {ks : List Key} :
    HaveKeys h.object? rs ks → (∀ r ∈ rs, ∃ o, h'.object? r = some o) →
      HaveKeys h'.object? rs ks
  | .nil, _ => .nil
  | .cons hk hks, hrs =>
    .cons (HasKey.stays hp hc hk (hrs _ List.mem_cons_self))
      (HaveKeys.stay hp hc hks (fun q hq => hrs q (List.mem_cons_of_mem _ hq)))

end

/-! ## Every entry keeps its key -/

/-- The entry has a key that its object has, and it entered a dict with it. -/
structure Stored (h : Heap) (e : DictEntry) : Prop where
  key : HasKey h.object? e.keyRef e.key
  entered : ∃ n, Entered e.key e.keyRef n

/-- An entry was there before with the same key and key object, or came with the pair. -/
lemma entry_of_setItem {d' : Dict} {key value : Ref}
    (hrun : (setItem d key value).run h = .ok (.ok d') h') (he : e ∈ d'.entries) :
    (∃ f ∈ d.entries, e.key = f.key ∧ e.keyRef = f.keyRef) ∨
      (e.keyRef = key ∧ d' = d.append ⟨e.key, key, value⟩) := by
  obtain ⟨k, h₁, -, ⟨old, -, rfl⟩ | ⟨-, rfl⟩⟩ := setItem_inv hrun
  · obtain ⟨f, hf, hkey, hkeyRef, -⟩ := mem_replace he
    exact .inl ⟨f, hf, hkey, hkeyRef⟩
  · rcases List.mem_append.mp he with he | he
    · exact .inl ⟨e, he, rfl, rfl⟩
    · obtain rfl := List.mem_singleton.mp he
      exact .inr ⟨rfl, rfl⟩

/-- A new key is the key that was computed. -/
lemma projection_of_setItem_append {value : Ref}
    (hrun : (setItem d r value).run h = .ok (.ok (d.append ⟨k, r, value⟩)) h') :
    ∃ h₁, (projection r).run h = .ok (.ok k) h₁ := by
  obtain ⟨k', h₁, hproj, ⟨old, -, hd⟩ | ⟨-, hd⟩⟩ := setItem_inv hrun
  · have hlength : (d.append ⟨k, r, value⟩).size = (d.replace k' value).size :=
      congrArg Dict.size hd
    simp [Dict.size, Dict.append, Dict.replace] at hlength
  · have hentries : d.entries ++ [⟨k, r, value⟩] = d.entries ++ [⟨k', r, value⟩] :=
      congrArg Dict.entries hd
    obtain rfl : k = k' := by simpa using hentries
    exact ⟨h₁, hproj⟩

lemma not_knows_fresh (t : Tracker) (d : Dict) : ¬ Holdings.empty.Knows (fresh t) d := by
  rintro (⟨r, hr⟩ | hmem)
  · obtain ⟨f, hf, hdict⟩ := dict?_eq_some.mp hr
    rw [slot?_fresh] at hf
    obtain ⟨o, ho, rfl⟩ := Option.map_eq_some_iff.mp hf
    have hmem : Object.dict d ∈ singletons := by
      rw [← show o = .dict d from hdict]
      exact List.mem_of_getElem? ho
    simp [singletons] at hmem
  · exact Multiset.notMem_zero d hmem

lemma exists_object?_keyRef (hs : h.Sound s) (hd : s.Knows h d) (he : e ∈ d.entries) :
    ∃ o, h.object? e.keyRef = some o :=
  exists_object? (hs.live hd _ (Dict.keyRef_mem_refs he))

/-- An entry that a step leaves alone is as right as it was. -/
lemma Stored.stays {f : DictEntry} (hf : Stored h f) (hs : h.Sound s) (hs' : h'.Sound s')
    (hstep : Step h s h' s') (hkinds : KeepsKinds h h') (hkey : e.key = f.key)
    (hkeyRef : e.keyRef = f.keyRef) (hlive : ∃ o, h'.object? e.keyRef = some o) :
    Stored h' e := by
  refine ⟨?_, ?_⟩
  · rw [hkeyRef] at hlive ⊢
    rw [hkey]
    exact hf.key.stays (sameParts_of_step hs hstep hkinds) hs'.closed hlive
  · rw [hkey, hkeyRef]
    exact hf.entered

/-- Every entry of a known dict has the key of its object. -/
lemma Reached.stored (hr : Reached h s) (hd : s.Knows h d) (he : e ∈ d.entries) :
    Stored h e := by
  induction hr generalizing d e with
  | fresh t => exact absurd hd (not_knows_fresh t d)
  | @step h h' s s' hr hstep hkinds ih =>
    have hs := hr.sound
    have hs' := hs.step hstep
    have hlive := exists_object?_keyRef hs' hd he
    have hparts := sameParts_of_step hs hstep hkinds
    -- A dict that was known has entries that were right before the step. A new one is empty, and
    -- one that a pair was put into has one entry more.
    rcases knows_of_step hs hstep hd with hd | rfl | ⟨key, value, refs, dicts, d₀, rfl, hrun⟩
    · exact (ih hd he).stays hs hs' hstep hkinds rfl rfl hlive
    · cases he
    · have hd₀ : Holdings.Knows ⟨key ::ₘ value ::ₘ refs, d₀ ::ₘ dicts⟩ h d₀ :=
        .inr (Multiset.mem_cons_self d₀ dicts)
      rcases entry_of_setItem hrun he with ⟨f, hf, hkey, hkeyRef⟩ | ⟨rfl, rfl⟩
      · exact (ih hd₀ hf).stays hs hs' hstep hkinds hkey hkeyRef hlive
      · obtain ⟨h₁, hproj⟩ := projection_of_setItem_append hrun
        obtain ⟨hkey, -, -⟩ := projection_iff.mp hproj
        exact ⟨hkey.stays hparts hs'.closed hlive, h.levels, h, refs, dicts, d₀, value, h', hr,
          rfl, hrun⟩

/-- A key is no deeper than the budget that it was found under. -/
lemma Entered.depth_le {n : Nat} (he : Entered k r n) : k.depth ≤ n := by
  obtain ⟨h, refs, dicts, d, value, h', -, rfl, hrun⟩ := he
  obtain ⟨h₁, hproj⟩ := projection_of_setItem_append hrun
  exact (projection_iff.mp hproj).2.1

/-! ## Looking entries up -/

/-- Where keys are distinct, a key finds the one entry that has it. -/
lemma find?_eq_some_iff (hd : d.Distinct) : d.find? k = some e ↔ e ∈ d.entries ∧ e.key = k := by
  constructor
  · intro hfind
    rw [Dict.find?] at hfind
    exact ⟨List.mem_of_find?_eq_some hfind, by simpa using List.find?_some hfind⟩
  · rintro ⟨he, rfl⟩
    cases hfind : d.find? e.key with
    | none => exact absurd (List.mem_map_of_mem he) (Dict.find?_eq_none.mp hfind)
    | some f =>
      rw [Dict.find?] at hfind
      have hkey : f.key = e.key := by simpa using List.find?_some hfind
      rw [List.inj_on_of_nodup_map hd (List.mem_of_find?_eq_some hfind) he hkey]

/-- In a filed dict, a text leads to the value of the one entry whose key object has it. -/
lemma get?_str_iff (hd : d.Filed h) {name : String} {value : Ref} :
    d.get? (.str name) = some value ↔
      ∃ e, (∀ f, f ∈ d.entries ∧ h.text? f.keyRef = some name ↔ f = e) ∧ e.value = value := by
  rw [Dict.get?, Option.map_eq_some_iff]
  refine exists_congr (fun e => and_congr_left (fun _ => ?_))
  rw [find?_eq_some_iff hd.distinct]
  constructor
  · rintro ⟨he, hkey⟩ f
    constructor
    · rintro ⟨hf, htext⟩
      have hsame : f.key = e.key := ((hd.text f hf name).mpr htext).trans hkey.symm
      exact List.inj_on_of_nodup_map hd.distinct hf he hsame
    · rintro rfl
      exact ⟨he, (hd.text f he name).mp hkey⟩
  · intro hone
    obtain ⟨he, htext⟩ := (hone e).mpr rfl
    exact ⟨he, (hd.text e he name).mpr htext⟩

/-- **Stored keys stay right.** Whatever a client does with a heap, no dict has two entries with the
same key, and the key that an entry is stored under is the key of its key object: computing it once
more finds it, under every budget that is no smaller than the one that it was first found under. So
a text finds the value of the one entry whose key object is a string of that text. -/
theorem stored_keys (hr : Reached h s) (hd : s.Knows h d) :
    (d.entries.map (·.key)).Nodup ∧
      (∀ e ∈ d.entries, (∃ n, Entered e.key e.keyRef n) ∧
        ∀ n, Entered e.key e.keyRef n → ∀ m, n ≤ m →
          (projection e.keyRef).run { h with levels := m } =
            .ok (.ok e.key) { h with levels := m }) ∧
      ∀ name value, d.get? (.str name) = some value ↔
        ∃ e, (∀ f, f ∈ d.entries ∧ h.text? f.keyRef = some name ↔ f = e) ∧ e.value = value := by
  have hfiled := hr.sound.filed d hd
  refine ⟨hfiled.distinct, fun e he => ?_, fun name value => get?_str_iff hfiled⟩
  have hstored := hr.stored hd he
  refine ⟨hstored.entered, fun n hn m hm => ?_⟩
  exact projection_iff.mpr ⟨hstored.key, Nat.le_trans hn.depth_le hm, rfl⟩

/-- A string and a tuple that holds it are two keys of a dict, and the tuple has its key under any
budget above the first one. -/
theorem stored_keys_tuple : ∃ h s d, Reached h s ∧ s.Knows h d ∧
    d.entries = [⟨.str "y", ⟨4⟩, trueRef⟩, ⟨.tuple [.str "y"], ⟨5⟩, falseRef⟩] ∧
    (projection ⟨5⟩).run { h with levels := 1000 } =
      .ok (.ok (.tuple [.str "y"])) { h with levels := 1000 } ∧
    ∃ e, (∀ f, f ∈ d.entries ∧ h.text? f.keyRef = some "y" ↔ f = e) ∧ e.value = trueRef := by
  let name (refs : Nat) : Entry := ⟨refs, false, .str "y"⟩
  let h := freshWith .unlimited [name 2, ⟨1, false, .tuple [⟨4⟩]⟩]
  let first : DictEntry := ⟨.str "y", ⟨4⟩, trueRef⟩
  let second : DictEntry := ⟨.tuple [.str "y"], ⟨5⟩, falseRef⟩
  let d : Dict := ⟨[first, second]⟩
  have hname : Reached (freshWith .unlimited [name 1]) ⟨⟨4⟩ ::ₘ 0, 0⟩ :=
    (Reached.fresh .unlimited).allocate (o := .str "y") rfl rfl
  have hshared : Reached (freshWith .unlimited [name 2]) ⟨⟨4⟩ ::ₘ ⟨4⟩ ::ₘ 0, 0⟩ :=
    hname.retain rfl
  have htuple : Reached h ⟨⟨5⟩ ::ₘ ⟨4⟩ ::ₘ 0, 0⟩ := hshared.allocate (o := .tuple [⟨4⟩]) rfl rfl
  have hvalues : Reached h ⟨falseRef ::ₘ trueRef ::ₘ ⟨5⟩ ::ₘ ⟨4⟩ ::ₘ 0, 0⟩ :=
    (htuple.retain rfl).retain rfl
  have hempty : Reached h ⟨falseRef ::ₘ trueRef ::ₘ ⟨5⟩ ::ₘ ⟨4⟩ ::ₘ 0, .empty ::ₘ 0⟩ :=
    hvalues.step .newDict (NothingNew.refl h).keepsKinds
  have hordered : (falseRef ::ₘ trueRef ::ₘ ⟨5⟩ ::ₘ ⟨4⟩ ::ₘ 0 : Multiset Ref) =
      ⟨4⟩ ::ₘ trueRef ::ₘ ⟨5⟩ ::ₘ falseRef ::ₘ 0 := by decide
  rw [hordered] at hempty
  have hfirst : Reached h ⟨⟨5⟩ ::ₘ falseRef ::ₘ 0, ⟨[first]⟩ ::ₘ 0⟩ := hempty.setItem rfl
  have hsecond : Reached h ⟨0, d ::ₘ 0⟩ := hfirst.setItem rfl
  have hentered : Entered second.key second.keyRef maxLevels :=
    ⟨h, 0, 0, ⟨[first]⟩, falseRef, h, hfirst, rfl, rfl⟩
  have hknows : Holdings.Knows ⟨0, d ::ₘ 0⟩ h d := .inr (Multiset.mem_cons_self d 0)
  obtain ⟨-, hkeys, hget⟩ := stored_keys hsecond hknows
  obtain ⟨-, hlater⟩ := hkeys second (List.mem_cons_of_mem _ List.mem_cons_self)
  exact ⟨h, _, d, hsecond, hknows, rfl, hlater maxLevels hentered 1000 (by decide),
    (hget "y" trueRef).mp rfl⟩

end Heap

end NativeCall
