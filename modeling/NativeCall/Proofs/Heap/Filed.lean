import NativeCall.Proofs.Heap.Dicts

/-!
# Filed dicts

A dict is filed if it keeps a string under the text of the string and nothing else under a text
(`Dict.Filed`). What a dict keeps is read through references, so this is a statement about the dict
and a heap. It lasts as long as the references do: no operation changes the text of an object that
lives on (`SameTexts`), so a dict whose references are alive before and after stays filed
(`filed_of_sameTexts`).

The key of an object is computed once, when it enters a dict. That a string and nothing else has its
text for a key is `text_of_projection`.

The equivalence in `Dict.Filed` is needed in both directions. Keyword arguments are found by going
through the entries and asking which key objects are strings with a given text; the dict itself is
asked by key. The first way finds what the second finds if strings are filed under their texts, and
finds no more if nothing else is. A tuple of one string, for example, is kept under a key that is no
text, although there is a text in it.

Only texts are followed here. Keys of other kinds are treated in `Proofs.Heap.StoredKeys`, where the
key object has to stay the same down to the items of nested tuples; for strings it is enough that a
string is never changed.
-/

namespace NativeCall

/-! ## Filed dicts -/

/-- Strings are filed under their texts. -/
structure Dict.Filed (d : Dict) (h : Heap) : Prop where
  distinct : d.Distinct
  text : ∀ e ∈ d.entries, ∀ s, e.key = .str s ↔ h.text? e.keyRef = some s

lemma Dict.keyRef_mem_refs {d : Dict} {e : DictEntry} (he : e ∈ d.entries) : e.keyRef ∈ d.refs :=
  List.mem_flatMap.mpr ⟨e, he, List.mem_cons_self⟩

lemma Dict.filed_empty (h : Heap) : Dict.empty.Filed h :=
  ⟨distinct_empty, fun _ he => absurd he List.not_mem_nil⟩

lemma Key.ofInt_ne_str (i : Int) (s : String) : Key.ofInt i ≠ .str s := by
  rw [ofInt]
  split <;> simp

lemma Key.ofFloat_ne_str (x : Binary64) (s : String) : Key.ofFloat x ≠ .str s := by
  rw [ofFloat]
  split
  · split <;> simp
  · simp

namespace Heap

variable {h h' : Heap} {r : Ref} {e : Entry} {d : Dict}

lemma text?_of_slot? (hs : h.slot? r = some e) : h.text? r = e.object.text? := by
  rw [text?, object?, hs]
  rfl

lemma dict?_eq_some : h.dict? r = some d ↔ ∃ e, h.slot? r = some e ∧ e.object = .dict d := by
  rw [dict?, object?]
  cases h.slot? r with
  | none => simp
  | some e => cases he : e.object <;> simp [he, Object.dict?]

lemma tupleItems?_eq_some {items : List Ref} :
    h.tupleItems? r = some items ↔ ∃ e, h.slot? r = some e ∧ e.object = .tuple items := by
  rw [tupleItems?, object?]
  cases h.slot? r with
  | none => simp
  | some e => cases he : e.object <;> simp [he, Object.tupleItems?]

/-- Objects that live on keep their texts. -/
def SameTexts (h h' : Heap) : Prop :=
  ∀ r, h.slot? r ≠ none → h'.slot? r ≠ none → h'.text? r = h.text? r

lemma filed_of_sameTexts (hd : d.Filed h) (ht : SameTexts h h')
    (hl : ∀ q ∈ d.refs, h.slot? q ≠ none) (hl' : ∀ q ∈ d.refs, h'.slot? q ≠ none) :
    d.Filed h' := by
  refine ⟨hd.distinct, fun e he t => ?_⟩
  have hkey := Dict.keyRef_mem_refs he
  rw [ht e.keyRef (hl _ hkey) (hl' _ hkey)]
  exact hd.text e he t

/-! ## Filling a dict -/

/-- Strings, and nothing else, have a text for their key. -/
lemma text_of_projection {k : Key} {t : String}
    (hrun : (projection r).run h = .ok (.ok k) h') : k = .str t ↔ h.text? r = some t := by
  replace hrun : (projectionWith (h.levels + 1) r).run h = .ok (.ok k) h' :=
    (run_bind_ok (run_getThe h)).symm.trans hrun
  rw [projectionWith] at hrun
  cases hs : h.slot? r with
  | none =>
    obtain ⟨o, h₃, hget, -⟩ := run_lift_bind_inv hrun
    obtain ⟨m, hstop⟩ : ∃ m, demand .get r h = .error m h := demand_of_slot?_eq_none hs
    have hstopped : get r h = .error m h := by
      show EStateM.map _ _ h = _
      rw [EStateM.map, hstop]
    cases hstopped.symm.trans hget
  | some e =>
    obtain ⟨o, h₃, hget, hrun⟩ := run_lift_bind_inv hrun
    cases (get_of_slot? hs).symm.trans hget
    rw [text?_of_slot? hs]
    cases ho : e.object with
    | tuple items =>
      simp only [ho] at hrun
      have hkey : ∃ keys, k = .tuple keys := by
        obtain ⟨entered, h₁, -, hrun⟩ := run_lift_bind_inv hrun
        cases entered with
        | true =>
          obtain ⟨tried, h₂, -, hrun⟩ := run_lift_bind_inv hrun
          obtain ⟨-, h₃, -, hrun⟩ := run_lift_bind_inv hrun
          obtain ⟨keys, h₄, -, hrun⟩ := run_bind_inv hrun
          cases hrun
          exact ⟨keys, rfl⟩
        | false =>
          obtain ⟨_, h₂, hthrow, -⟩ := run_bind_inv hrun
          cases hthrow
      obtain ⟨keys, rfl⟩ := hkey
      simp [Object.text?]
    | bigInt i =>
      simp only [ho] at hrun
      cases hrun
      simp [Object.text?, Key.ofInt_ne_str]
    | float x =>
      simp only [ho] at hrun
      cases hrun
      simp [Object.text?, Key.ofFloat_ne_str]
    | list _ | dict _ =>
      simp only [ho] at hrun
      cases hrun
    | _ =>
      simp only [ho] at hrun
      cases hrun
      simp [Object.text?]

lemma mem_replace {f : DictEntry} {k : Key} {value : Ref} (hf : f ∈ (d.replace k value).entries) :
    ∃ e ∈ d.entries, f.key = e.key ∧ f.keyRef = e.keyRef ∧
      (f.value = e.value ∨ f.value = value) := by
  obtain ⟨e, he, rfl⟩ := List.mem_map.mp hf
  refine ⟨e, he, ?_⟩
  by_cases hk : e.key = k
  · simp [hk]
  · simp [hk]

/-- A dict that a pair was put into is filed, and what it refers to was alive. -/
lemma filed_setItem {d' : Dict} {key value : Ref} (hd : d.Filed h)
    (hl : ∀ q ∈ d.refs, h.slot? q ≠ none) (hkey : h.slot? key ≠ none)
    (hvalue : h.slot? value ≠ none)
    (hrun : (setItem d key value).run h = .ok (.ok d') h') :
    d'.Filed h ∧ ∀ q ∈ d'.refs, h.slot? q ≠ none := by
  have hdistinct := distinct_setItem hd.distinct hrun
  obtain ⟨k, h₁, hproj, ⟨old, -, rfl⟩ | ⟨-, rfl⟩⟩ := setItem_inv hrun
  · refine ⟨⟨hdistinct, fun f hf t => ?_⟩, fun q hq => ?_⟩
    · obtain ⟨e, he, hkey, hkeyRef, -⟩ := mem_replace hf
      rw [hkey, hkeyRef]
      exact hd.text e he t
    · obtain ⟨f, hf, hq⟩ := List.mem_flatMap.mp hq
      obtain ⟨e, he, -, hkeyRef, hval⟩ := mem_replace hf
      rcases List.mem_pair.mp hq with rfl | rfl
      · rw [hkeyRef]
        exact hl _ (Dict.keyRef_mem_refs he)
      · rcases hval with hval | hval
        · rw [hval]
          exact hl _ (List.mem_flatMap.mpr ⟨e, he, by simp⟩)
        · rwa [hval]
  · refine ⟨⟨hdistinct, fun f hf t => ?_⟩, fun q hq => ?_⟩
    · rcases List.mem_append.mp hf with hf | hf
      · exact hd.text f hf t
      · obtain rfl := List.mem_singleton.mp hf
        exact text_of_projection hproj
    · rw [Dict.refs_append, List.mem_append, List.mem_pair] at hq
      rcases hq with hq | rfl | rfl
      · exact hl q hq
      · exact hkey
      · exact hvalue

end Heap

end NativeCall
