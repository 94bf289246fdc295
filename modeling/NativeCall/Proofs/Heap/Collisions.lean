import NativeCall.Proofs.Heap.Values

/-!
# Values of equal keys

A key keeps what its object stands for: the value of a number, a text or any other object that holds
no others can be read off its key alone (`value?_of_atom?`). So objects with one key are equal, and
a dict never hands out for one object what was stored for another (`alike_iff_of_projection_eq`).

NaNs are the exception, and the only one. Two NaNs of the same bits have the same key, but a NaN has
no value and is not even equal to itself, and neither is a tuple with a NaN anywhere in it
(`HasNaN`).

## The direction that holds

That keys determine values is the half of the correspondence between keys and objects on which a
dict depends for its answers. The other half, that equal objects have one key, is in
`Proofs.Heap.Values`, and fails beyond the range of a machine word, where an integral float keeps
its bits and an integer its digits. The two halves need different arguments. There, two objects are
given and their keys have to be compared; here, one key is given and is read backwards, so that each
of the two objects is compared with the key and never with the other.

`Key.value?` is that reading. It is a partial function for two reasons, a NaN and a tuple. For a
tuple there is no value to return, and being equal is a relation between the items; so the theorem
about tuples is an induction over the two derivations that computed the keys, item by item in step.

An object with an identity for its key is equal to itself alone, and the identity says which object
that is, so the two objects are one.
-/

namespace NativeCall

/-! ## What a key tells -/

/-- The value that a key was made from, unless it is that of a NaN or a tuple. -/
def Key.value? : Key → Option Value
  | none => some .none
  | int i => some (.number i.toInt)
  | bigInt i => some (.number i)
  | float bits => Binary64.value? ⟨bits⟩
  | str s => some (.text s)
  | bytes bs => some (.bytes bs)
  | tuple _ => Option.none
  | identity r => some (.identity r)

section Keys

variable {r : Ref} {o : Object} {k : Key} {x : Binary64} {i : Int}

lemma toInt_ofInt_of_inWord (hi : InWord i) : (Int64.ofInt i).toInt = i := by
  obtain ⟨hlow, hhigh⟩ := hi
  exact Int64.toInt_ofInt_of_le hlow hhigh

@[simp] lemma Key.value?_ofInt (i : Int) : (Key.ofInt i).value? = some (.number i) := by
  by_cases hi : InWord i
  · rw [Key.ofInt_of_inWord hi, Key.value?, toInt_ofInt_of_inWord hi]
  · rw [Key.ofInt_of_not_inWord hi, Key.value?]

@[simp] lemma Key.value?_ofFloat (x : Binary64) : (Key.ofFloat x).value? = x.value? := by
  cases hx : x.integral? with
  | none => simp only [Key.ofFloat, hx, Key.value?]
  | some i =>
    by_cases hi : InWord i
    · rw [(Key.ofFloat_eq_ofInt_iff hx).mpr hi, Key.value?_ofInt, Binary64.value?_of_integral? hx]
    · have hbits : Key.ofFloat x = .float x.bits := by
        simp only [Key.ofFloat, hx]
        exact if_neg hi
      rw [hbits, Key.value?]

/-- The key of an object that holds no others tells what the object stands for. -/
lemma value?_of_atom? (hk : o.atom? r = some k) : o.value? r = k.value? := by
  -- Whole numbers reach their key by two ways, and the range of a machine word decides which; the
  -- lemmas on `ofInt` and `ofFloat` have both.
  cases o with
  | tuple | list | dict => simp [Object.atom?] at hk
  | bool b =>
    obtain rfl := Option.some.inj hk
    cases b <;> rfl
  | bigInt i =>
    obtain rfl := Option.some.inj hk
    exact (Key.value?_ofInt i).symm
  | float x =>
    obtain rfl := Option.some.inj hk
    exact (Key.value?_ofFloat x).symm
  | _ =>
    obtain rfl := Option.some.inj hk
    rfl

/-- Only a NaN has no value. -/
lemma Binary64.value?_eq_none_iff : x.value? = none ↔ x.isNaN = true := by
  unfold value?
  by_cases hfin : x.isFinite = true
  · have hnan : x.isNaN ≠ true := by
      simp_all [isFinite, isNaN]
    simp [hfin, hnan]
  · simp [hfin]

lemma value?_eq_none_iff (hk : o.atom? r = some k) :
    o.value? r = none ↔ ∃ x : Binary64, o = .float x ∧ x.isNaN = true := by
  cases o with
  | tuple | list | dict => simp [Object.atom?] at hk
  | float x => simp [Object.value?, Binary64.value?_eq_none_iff]
  | _ => simp [Object.value?]

end Keys

namespace Heap

variable {objects : Ref → Option Object} {a b r : Ref} {as bs items : List Ref} {o : Object}
  {k : Key} {ks : List Key}

/-! ## NaNs in objects -/

/-- The object at `r` is a NaN, or it is a tuple with a NaN somewhere in it. -/
inductive HasNaN (objects : Ref → Option Object) : Ref → Prop where
  | here {r : Ref} {x : Binary64} (ho : objects r = some (.float x)) (hx : x.isNaN = true) :
      HasNaN objects r
  | inside {r q : Ref} {items : List Ref} (ho : objects r = some (.tuple items)) (hmem : q ∈ items)
      (hq : HasNaN objects q) : HasNaN objects r

lemma hasNaN_iff_of_atom? (ho : objects r = some o) (hk : o.atom? r = some k) :
    HasNaN objects r ↔ k.value? = none := by
  rw [← value?_of_atom? hk, value?_eq_none_iff hk]
  constructor
  · rintro (⟨ho', hx⟩ | ⟨ho', -, -⟩)
    · exact ⟨_, Option.some.inj (ho.symm.trans ho'), hx⟩
    · obtain rfl := Option.some.inj (ho.symm.trans ho')
      simp [Object.atom?] at hk
  · rintro ⟨x, rfl, hx⟩
    exact .here ho hx

lemma hasNaN_tuple_iff (ho : objects r = some (.tuple items)) :
    HasNaN objects r ↔ ∃ q ∈ items, HasNaN objects q := by
  constructor
  · rintro (⟨ho', -⟩ | ⟨ho', hmem, hq⟩)
    · simp [ho] at ho'
    · obtain rfl := Object.tuple.inj (Option.some.inj (ho.symm.trans ho'))
      exact ⟨_, hmem, hq⟩
  · rintro ⟨q, hmem, hq⟩
    exact .inside ho hmem hq

/-! ## Objects of one key -/

lemma alike_iff_of_atom? {p : Object} {v : Option Value} (ho : objects a = some o)
    (hp : objects b = some p) (hv : o.value? a = v) (hw : p.value? b = v)
    (ht : ∀ items, o ≠ .tuple items) : Alike objects a b ↔ v ≠ none := by
  constructor
  · rintro (⟨ho', hp', hv', hw'⟩ | ⟨ho', -, -⟩)
    · obtain rfl := Option.some.inj (ho.symm.trans ho')
      rw [← hv, hv']
      exact Option.some_ne_none _
    · exact absurd (Option.some.inj (ho.symm.trans ho')) (ht _)
  · intro hne
    obtain ⟨value, rfl⟩ := Option.ne_none_iff_exists'.mp hne
    exact .plain ho hp hv hw

lemma alike_tuple_iff (ho : objects a = some (.tuple as)) (hp : objects b = some (.tuple bs)) :
    Alike objects a b ↔ AllAlike objects as bs := by
  constructor
  · rintro (⟨ho', -, hv, -⟩ | ⟨ho', hp', hall⟩)
    · obtain rfl := Option.some.inj (ho.symm.trans ho')
      simp [Object.value?] at hv
    · obtain rfl := Object.tuple.inj (Option.some.inj (ho.symm.trans ho'))
      obtain rfl := Object.tuple.inj (Option.some.inj (hp.symm.trans hp'))
      exact hall
  · exact .tuple ho hp

mutual

/-- Objects with the same key are equal, unless there is a NaN in one of them. -/
theorem HasKey.alike_iff {a b : Ref} {k : Key} : HasKey objects a k → HasKey objects b k →
    (Alike objects a b ↔ ¬ HasNaN objects a)
  | .atom ho hk, .atom hp hl => by
    rw [hasNaN_iff_of_atom? ho hk]
    refine alike_iff_of_atom? ho hp (value?_of_atom? hk) (value?_of_atom? hl) ?_
    rintro items rfl
    simp [Object.atom?] at hk
  | .atom _ hk, .tuple _ _ | .tuple _ _, .atom _ hk => absurd (depth_atom? hk) (Nat.succ_ne_zero _)
  | .tuple ho hks, .tuple hp hls => by
    rw [alike_tuple_iff ho hp, hasNaN_tuple_iff ho]
    exact hks.allAlike_iff hls

/-- The same of the items of two tuples. -/
theorem HaveKeys.allAlike_iff {as bs : List Ref} {ks : List Key} :
    HaveKeys objects as ks → HaveKeys objects bs ks →
    (AllAlike objects as bs ↔ ¬ ∃ q ∈ as, HasNaN objects q)
  | .nil, .nil => by simp [AllAlike.nil]
  | .cons hk hks, .cons hl hls => by
    have hfirst := hk.alike_iff hl
    have hothers := hks.allAlike_iff hls
    simp only [List.mem_cons, exists_eq_or_imp, not_or, ← hfirst, ← hothers]
    constructor
    -- Being equal item by item is decided at the head, and there is no NaN in any item just if
    -- there is none in the first and none in the others.
    · rintro (_ | ⟨h, hall⟩)
      exact ⟨h, hall⟩
    · rintro ⟨h, hall⟩
      exact .cons h hall

end

/-- **Different keys do not collide.** Two objects whose keys are computed and turn out the same are
equal, but for NaNs: they are equal just if there is no NaN in them, and it is enough to ask that of
one. So an entry that a dict finds under the key of an object has a key object that is equal to it,
and no value is handed out or replaced for an object that was not the key. -/
theorem alike_iff_of_projection_eq {h h₁ h₂ : Heap} {a b : Ref} {k : Key}
    (ha : (projection a).run h = .ok (.ok k) h₁) (hb : (projection b).run h = .ok (.ok k) h₂) :
    (Alike h.object? a b ↔ ¬ HasNaN h.object? a) ∧
    ∀ s d e, Reached h s → s.Knows h d → d.find? k = some e →
      (Alike h.object? a e.keyRef ↔ ¬ HasNaN h.object? a) := by
  obtain ⟨hka, -, -⟩ := projection_iff.mp ha
  obtain ⟨hkb, -, -⟩ := projection_iff.mp hb
  refine ⟨hka.alike_iff hkb, ?_⟩
  intro s d e hr hd hfind
  obtain ⟨he, rfl⟩ := (find?_eq_some_iff (hr.sound.filed d hd).distinct).mp hfind
  exact hka.alike_iff (hr.stored hd he).key

/-- The tuples `(True, inf)` and `(1.0, inf)` have the same key, and they are equal. -/
theorem alike_iff_of_projection_eq_infinite : ∃ h k,
    h.object? ⟨6⟩ = some (.tuple [trueRef, ⟨5⟩]) ∧ h.object? ⟨7⟩ = some (.tuple [⟨4⟩, ⟨5⟩]) ∧
    h.object? ⟨4⟩ = some (.float ⟨0x3FF0000000000000⟩) ∧
    h.object? ⟨5⟩ = some (.float (.infinity false)) ∧
    (projection ⟨6⟩).run h = .ok (.ok k) h ∧ (projection ⟨7⟩).run h = .ok (.ok k) h ∧
    ¬ HasNaN h.object? ⟨6⟩ ∧ Alike h.object? ⟨6⟩ ⟨7⟩ := by
  let h := freshWith .unlimited
    [⟨1, false, .float ⟨0x3FF0000000000000⟩⟩, ⟨2, false, .float (.infinity false)⟩,
      ⟨1, false, .tuple [trueRef, ⟨5⟩]⟩, ⟨1, false, .tuple [⟨4⟩, ⟨5⟩]⟩]
  let k : Key := .tuple [.int 1, .float 0x7FF0000000000000]
  have ha : (projection ⟨6⟩).run h = .ok (.ok k) h := rfl
  have hb : (projection ⟨7⟩).run h = .ok (.ok k) h := rfl
  have hnone : ¬ HasNaN h.object? ⟨6⟩ := by
    rw [hasNaN_tuple_iff rfl]
    rintro ⟨q, hmem, hq⟩
    obtain rfl | rfl : q = trueRef ∨ q = ⟨5⟩ := by simpa using hmem
    · rw [hasNaN_iff_of_atom? (o := .bool true) rfl rfl] at hq
      cases hq
    · rw [hasNaN_iff_of_atom? (o := .float (.infinity false)) rfl rfl] at hq
      cases hq
  exact ⟨h, k, rfl, rfl, rfl, rfl, ha, hb, hnone, (alike_iff_of_projection_eq ha hb).1.mpr hnone⟩

end Heap

end NativeCall
