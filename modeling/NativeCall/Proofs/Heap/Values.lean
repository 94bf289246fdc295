import NativeCall.Proofs.Heap.StoredKeys
import NativeCall.Proofs.Number.Rational

/-!
# Equal values and their keys

An object that holds no others stands for a value (`Object.value?`): numbers of every kind stand for
the rational number that they denote, so `True`, `1` and `1.0` have one value, and a NaN has none.
`Alike` compares objects by value, and tuples item by item.

Objects that are alike should have the same key, and they do unless they are `Mixed`: somewhere in
them a floating-point number stands where the other has an integer outside 64 bits. An integer of 64
bits has one key, however it is kept, but the key of any other one shows whether it was kept as an
integer or as a floating-point number. This is the only exception (`projection_of_alike`), and it
lets a dict have two entries for one value (`mixed_keys_differ`).

## Numbers

Values are rational numbers because that is what a finite floating-point number denotes and what an
integer is one of; comparing two of them is then no question of rounding. A machine integer and a
long one are one number if they are equal, and a whole number is one number whether it is written as
a floating-point number or not. The key goes a different way. It asks first whether a floating-point
number is a whole one within the range of a machine word, and falls back on the bits; for an integer
it asks whether it is in that range, and falls back on the digits. The two fall-backs are what the
exception is about, and `float_key_iff` is the comparison of the two ways.

Bits are unique but for the sign of zero, and zero is a whole number in range. So floating-point
numbers that denote the same number have the same key in every case (`Key.ofFloat_eq_of_toRat_eq`).

## Tuples

`Alike` and `Mixed` go through tuples in step, `Mixed` to one pair of items and `Alike` to all. The
theorem about keys is one induction over the derivation that two objects are alike. It finds a key
of the second object along with comparing it, since that the second one has a key at all, of the
same depth, is part of what has to be shown.
-/

namespace NativeCall

/-! ## Keys of numbers -/

/-- An integer of 64 bits. -/
def InWord (i : Int) : Prop :=
  -0x8000000000000000 ≤ i ∧ i < 0x8000000000000000

instance (i : Int) : Decidable (InWord i) :=
  inferInstanceAs (Decidable (_ ∧ _))

namespace Key

variable {x y : Binary64} {i : Int}

lemma ofInt_of_inWord (hi : InWord i) : ofInt i = int (Int64.ofInt i) :=
  if_pos hi

lemma ofInt_of_not_inWord (hi : ¬ InWord i) : ofInt i = bigInt i :=
  if_neg hi

lemma inWord_toInt (i : Int64) : InWord i.toInt :=
  ⟨i.le_toInt, i.toInt_lt⟩

@[simp] lemma ofInt_toInt (i : Int64) : ofInt i.toInt = int i := by
  rw [ofInt_of_inWord (inWord_toInt i), Int64.ofInt_toInt]

/-- A whole number has the key of the integer just if that is one of 64 bits. -/
lemma ofFloat_eq_ofInt_iff (hx : x.integral? = some i) : ofFloat x = ofInt i ↔ InWord i := by
  have hfloat : ofFloat x = if InWord i then int (Int64.ofInt i) else float x.bits := by
    unfold ofFloat
    rw [hx]
    rfl
  rw [hfloat]
  by_cases hi : InWord i
  · simp [hi, ofInt_of_inWord hi]
  · simp [hi, ofInt_of_not_inWord hi]

/-- Numbers that denote the same have the same key: either they have the same bits or they are
zeros. -/
lemma ofFloat_eq_of_toRat_eq (hx : x.isFinite = true) (hy : y.isFinite = true)
    (h : x.toRat = y.toRat) : ofFloat x = ofFloat y := by
  by_cases hzero : x.toRat = 0
  · have hzero' : InWord 0 := by decide
    have hx' : x.integral? = some 0 := by
      rw [Binary64.integral?_eq_some_iff]
      exact ⟨hx, by simpa using hzero⟩
    have hy' : y.integral? = some 0 := by
      rw [Binary64.integral?_eq_some_iff]
      exact ⟨hy, by simpa using h.symm.trans hzero⟩
    rw [(ofFloat_eq_ofInt_iff hx').mpr hzero', (ofFloat_eq_ofInt_iff hy').mpr hzero']
  · rw [Binary64.eq_of_toRat_eq h hzero]

end Key

/-! ## Values -/

/-- What an object that holds no others stands for. -/
inductive Value where
  | none
  | number (q : ℚ)
  | infinite (negative : Bool)
  | text (s : String)
  | bytes (bs : List UInt8)
  /-- An extension object is equal to itself only. -/
  | identity (r : Ref)

/-- The value of a floating-point number. A NaN has none: it is not even equal to itself. -/
def Binary64.value? (x : Binary64) : Option Value :=
  if x.isFinite then some (.number x.toRat)
  else if x.isNaN then none
  else some (.infinite x.isNegative)

/-- The value of an object at `r`, if it holds no others. -/
def Object.value? (r : Ref) : Object → Option Value
  | none => some .none
  | bool b => some (.number (if b then 1 else 0))
  | int i => some (.number i.toInt)
  | bigInt i => some (.number i)
  | float x => x.value?
  | str s => some (.text s)
  | bytes bs => some (.bytes bs)
  | native _ => some (.identity r)
  | tuple _ | list _ | dict _ => Option.none

/-- The object is a floating-point number. -/
def Object.IsFloat (o : Object) : Prop :=
  ∃ x, o = .float x

/-- The object is an integer outside 64 bits. -/
def Object.IsWide (o : Object) : Prop :=
  ∃ i, ¬ InWord i ∧ o = .bigInt i

/-- One of two objects is a floating-point number, the other an integer outside 64 bits. -/
def Object.Mixed (o p : Object) : Prop :=
  (o.IsFloat ∧ p.IsWide) ∨ (p.IsFloat ∧ o.IsWide)

/-- The infinite number of each sign. -/
def Binary64.infinity (negative : Bool) : Binary64 :=
  ⟨if negative then 0xFFF0000000000000 else 0x7FF0000000000000⟩

/-- The key that a value other than a number has, however it is kept. -/
def Value.key? : Value → Option Key
  | none => some .none
  | number _ => Option.none
  | infinite negative => some (.ofFloat (.infinity negative))
  | text s => some (.str s)
  | bytes bs => some (.bytes bs)
  | identity r => some (.identity r)

section Values

variable {o p : Object} {a b r : Ref} {v : Value} {k l : Key} {q : ℚ} {x : Binary64}

/-- A number with a value is finite, or its bits are known but for the sign. -/
lemma Binary64.value?_cases (hv : x.value? = some v) :
    (x.isFinite = true ∧ v = .number x.toRat) ∨
      ∃ negative, v = .infinite negative ∧ x = infinity negative := by
  unfold value? at hv
  split at hv
  case isTrue hfin => exact .inl ⟨hfin, (Option.some.inj hv).symm⟩
  case isFalse hfin =>
    split at hv
    case isTrue => simp at hv
    case isFalse hnan =>
      -- What is neither finite nor a NaN has the largest exponent and no fraction, so nothing but
      -- the sign is open.
      refine .inr ⟨x.isNegative, (Option.some.inj hv).symm, ?_⟩
      simp only [isFinite, isNaN, decide_eq_true_eq, ne_eq, not_not, not_and] at hfin hnan
      have hlow : 2047 * 2 ^ 52 = x.bits.toNat % 2 ^ 63 := by
        rw [← exponentField_fraction, hfin, hnan hfin, Nat.add_zero]
      have hbits := x.bits.toNat_lt
      have hsame : x.bits = (infinity x.isNegative).bits := by
        rw [← UInt64.toNat_inj]
        unfold infinity isNegative
        by_cases hsign : 0x8000000000000000 ≤ x.bits.toNat
        · simp only [hsign, decide_true, if_true, UInt64.reduceToNat]
          omega
        · simp only [hsign, decide_false, Bool.false_eq_true, if_false, UInt64.reduceToNat]
          omega
      exact congrArg Binary64.mk hsame

lemma Binary64.value?_of_integral? {i : Int} (hi : x.integral? = some i) :
    x.value? = some (.number i) := by
  obtain ⟨hfin, hrat⟩ := integral?_eq_some_iff.mp hi
  simp [value?, hfin, hrat]

lemma atom?_eq_key? (hv : o.value? r = some v) (hnumber : ∀ q, v ≠ .number q) :
    o.atom? r = v.key? := by
  cases o with
  | float x =>
    obtain ⟨-, rfl⟩ | ⟨negative, rfl, rfl⟩ := Binary64.value?_cases hv
    · exact absurd rfl (hnumber _)
    · rfl
  | bool | int | bigInt => exact absurd (Option.some.inj hv).symm (hnumber _)
  | tuple | list | dict => simp [Object.value?] at hv
  | _ =>
    obtain rfl := Option.some.inj hv
    rfl

/-- The key of an object that stands for a number is that of a floating-point number or of an
integer, and if the integer is none of 64 bits the object shows it. -/
lemma key_of_number (hv : o.value? r = some (.number q)) (hk : o.atom? r = some k) :
    (∃ x, o = .float x ∧ x.isFinite = true ∧ x.toRat = q ∧ k = .ofFloat x) ∨
      ∃ i : Int, ¬ o.IsFloat ∧ q = i ∧ k = .ofInt i ∧ (¬ InWord i → o = .bigInt i) := by
  have hinWord : ∀ {i : Int}, InWord i → ¬ InWord i → o = .bigInt i := fun hi hn => absurd hi hn
  cases o with
  | float x =>
    obtain ⟨hfin, hq⟩ | ⟨negative, hq, -⟩ := Binary64.value?_cases hv
    · obtain rfl := Value.number.inj hq
      exact .inl ⟨x, rfl, hfin, rfl, (Option.some.inj hk).symm⟩
    · simp at hq
  | bool c =>
    obtain rfl : (if c then 1 else 0) = q := by simpa [Object.value?] using hv
    obtain rfl : Key.int (if c then 1 else 0) = k := Option.some.inj hk
    refine .inr ⟨if c then 1 else 0, by simp [Object.IsFloat], by cases c <;> simp, ?_, hinWord ?_⟩
    · cases c <;> rfl
    · cases c <;> decide
  | int i =>
    obtain rfl : (i.toInt : ℚ) = q := by simpa [Object.value?] using hv
    obtain rfl : Key.int i = k := Option.some.inj hk
    exact .inr ⟨i.toInt, by simp [Object.IsFloat], rfl, (Key.ofInt_toInt i).symm,
      hinWord (Key.inWord_toInt i)⟩
  | bigInt i =>
    obtain rfl : (i : ℚ) = q := by simpa [Object.value?] using hv
    exact .inr ⟨i, by simp [Object.IsFloat], rfl, (Option.some.inj hk).symm, fun _ => rfl⟩
  | _ => simp [Object.value?] at hv

/-- A floating-point number and an integer that denote the same have the same key just if the
integer is one of 64 bits. -/
lemma float_key_iff {i : Int} (hfin : x.isFinite = true) (hi : x.toRat = i)
    (hv : o.value? r = some (.number i)) (hwide : ¬ InWord i → o = .bigInt i) :
    Key.ofFloat x = .ofInt i ↔ ¬ o.IsWide := by
  rw [Key.ofFloat_eq_ofInt_iff (Binary64.integral?_eq_some_iff.mpr ⟨hfin, hi⟩)]
  constructor
  · rintro hword ⟨j, hj, rfl⟩
    obtain rfl : j = i := by simpa [Object.value?] using hv
    exact hj hword
  · intro hnarrow
    by_contra hword
    exact hnarrow ⟨i, hword, hwide hword⟩

@[simp] lemma Object.isFloat_float : (Object.float x).IsFloat :=
  ⟨x, rfl⟩

@[simp] lemma Object.not_isWide_float : ¬ (Object.float x).IsWide := by
  simp [IsWide]

lemma Object.Mixed.value? (hm : o.Mixed p) (hv : o.value? a = some v) (hw : p.value? b = some v) :
    ∃ q, v = .number q := by
  rcases hm with ⟨-, i, -, rfl⟩ | ⟨-, i, -, rfl⟩
  · exact ⟨i, (Option.some.inj hw).symm⟩
  · exact ⟨i, (Option.some.inj hv).symm⟩

/-- Objects of one value that hold no others have one key, unless they are mixed. -/
lemma atom?_eq_iff (hv : o.value? a = some v) (hw : p.value? b = some v) (hk : o.atom? a = some k)
    (hl : p.atom? b = some l) : l = k ↔ ¬ o.Mixed p := by
  by_cases hnumber : ∃ q, v = .number q
  · obtain ⟨q, rfl⟩ := hnumber
    -- Each of the two is a floating-point number or an integer. Two of one sort have one key, and
    -- two of different sorts have one just if the integer is in range.
    rcases key_of_number hv hk with ⟨x, rfl, hx, hq, rfl⟩ | ⟨i, ho, hq, rfl, hi⟩ <;>
      rcases key_of_number hw hl with ⟨y, rfl, hy, hq', rfl⟩ | ⟨j, hp, hq', rfl, hj⟩
    · simp [Object.Mixed, Key.ofFloat_eq_of_toRat_eq hy hx (hq'.trans hq.symm)]
    · subst hq'
      rw [eq_comm, float_key_iff hx hq hw hj]
      simp [Object.Mixed, hp]
    · subst hq
      rw [float_key_iff hy hq' hv hi]
      simp [Object.Mixed, ho]
    · obtain rfl : i = j := by exact_mod_cast hq.symm.trans hq'
      simp [Object.Mixed, ho, hp]
  · have hkey : ∀ q, v ≠ .number q := not_exists.mp hnumber
    have hkeys : o.atom? a = p.atom? b := (atom?_eq_key? hv hkey).trans (atom?_eq_key? hw hkey).symm
    obtain rfl : k = l := by simpa [hk, hl] using hkeys
    simp only [true_iff]
    intro hm
    exact hnumber (hm.value? hv hw)

end Values

namespace Heap

/-! ## Objects on a heap -/

section Alike

variable {objects : Ref → Option Object} {a b : Ref} {as bs : List Ref} {k l : Key}
  {ks ls : List Key}

mutual

/-- `Alike objects a b`: among these objects, those at `a` and `b` are equal. They stand for the
same value, or they are tuples of equal items. -/
inductive Alike (objects : Ref → Option Object) : Ref → Ref → Prop where
  | plain {a b : Ref} {o p : Object} {v : Value} (ho : objects a = some o) (hp : objects b = some p)
      (hv : o.value? a = some v) (hw : p.value? b = some v) : Alike objects a b
  | tuple {a b : Ref} {as bs : List Ref} (ho : objects a = some (.tuple as))
      (hp : objects b = some (.tuple bs)) (hall : AllAlike objects as bs) : Alike objects a b

/-- The objects at some references are equal to those at others, one by one. -/
inductive AllAlike (objects : Ref → Option Object) : List Ref → List Ref → Prop where
  | nil : AllAlike objects [] []
  | cons {a b : Ref} {as bs : List Ref} (h : Alike objects a b) (hall : AllAlike objects as bs) :
      AllAlike objects (a :: as) (b :: bs)

end

/-- Somewhere in two objects a floating-point number stands where the other has an integer outside
64 bits. -/
inductive Mixed (objects : Ref → Option Object) : Ref → Ref → Prop where
  | here {a b : Ref} {o p : Object} (ho : objects a = some o) (hp : objects b = some p)
      (hm : o.Mixed p) : Mixed objects a b
  | inside {a b c d : Ref} {as bs : List Ref} (ho : objects a = some (.tuple as))
      (hp : objects b = some (.tuple bs)) (hmem : (c, d) ∈ as.zip bs) (hm : Mixed objects c d) :
      Mixed objects a b

lemma mixed_iff {o p : Object} (ho : objects a = some o) (hp : objects b = some p)
    (ht : ∀ as, o ≠ .tuple as) : Mixed objects a b ↔ o.Mixed p := by
  constructor
  · rintro (⟨ho', hp', hm⟩ | ⟨ho', -, -, -⟩)
    · obtain rfl := Option.some.inj (ho.symm.trans ho')
      obtain rfl := Option.some.inj (hp.symm.trans hp')
      exact hm
    · exact absurd (Option.some.inj (ho.symm.trans ho')) (ht _)
  · exact .here ho hp

lemma mixed_tuple_iff (ho : objects a = some (.tuple as)) (hp : objects b = some (.tuple bs)) :
    Mixed objects a b ↔ ∃ c d, (c, d) ∈ as.zip bs ∧ Mixed objects c d := by
  constructor
  · rintro (⟨ho', hp', hm⟩ | ⟨ho', hp', hmem, hm⟩)
    · obtain rfl := Option.some.inj (ho.symm.trans ho')
      obtain rfl := Option.some.inj (hp.symm.trans hp')
      simp [Object.Mixed, Object.IsFloat] at hm
    · obtain rfl := Object.tuple.inj (Option.some.inj (ho.symm.trans ho'))
      obtain rfl := Object.tuple.inj (Option.some.inj (hp.symm.trans hp'))
      exact ⟨_, _, hmem, hm⟩
  · rintro ⟨c, d, hmem, hm⟩
    exact .inside ho hp hmem hm

lemma exists_atom? {o : Object} {r : Ref} {v : Value} (hv : o.value? r = some v) :
    ∃ k, o.atom? r = some k := by
  cases o with
  | tuple | list | dict => simp [Object.value?] at hv
  | _ => exact ⟨_, rfl⟩

lemma HasKey.atom_inv {o : Object} {r : Ref} {k l : Key} (hk : HasKey objects r k)
    (ho : objects r = some o) (hl : o.atom? r = some l) : k = l := by
  cases hk with
  | atom ho' hk' =>
    obtain rfl := Option.some.inj (ho.symm.trans ho')
    exact Option.some.inj (hk'.symm.trans hl)
  | tuple ho' _ =>
    obtain rfl := Option.some.inj (ho.symm.trans ho')
    simp [Object.atom?] at hl

lemma HasKey.tuple_inv (hk : HasKey objects a k) (ho : objects a = some (.tuple as)) :
    ∃ ks, k = .tuple ks ∧ HaveKeys objects as ks := by
  cases hk with
  | atom ho' hk' =>
    obtain rfl := Option.some.inj (ho.symm.trans ho')
    simp [Object.atom?] at hk'
  | tuple ho' hks =>
    obtain rfl := Object.tuple.inj (Option.some.inj (ho.symm.trans ho'))
    exact ⟨_, rfl, hks⟩

mutual

/-- Of two equal objects, if one has a key then so has the other, as deep as the first. It is the
same one, unless the objects are mixed. -/
theorem Alike.hasKey {a b : Ref} {k : Key} : Alike objects a b → HasKey objects a k →
    ∃ l, HasKey objects b l ∧ l.depth = k.depth ∧ (l = k ↔ ¬ Mixed objects a b)
  | .plain (o := o) (p := p) ho hp hv hw, hk => by
    obtain ⟨k', hk'⟩ := exists_atom? hv
    obtain ⟨l, hl⟩ := exists_atom? hw
    obtain rfl := hk.atom_inv ho hk'
    have ht : ∀ as, o ≠ .tuple as := by
      rintro as rfl
      simp [Object.value?] at hv
    refine ⟨l, .atom hp hl, by rw [depth_atom? hl, depth_atom? hk'], ?_⟩
    rw [mixed_iff ho hp ht]
    exact atom?_eq_iff hv hw hk' hl
  | .tuple ho hp hall, hk => by
    obtain ⟨ks, rfl, hks⟩ := hk.tuple_inv ho
    obtain ⟨ls, hls, hdepth, hsame⟩ := hall.haveKeys hks
    refine ⟨.tuple ls, .tuple hp hls, by simp [Key.depth, hdepth], ?_⟩
    rw [Key.tuple.injEq, mixed_tuple_iff ho hp]
    exact hsame

/-- The same of the items of two tuples. -/
theorem AllAlike.haveKeys {as bs : List Ref} {ks : List Key} :
    AllAlike objects as bs → HaveKeys objects as ks →
    ∃ ls, HaveKeys objects bs ls ∧ Key.depthAll ls = Key.depthAll ks ∧
      (ls = ks ↔ ¬ ∃ c d, (c, d) ∈ as.zip bs ∧ Mixed objects c d)
  | .nil, .nil => ⟨[], .nil, rfl, by simp⟩
  | .cons hab hall, .cons hk hks => by
    obtain ⟨l, hl, hdepth, hsame⟩ := hab.hasKey hk
    obtain ⟨ls, hls, hdepths, hsames⟩ := hall.haveKeys hks
    refine ⟨l :: ls, .cons hl hls, by simp [Key.depthAll, hdepth, hdepths], ?_⟩
    rw [List.cons.injEq, hsame, hsames, ← not_or]
    simp [or_and_right, exists_or]

end

end Alike

lemma HasKey.unique {h : Heap} {r : Ref} {k l : Key} (hk : HasKey h.object? r k)
    (hl : HasKey h.object? r l) : k = l := by
  let deep : Heap := { h with levels := max k.depth l.depth }
  have hrun : (projection r).run deep = .ok (.ok k) deep :=
    projection_iff.mpr ⟨hk, Nat.le_max_left _ _, rfl⟩
  have hrun' : (projection r).run deep = .ok (.ok l) deep :=
    projection_iff.mpr ⟨hl, Nat.le_max_right _ _, rfl⟩
  simpa [hrun] using hrun'

/-- **Equal objects have the same key,** and the key of one is computed under every budget that is
enough for the other, unless the objects are mixed: then their keys differ. So no dict has two
entries whose key objects are equal but for mixed ones. -/
theorem projection_of_alike {h : Heap} {a b : Ref} (hab : Alike h.object? a b) :
    (∀ k h', (projection a).run h = .ok (.ok k) h' →
      ∃ l, (projection b).run h = .ok (.ok l) h ∧ (l = k ↔ ¬ Mixed h.object? a b)) ∧
    ∀ s d e f, Reached h s → s.Knows h d → e ∈ d.entries → f ∈ d.entries →
      e.keyRef = a → f.keyRef = b → e = f ∨ Mixed h.object? a b := by
  refine ⟨?_, ?_⟩
  · intro k h' hrun
    obtain ⟨hk, hlevels, rfl⟩ := projection_iff.mp hrun
    obtain ⟨l, hl, hdepth, hsame⟩ := hab.hasKey hk
    exact ⟨l, projection_iff.mpr ⟨hl, hdepth ▸ hlevels, rfl⟩, hsame⟩
  · rintro s d e f hr hd he hf rfl rfl
    obtain ⟨l, hl, -, hsame⟩ := hab.hasKey (hr.stored hd he).key
    obtain rfl := hl.unique (hr.stored hd hf).key
    by_cases hm : Mixed h.object? e.keyRef f.keyRef
    · exact .inr hm
    · have hkeys : e.key = f.key := (hsame.mpr hm).symm
      exact .inl (List.inj_on_of_nodup_map (hr.sound.filed d hd).distinct he hf hkeys)

/-- The tuples `(True,)` and `(1.0,)` are equal, and the key of one is that of the other. -/
theorem projection_of_alike_tuples : ∃ h a b k, h.object? a = some (.tuple [trueRef]) ∧
    h.object? b = some (.tuple [⟨4⟩]) ∧ h.object? ⟨4⟩ = some (.float ⟨0x3FF0000000000000⟩) ∧
    k = .tuple [.int 1] ∧ (projection a).run h = .ok (.ok k) h ∧
    (projection b).run h = .ok (.ok k) h := by
  let h := freshWith .unlimited
    [⟨1, false, .float ⟨0x3FF0000000000000⟩⟩, ⟨1, false, .tuple [trueRef]⟩,
      ⟨1, false, .tuple [⟨4⟩]⟩]
  have hvalue : (Object.float ⟨0x3FF0000000000000⟩).value? ⟨4⟩ = some (.number (1 : Int)) :=
    Binary64.value?_of_integral? rfl
  have halike : Alike h.object? ⟨5⟩ ⟨6⟩ :=
    .tuple rfl rfl (.cons (.plain rfl rfl rfl hvalue) .nil)
  have hrun : (projection ⟨5⟩).run h = .ok (.ok (.tuple [.int 1])) h := rfl
  obtain ⟨l, hl, hsame⟩ := (projection_of_alike halike).1 _ _ hrun
  have hnarrow : ¬ Mixed h.object? ⟨5⟩ ⟨6⟩ := by
    rw [mixed_tuple_iff rfl rfl]
    rintro ⟨c, d, hmem, hm⟩
    obtain ⟨rfl, rfl⟩ : c = trueRef ∧ d = ⟨4⟩ := by simpa using hmem
    rw [mixed_iff (o := .bool true) (p := .float ⟨0x3FF0000000000000⟩) rfl rfl (by simp)] at hm
    simp [Object.Mixed, Object.IsFloat, Object.IsWide] at hm
  obtain rfl := hsame.mpr hnarrow
  exact ⟨h, ⟨5⟩, ⟨6⟩, _, rfl, rfl, rfl, rfl, hrun, hl⟩

/-- The integer `2 ^ 63` and the floating-point number that denotes it are equal, but their keys
differ, and a dict can have an entry for each. -/
theorem mixed_keys_differ : ∃ h s d e f, Reached h s ∧ s.Knows h d ∧ e ∈ d.entries ∧
    f ∈ d.entries ∧ Alike h.object? e.keyRef f.keyRef ∧ e.key ≠ f.key ∧
    (projection e.keyRef).run h = .ok (.ok e.key) h ∧
    (projection f.keyRef).run h = .ok (.ok f.key) h := by
  let big : Entry := ⟨1, false, .bigInt 0x8000000000000000⟩
  let float : Entry := ⟨1, false, .float ⟨0x43E0000000000000⟩⟩
  let h := freshWith .unlimited [big, float]
  let first : DictEntry := ⟨.bigInt 0x8000000000000000, ⟨4⟩, trueRef⟩
  let second : DictEntry := ⟨.float 0x43E0000000000000, ⟨5⟩, falseRef⟩
  let d : Dict := ⟨[first, second]⟩
  have hbig : Reached (freshWith .unlimited [big]) ⟨⟨4⟩ ::ₘ 0, 0⟩ :=
    (Reached.fresh .unlimited).allocate (o := big.object) rfl rfl
  have hfloat : Reached h ⟨⟨5⟩ ::ₘ ⟨4⟩ ::ₘ 0, 0⟩ := hbig.allocate (o := float.object) rfl rfl
  have hvalues : Reached h ⟨falseRef ::ₘ trueRef ::ₘ ⟨5⟩ ::ₘ ⟨4⟩ ::ₘ 0, 0⟩ :=
    (hfloat.retain rfl).retain rfl
  have hempty : Reached h ⟨falseRef ::ₘ trueRef ::ₘ ⟨5⟩ ::ₘ ⟨4⟩ ::ₘ 0, .empty ::ₘ 0⟩ :=
    hvalues.step .newDict (NothingNew.refl h).keepsKinds
  have hordered : (falseRef ::ₘ trueRef ::ₘ ⟨5⟩ ::ₘ ⟨4⟩ ::ₘ 0 : Multiset Ref) =
      ⟨4⟩ ::ₘ trueRef ::ₘ ⟨5⟩ ::ₘ falseRef ::ₘ 0 := by decide
  rw [hordered] at hempty
  have hfirst : Reached h ⟨⟨5⟩ ::ₘ falseRef ::ₘ 0, ⟨[first]⟩ ::ₘ 0⟩ := hempty.setItem rfl
  have hsecond : Reached h ⟨0, d ::ₘ 0⟩ := hfirst.setItem rfl
  have hvalue : (Object.float ⟨0x43E0000000000000⟩).value? ⟨5⟩ =
      some (.number (0x8000000000000000 : Int)) := Binary64.value?_of_integral? rfl
  have halike : Alike h.object? ⟨4⟩ ⟨5⟩ := .plain rfl rfl rfl hvalue
  exact ⟨h, ⟨0, d ::ₘ 0⟩, d, first, second, hsecond, .inr (Multiset.mem_cons_self d 0),
    List.mem_cons_self, List.mem_cons_of_mem _ List.mem_cons_self, halike, by decide, rfl, rfl⟩

end Heap

end NativeCall
