import Mathlib.Data.Int.ModEq
import Mathlib.Tactic.Ring
import NativeCall.Proofs.Build.Scalars

/-!
# Integer directives truncate

An integer argument is a signed or an unsigned word of 64 bits, and a directive takes it modulo the
width of its own type. The reading does so in steps: a word of the other signedness is taken bit by
bit, cut to 32 bits if the directive asks for that, and then widened again. Every step keeps the
residue that the later ones need, so in the end only this residue and the range of the directive
matter (`Residue`), and the two determine an integer (`Residue.unique`).

## Words and integers

The code works with words and never with integers, and what it says in this way is easily misread.
The statement here, `integer_directives`, is about integers: the value of the argument, the range of
the directive, and what is congruent modulo the size of the range. An argument that is in the range
comes out as it went in.

Signed words keep a balanced residue (`residue_bmod`), unsigned ones a residue that is not negative
(`residue_emod`). In between, `exists_nextSigned` and `exists_nextUnsigned` say what is left of an
argument of either type once it is taken as a word. The four lemmas `truncates_int32` to
`truncates_uint64` compose these with the cut and the widening that belong to the type of the
directive.

## Large integers

Integers that are too large for a signed word are kept in another form. `Object.Holds` takes in
which form it is, and what the object can be read back as, for both at once: an object that held the
right integer in the wrong form would compare and print differently. Only a directive for unsigned
words of 64 bits can make such an integer (`holds_ofUInt64`).
-/

namespace NativeCall

open Heap

/-! ## Integers and the objects that hold them -/

/-- The integer that a word stands for. -/
def BuildArg.integer? : BuildArg → Option Int
  | .int i => some i.toInt
  | .uint u => some u.toNat
  | _ => none

/-- The range of the integers that a directive makes: the first one in it, and the first one behind
it. -/
def integerRange? (code : Char) : Option (Int × Int) :=
  if code ∈ ['i', 'b', 'h'] then some (-2 ^ 31, 2 ^ 31)
  else if code ∈ ['l', 'L', 'n'] then some (-2 ^ 63, 2 ^ 63)
  else if code ∈ ['B', 'H', 'I'] then some (0, 2 ^ 32)
  else if code ∈ ['k', 'K'] then some (0, 2 ^ 64)
  else none

/-- In the range from `lo` to `hi`, `m` is what is left of `n` modulo the size of the range. -/
def Residue (lo hi n m : Int) : Prop :=
  lo ≤ m ∧ m < hi ∧ m ≡ n [ZMOD hi - lo]

/-- A range has only one integer of a residue. -/
lemma Residue.unique {lo hi n m m' : Int} (h : Residue lo hi n m) (h' : Residue lo hi n m') :
    m' = m := by
  obtain ⟨hlo, hhi, hmod⟩ := h
  obtain ⟨hlo', hhi', hmod'⟩ := h'
  have hdvd : hi - lo ∣ m' - m := (hmod.trans hmod'.symm).dvd
  -- Both are in the range, so they differ by less than its size, and their difference is a multiple
  -- of it.
  have hsmall : |m' - m| < hi - lo := abs_lt.mpr ⟨by omega, by omega⟩
  have := Int.eq_zero_of_abs_lt_dvd hdvd hsmall
  omega

/-- What a signed word keeps of an integer. -/
lemma residue_bmod (n : Int) (k : Nat) : Residue (-2 ^ k) (2 ^ k) n (n.bmod (2 ^ (k + 1))) := by
  have hpos : 0 < 2 ^ (k + 1) := Nat.two_pow_pos _
  have hsize : ((2 ^ (k + 1) : Nat) : Int) = 2 ^ k - -2 ^ k := by
    push_cast
    ring
  have hle := Int.le_bmod (x := n) hpos
  have hlt := Int.bmod_lt (x := n) hpos
  refine ⟨by omega, by omega, ?_⟩
  rw [← hsize]
  exact Int.bmod_emod

/-- What an unsigned word keeps of an integer. -/
lemma residue_emod (n : Int) {hi : Int} (hpos : 0 < hi) : Residue 0 hi n (n % hi) := by
  refine ⟨Int.emod_nonneg _ hpos.ne', Int.emod_lt_of_pos _ hpos, ?_⟩
  rw [Int.sub_zero]
  exact Int.mod_modEq n hi

/-- The integer that an object is. -/
def Object.integer? : Object → Option Int
  | .int i => some i.toInt
  | .bigInt i => some i
  | _ => Option.none

/-- The object is the integer `m`, in the form for integers of this size. It can be read as a signed
word if `m` is not too large for one. -/
structure Object.Holds (o : Object) (m : Int) : Prop where
  integer : o.integer? = some m
  int : o.kind = .int ↔ -2 ^ 63 ≤ m ∧ m < 2 ^ 63
  bigInt : o.kind = .bigInt ↔ ¬ (-2 ^ 63 ≤ m ∧ m < 2 ^ 63)
  read : ∀ (h : Heap) (r : Ref), h.object? r = some o →
    (h.toInt64? r).map Int64.toInt = if m < 2 ^ 63 then some m else Option.none

lemma holds_int (i : Int64) : (Object.int i).Holds i.toInt := by
  have hle := i.le_toInt
  have hlt := i.toInt_lt
  refine ⟨rfl, ?_, ?_, fun h r hr => ?_⟩
  · simp [Object.kind]
    omega
  · simp [Object.kind]
    omega
  · simp [Heap.toInt64?, hr, Object.toInt64?]
    omega

/-! ## Words of the other signedness -/

lemma toInt_toInt64 (u : UInt64) : u.toInt64.toInt = (u.toNat : Int).bmod (2 ^ 64) := by
  rw [← Int64.toInt_toBitVec, UInt64.toBitVec_toInt64, BitVec.toInt_eq_toNat_bmod,
    UInt64.toNat_toBitVec]

lemma toNat_toUInt64 (i : Int64) : (i.toUInt64.toNat : Int) = i.toInt % 2 ^ 64 := by
  have hi := toInt_toInt64 i.toUInt64
  rw [Int64.toInt64_toUInt64] at hi
  have hlt := i.toUInt64.toNat_lt
  rw [hi, Int.bmod_def]
  omega

/-- Below the top bit, both readings of a word agree. -/
lemma toInt_toInt64_of_lt {u : UInt64} (hu : u.toNat < 0x8000000000000000) :
    u.toInt64.toInt = u.toNat := by
  rw [toInt_toInt64]
  exact Int.bmod_eq_of_le (by omega) (by omega)

lemma holds_ofUInt64 (u : UInt64) : (Object.ofUInt64 u).Holds u.toNat := by
  unfold Object.ofUInt64
  by_cases hu : u.toNat < 0x8000000000000000
  · rw [if_pos hu, ← toInt_toInt64_of_lt hu]
    exact holds_int _
  · rw [if_neg hu]
    refine ⟨rfl, ?_, ?_, fun h r hr => ?_⟩
    · simp [Object.kind]
      omega
    · simp [Object.kind]
      omega
    · have hlarge : ¬ (u.toNat : Int) < 2 ^ 63 := by omega
      have hword : ¬ (-0x8000000000000000 ≤ (u.toNat : Int) ∧
          (u.toNat : Int) < 0x8000000000000000) := by omega
      rw [if_neg hlarge, Heap.toInt64?, hr, Option.bind_some, Object.toInt64?, if_neg hword]
      rfl

/-! ## Directives -/

section Directives

variable {arg : BuildArg} {n : Int} {code : Char}

/-- Taken as a signed word, an integer argument keeps its residue. -/
lemma exists_nextSigned (harg : arg.integer? = some n) : ∃ i : Int64, i.toInt = n.bmod (2 ^ 64) ∧
    ∀ code rest position, ArgCursor.nextSigned code ⟨arg :: rest, position⟩ =
      .ok i ⟨rest, position + 1⟩ := by
  cases arg with
  | int i =>
    cases harg
    have hi := Int.bmod_eq_of_le (m := 2 ^ 64) i.le_toInt i.toInt_lt
    exact ⟨i, hi.symm, fun _ _ _ => rfl⟩
  | uint u =>
    cases harg
    exact ⟨u.toInt64, toInt_toInt64 u, fun _ _ _ => rfl⟩
  | _ => cases harg

/-- Taken as an unsigned word, an integer argument keeps its residue. -/
lemma exists_nextUnsigned (harg : arg.integer? = some n) :
    ∃ u : UInt64, (u.toNat : Int) = n % 2 ^ 64 ∧
      ∀ code rest position, ArgCursor.nextUnsigned code ⟨arg :: rest, position⟩ =
        .ok u ⟨rest, position + 1⟩ := by
  cases arg with
  | int i =>
    cases harg
    exact ⟨i.toUInt64, toNat_toUInt64 i, fun _ _ _ => rfl⟩
  | uint u =>
    cases harg
    have hlt := u.toNat_lt
    exact ⟨u, by omega, fun _ _ _ => rfl⟩
  | _ => cases harg

/-- A directive that takes one argument and makes an object of what it is. -/
lemma yields_of_next {α : Type} {next : ArgReader α} {f : α → Object} {a : α} {x : Scalar}
    (hs : Format.Spells code [] x) (hread : x.read code = next >>= fun a => pure (.fresh (f a)))
    (hplain : (f a).children = []) (hnext : ∀ rest position, next ⟨arg :: rest, position⟩ =
      .ok a ⟨rest, position + 1⟩) : Yields code [] [arg] (fun _ => .fresh (f a)) := by
  refine .of_read hs (fun position o ho => ?_) (fun rest position => ?_)
  · cases ho
    exact hplain
  · rw [hread, List.singleton_append, bind_ok (hnext rest position)]
    rfl

/-- `Truncates code arg lo hi n`: the directive makes of the argument the one integer between `lo`
and `hi` that is left of `n`. -/
def Truncates (code : Char) (arg : BuildArg) (lo hi n : Int) : Prop :=
  ∃ m o, Residue lo hi n m ∧ (∀ m', Residue lo hi n m' → m' = m) ∧ (lo ≤ n → n < hi → m = n) ∧
    Object.Holds o m ∧ Yields code [] [arg] (fun _ => .fresh o)

lemma Truncates.of_holds {lo hi m : Int} {o : Object} (hm : Residue lo hi n m) (ho : o.Holds m)
    (hy : Yields code [] [arg] (fun _ => .fresh o)) : Truncates code arg lo hi n := by
  refine ⟨m, o, hm, fun _ hm' => hm.unique hm', fun hlo hhi => ?_, ho, hy⟩
  have hn : Residue lo hi n n := ⟨hlo, hhi, .refl _⟩
  exact hn.unique hm

lemma truncates_int32 (hs : Format.Spells code [] .int32) (harg : arg.integer? = some n) :
    Truncates code arg (-2 ^ 31) (2 ^ 31) n := by
  obtain ⟨i, hi, hnext⟩ := exists_nextSigned harg
  -- Cutting a residue modulo 2 ^ 64 leaves the residue modulo 2 ^ 32 of the same integer.
  have hm : i.toInt32.toInt64.toInt = n.bmod (2 ^ 32) := by
    rw [Int32.toInt_toInt64, Int64.toInt_toInt32, hi]
    exact Int.bmod_bmod_of_dvd (Nat.pow_dvd_pow 2 (by decide))
  refine .of_holds (residue_bmod n 31) (hm ▸ holds_int i.toInt32.toInt64) ?_
  exact yields_of_next (f := fun i => .int i.toInt32.toInt64) hs rfl rfl (hnext code)

lemma truncates_int64 (hs : Format.Spells code [] .int64) (harg : arg.integer? = some n) :
    Truncates code arg (-2 ^ 63) (2 ^ 63) n := by
  obtain ⟨i, hi, hnext⟩ := exists_nextSigned harg
  refine .of_holds (residue_bmod n 63) (hi ▸ holds_int i) ?_
  exact yields_of_next hs rfl rfl (hnext code)

lemma truncates_uint32 (hs : Format.Spells code [] .uint32) (harg : arg.integer? = some n) :
    Truncates code arg 0 (2 ^ 32) n := by
  obtain ⟨u, hu, hnext⟩ := exists_nextUnsigned harg
  have hcut : (u.toUInt32.toUInt64.toNat : Int) = n % 2 ^ 32 := by
    have hnat : u.toUInt32.toUInt64.toNat = u.toNat % 2 ^ 32 := by simp
    omega
  -- The cut word is far below the top bit, so reading it as a signed one changes nothing.
  have hm : u.toUInt32.toUInt64.toInt64.toInt = n % 2 ^ 32 := by
    rw [toInt_toInt64_of_lt (by omega), hcut]
  refine .of_holds (residue_emod n (by decide)) (hm ▸ holds_int u.toUInt32.toUInt64.toInt64) ?_
  exact yields_of_next (f := fun u => .int u.toUInt32.toUInt64.toInt64) hs rfl rfl (hnext code)

lemma truncates_uint64 (hs : Format.Spells code [] .uint64) (harg : arg.integer? = some n) :
    Truncates code arg 0 (2 ^ 64) n := by
  obtain ⟨u, hu, hnext⟩ := exists_nextUnsigned harg
  have hplain : (Object.ofUInt64 u).children = [] := by
    unfold Object.ofUInt64
    split_ifs <;> rfl
  refine .of_holds (residue_emod n (by decide)) (hu ▸ holds_ofUInt64 u) ?_
  exact yields_of_next hs rfl hplain (hnext code)

end Directives

/-- **Integer directives truncate.** Of an integer argument with the value `n`, signed or unsigned,
a directive makes the one integer in its range that `n` is congruent to modulo the size of the
range, and so `n` itself if that is in the range. The object has the form for integers of 64 bits if
and only if the integer is one of these. The directive `c` makes the one byte that is left of `n`.
-/
theorem integer_directives {arg : BuildArg} {n : Int} (harg : arg.integer? = some n) :
    (∀ code lo hi, integerRange? code = some (lo, hi) → Truncates code arg lo hi n) ∧
    ∃ b : UInt8, (b.toNat : Int) = n % 256 ∧
      Yields 'c' [] [arg] (fun _ => .fresh (.bytes [b])) := by
  refine ⟨fun code lo hi hrange => ?_, ?_⟩
  · unfold integerRange? at hrange
    split_ifs at hrange with hint32 hint64 huint32 huint64 <;> cases hrange
    · exact truncates_int32 (.int32 hint32) harg
    · exact truncates_int64 (.int64 hint64) harg
    · exact truncates_uint32 (.uint32 huint32) harg
    · exact truncates_uint64 (.uint64 huint64) harg
  · obtain ⟨i, hi, hnext⟩ := exists_nextSigned harg
    refine ⟨i.toUInt64.toUInt8, ?_,
      yields_of_next (f := fun i => .bytes [i.toUInt64.toUInt8]) .byte rfl rfl (hnext 'c')⟩
    -- The byte is cut off an unsigned word that was taken of a signed one; both keep the residue
    -- modulo 256.
    have hword := toNat_toUInt64 i
    rw [hi, Int.bmod_def] at hword
    rw [UInt64.toNat_toUInt8]
    omega

/-- The directive `K` makes the largest unsigned word of -1, and this is no signed word. -/
theorem integer_directives_negative : (BuildArg.int (-1)).integer? = some (-1) ∧
    ∃ o : Object, o.Holds (2 ^ 64 - 1) ∧ o.kind = .bigInt ∧
      Yields 'K' [] [.int (-1)] (fun _ => .fresh o) := by
  have harg : (BuildArg.int (-1)).integer? = some (-1) := by decide
  obtain ⟨htruncates, -⟩ := integer_directives harg
  obtain ⟨m, o, -, hunique, -, ho, hy⟩ := htruncates 'K' 0 (2 ^ 64) rfl
  have hm : Residue 0 (2 ^ 64) (-1) (2 ^ 64 - 1) := ⟨by decide, by decide, by decide⟩
  obtain rfl := hunique _ hm
  exact ⟨harg, o, ho, ho.bigInt.mpr (by decide), hy⟩

end NativeCall
