import Mathlib
import NativeCall.Number.Shortest

/-!
# Which numbers show a point

The text of a floating-point number should tell it from an integer. It does where the number is not
finite, where it is no whole number, and where it is a whole number below `10 ^ 16`. A larger whole
number is written by its digits alone, which is the text of an integer (`text_eq_toString_iff`).

That a number which is not whole has digits after the point is a fact about the walk from coarse
grids to fine ones. Its rounding interval reaches half way to the neighbours, and there is no
integer in it: an integer so small would be a floating-point number itself
(`not_holds_of_fraction`). So no grid of step one or more stops the walk. The finest grid does
(`finds_finest`), so the walk stops somewhere after the point. A whole number is a point of the grid
of step one, so the walk stops there at the latest (`finds_whole`).

## Numbers on a grid

To compare a binary number with decimal ones, both are written as multiples of a common unit: the
number, the two ends of its rounding interval, and the step of the grid. All four are then natural
numbers, and whether a point of the grid lies in the interval is a comparison. The unit has a power
of two and a power of ten in it, and each of these is on the one side or on the other, according to
the sign of the exponent; that is why a lemma about one grid often has two cases.

## Large whole numbers

From `10 ^ 16` on the shortest digits that tell a number from its neighbours need not be those of
the number. They are followed by zeros up to the point. So the integer with the same text
(`bareInteger?`) is not always the integer that the number is, and the theorem names the one that is
shown.
-/

namespace NativeCall.Binary64

variable {x : Binary64} {i : Int} {k n : Nat} {e : Int} {s : String} {c : Char}

/-! ## Grids -/

namespace OnGrid

variable {g : OnGrid} {d : Nat}

lemma le_of_holds (hd : g.holds d = true) : g.low ≤ d * g.unit ∧ d * g.unit ≤ g.high := by
  unfold holds at hd
  split at hd <;> simp only [Bool.and_eq_true, decide_eq_true_eq] at hd <;> omega

lemma holds_of_lt (hlow : g.low < d * g.unit) (hhigh : d * g.unit < g.high) :
    g.holds d = true := by
  unfold holds
  split <;> simp only [Bool.and_eq_true, decide_eq_true_eq] <;> omega

lemma holds_of_nearest? (hd : g.nearest? = some d) : g.holds d = true := by
  simp only [nearest?] at hd
  split at hd <;> simp only [Option.some.injEq, reduceCtorEq] at hd <;> subst hd
  case h_1 hbelow habove => split <;> assumption
  all_goals assumption

lemma nearest?_ne_none (h : g.holds g.floor = true ∨ g.holds (g.floor + 1) = true) :
    g.nearest? ≠ none := by
  simp only [nearest?]
  rcases h with h | h <;> rw [h] <;> split <;> simp_all

/-- A grid whose point is the number itself stops the walk. -/
lemma nearest?_ne_none_of_point (hunit : 0 < g.unit) (hvalue : g.value = d * g.unit)
    (hlow : g.low < g.value) (hhigh : g.value < g.high) : g.nearest? ≠ none := by
  have hfloor : g.floor = d := by rw [floor, hvalue, Nat.mul_div_cancel d hunit]
  rw [hvalue] at hlow hhigh
  refine nearest?_ne_none (.inl ?_)
  rw [hfloor]
  exact holds_of_lt hlow hhigh

/-- A grid whose step is shorter than the distance to the upper end stops the walk. -/
lemma nearest?_ne_none_of_step (hunit : 0 < g.unit) (hlow : g.low ≤ g.value)
    (hstep : g.value + g.unit < g.high) : g.nearest? ≠ none := by
  have hdiv := Nat.div_add_mod g.value g.unit
  have hmod := Nat.mod_lt g.value hunit
  have hpoint : (g.floor + 1) * g.unit = g.unit * (g.value / g.unit) + g.unit := by
    rw [floor]
    ring
  exact nearest?_ne_none (.inr (holds_of_lt (by omega) (by omega)))

end OnGrid

/-- The interval ends on both sides of the number. -/
lemma onGrid_bounds (hx : x.significand ≠ 0) (e : Int) :
    0 < (x.onGrid e).low ∧ (x.onGrid e).low < (x.onGrid e).value ∧
      (x.onGrid e).value + 2 * (Nat.pow 2 (x.exponent - 2).toNat * Nat.pow 10 (-e).toNat) =
        (x.onGrid e).high ∧ 0 < (x.onGrid e).unit := by
  have hscale : 0 < Nat.pow 2 (x.exponent - 2).toNat * Nat.pow 10 (-e).toNat :=
    Nat.mul_pos (Nat.two_pow_pos _) (Nat.pow_pos (by decide))
  have hunit : 0 < Nat.pow 10 e.toNat * Nat.pow 2 (-(x.exponent - 2)).toNat :=
    Nat.mul_pos (Nat.pow_pos (by decide)) (Nat.two_pow_pos _)
  simp only [onGrid]
  refine ⟨Nat.mul_pos ?_ hscale, Nat.mul_lt_mul_of_pos_right ?_ hscale, by ring, hunit⟩ <;>
    split <;> omega

/-! ## The walk -/

/-- The walk stops at the first grid that has a point in the interval, so at the latest where there
is known to be one. -/
lemma coarsest_of_finds (hk : k < n) (hfinds : (x.onGrid ((k : Int) - 324)).nearest? ≠ none) :
    ∃ j d : Nat, k ≤ j ∧ x.coarsest n = ⟨d, (j : Int) - 324⟩ ∧
      (x.onGrid ((j : Int) - 324)).holds d = true := by
  induction n with
  | zero => exact absurd hk (Nat.not_lt_zero k)
  | succ n ih =>
    rw [coarsest]
    cases hn : (x.onGrid ((n : Int) - 324)).nearest? with
    | some d => exact ⟨n, d, Nat.le_of_lt_succ hk, rfl, OnGrid.holds_of_nearest? hn⟩
    | none =>
      have hne : k ≠ n := by
        rintro rfl
        exact hfinds hn
      exact ih (by omega)

lemma exponent_ge (x : Binary64) : -1074 ≤ x.exponent := by
  unfold exponent
  omega

/-! ## Numbers that are not whole -/

/-- A finite number that is not whole has bits after the point. -/
lemma fraction_cases (hfin : x.isFinite = true) (hx : x.integralMagnitude? = none) :
    ∃ q : Nat, x.exponent = -(q : Int) ∧ ¬ 2 ^ q ∣ x.significand := by
  unfold integralMagnitude? at hx
  simp only [hfin, not_true_eq_false, if_false, Nat.pow_eq] at hx
  by_cases hexp : 0 ≤ x.exponent
  · simp [hexp] at hx
  · obtain ⟨q, hq⟩ := Int.eq_ofNat_of_zero_le (show 0 ≤ -x.exponent by omega)
    refine ⟨q, by omega, ?_⟩
    simp only [if_neg hexp, hq, Int.toNat_natCast] at hx
    intro hdvd
    simp [Nat.mod_eq_zero_of_dvd hdvd] at hx

/-- No integer lies in the rounding interval of a number that is not whole. -/
lemma not_holds_of_fraction (hfin : x.isFinite = true) (hx : x.integralMagnitude? = none)
    (he : 0 ≤ e) (d : Nat) : (x.onGrid e).holds d ≠ true := by
  intro hd
  obtain ⟨q, hq, hdvd⟩ := fraction_cases hfin hx
  obtain ⟨hlow, hhigh⟩ := OnGrid.le_of_holds hd
  have hdown : (x.exponent - 2).toNat = 0 := by omega
  have hup : (-(x.exponent - 2)).toNat = q + 2 := by omega
  have hnone : (-e).toNat = 0 := by omega
  have hpoint : d * (10 ^ e.toNat * 2 ^ (q + 2)) = 4 * (d * 10 ^ e.toNat * 2 ^ q) := by ring
  simp only [onGrid, hdown, hup, hnone, Nat.pow_eq, pow_zero, mul_one, hpoint] at hlow hhigh
  have hsame : x.significand = d * 10 ^ e.toNat * 2 ^ q := by
    split at hlow <;> omega
  exact hdvd ⟨d * 10 ^ e.toNat, by rw [hsame, mul_comm]⟩

/-- The finest grid has a point in every interval. -/
lemma finds_finest (hx : x.significand ≠ 0) : (x.onGrid (-324)).nearest? ≠ none := by
  obtain ⟨-, hlow, hhigh, hunit⟩ := onGrid_bounds hx (-324)
  refine OnGrid.nearest?_ne_none_of_step hunit hlow.le ?_
  have hexp := x.exponent_ge
  have hbits : (-(x.exponent - 2)).toNat ≤ 1076 := by omega
  have hstep : (x.onGrid (-324)).unit <
      2 * (Nat.pow 2 (x.exponent - 2).toNat * Nat.pow 10 (- -324 : Int).toNat) := by
    calc (x.onGrid (-324)).unit
      _ = 2 ^ (-(x.exponent - 2)).toNat := Nat.one_mul _
      _ ≤ 2 ^ 1076 := Nat.pow_le_pow_right (by decide) hbits
      _ < 2 * Nat.pow 10 (- -324 : Int).toNat := by decide +kernel
      _ ≤ 2 * (Nat.pow 2 (x.exponent - 2).toNat * Nat.pow 10 (- -324 : Int).toNat) :=
        Nat.mul_le_mul_left 2 (Nat.le_mul_of_pos_left _ (Nat.two_pow_pos _))
  omega

/-- A number that is not whole is written with digits after the point. -/
lemma exponent_shortest_of_fraction (hfin : x.isFinite = true)
    (hx : x.integralMagnitude? = none) : x.shortest.exponent < 0 := by
  have hsignificand : x.significand ≠ 0 := by
    obtain ⟨q, -, hdvd⟩ := fraction_cases hfin hx
    rintro hzero
    exact hdvd (hzero ▸ Nat.dvd_zero _)
  have hstart : 0 < (x.coarseExponent + 325).toNat := by
    have hexp := x.exponent_ge
    simp only [coarseExponent]
    omega
  obtain ⟨j, d, -, hshortest, hd⟩ := coarsest_of_finds hstart (finds_finest hsignificand)
  rw [shortest, hshortest]
  by_contra hexp
  exact not_holds_of_fraction hfin hx (Int.not_lt.mp hexp) d hd

/-! ## Whole numbers -/

lemma whole_cases (hx : x.integralMagnitude? = some n) :
    (∃ q : Nat, x.exponent = q ∧ n = x.significand * 2 ^ q) ∨
      ∃ q : Nat, x.exponent = -(q : Int) ∧ x.significand = n * 2 ^ q := by
  unfold integralMagnitude? at hx
  split at hx
  case isTrue => simp at hx
  case isFalse hfin =>
    simp only [Nat.pow_eq] at hx
    by_cases hexp : 0 ≤ x.exponent
    · obtain ⟨q, hq⟩ := Int.eq_ofNat_of_zero_le hexp
      rw [if_pos hexp, hq, Int.toNat_natCast] at hx
      exact .inl ⟨q, hq, (Option.some.inj hx).symm⟩
    · obtain ⟨q, hq⟩ := Int.eq_ofNat_of_zero_le (show 0 ≤ -x.exponent by omega)
      rw [if_neg hexp, hq, Int.toNat_natCast] at hx
      split at hx
      case isFalse => simp at hx
      case isTrue hmod =>
        obtain rfl := Option.some.inj hx
        exact .inr ⟨q, by omega, (Nat.div_mul_cancel (Nat.dvd_of_mod_eq_zero hmod)).symm⟩

/-- A whole number is a point of the grid of step one. -/
lemma value_of_whole (hx : x.integralMagnitude? = some n) :
    (x.onGrid 0).value = n * (x.onGrid 0).unit := by
  simp only [onGrid, Nat.pow_eq, Int.toNat_zero, neg_zero, pow_zero, mul_one, one_mul]
  rcases whole_cases hx with ⟨q, hq, rfl⟩ | ⟨q, hq, hsignificand⟩
  · have hpow : 2 + (x.exponent - 2).toNat = q + (-(x.exponent - 2)).toNat := by omega
    calc 4 * x.significand * 2 ^ (x.exponent - 2).toNat
      _ = x.significand * 2 ^ (2 + (x.exponent - 2).toNat) := by ring
      _ = x.significand * 2 ^ q * 2 ^ (-(x.exponent - 2)).toNat := by
        rw [hpow, pow_add, mul_assoc]
  · have hdown : (x.exponent - 2).toNat = 0 := by omega
    have hup : (-(x.exponent - 2)).toNat = q + 2 := by omega
    rw [hdown, hup, hsignificand]
    ring

lemma significand_ne_zero_of_whole (hx : x.integralMagnitude? = some n) (hn : n ≠ 0) :
    x.significand ≠ 0 := by
  rcases whole_cases hx with ⟨q, -, rfl⟩ | ⟨q, -, hsignificand⟩
  · exact left_ne_zero_of_mul hn
  · rw [hsignificand]
    exact Nat.mul_ne_zero hn (Nat.two_pow_pos q).ne'

lemma finds_whole (hx : x.integralMagnitude? = some n) (hn : n ≠ 0) :
    (x.onGrid 0).nearest? ≠ none := by
  obtain ⟨-, hlow, hhigh, hunit⟩ := onGrid_bounds (significand_ne_zero_of_whole hx hn) 0
  have hscale : 0 < Nat.pow 2 (x.exponent - 2).toNat * Nat.pow 10 (- 0 : Int).toNat :=
    Nat.mul_pos (Nat.two_pow_pos _) (Nat.pow_pos (by decide))
  exact OnGrid.nearest?_ne_none_of_point hunit (value_of_whole hx) hlow (by omega)

/-- A whole number is not below one, so the walk starts at a grid of step one or more. -/
lemma coarseExponent_of_whole (hx : x.integralMagnitude? = some n) (hn : n ≠ 0) :
    0 ≤ x.coarseExponent := by
  have hbits : 0 ≤ (x.significand.log2 : Int) + x.exponent := by
    rcases whole_cases hx with ⟨q, hq, -⟩ | ⟨q, hq, hsignificand⟩
    · omega
    · have hle : 2 ^ q ≤ x.significand := by
        rw [hsignificand]
        exact Nat.le_mul_of_pos_left _ (Nat.pos_of_ne_zero hn)
      have hlog := (Nat.le_log2 (significand_ne_zero_of_whole hx hn)).mpr hle
      omega
  simp only [coarseExponent]
  omega

/-- A whole number is written without digits after the point. -/
lemma shortest_of_whole (hx : x.integralMagnitude? = some n) (hn : n ≠ 0) :
    0 ≤ x.shortest.exponent ∧ 0 < x.shortest.digits := by
  have hstart : 324 < (x.coarseExponent + 325).toNat := by
    have hcoarse := coarseExponent_of_whole hx hn
    omega
  obtain ⟨j, d, hj, hshortest, hd⟩ := coarsest_of_finds hstart (finds_whole hx hn)
  obtain ⟨hpos, -, -, -⟩ :=
    onGrid_bounds (significand_ne_zero_of_whole hx hn) ((j : Int) - 324)
  have hdigits : 0 < d := by
    by_contra hzero
    have hlow := (OnGrid.le_of_holds hd).1
    rw [Nat.eq_zero_of_not_pos hzero, Nat.zero_mul] at hlow
    omega
  have hexp : 0 ≤ (j : Int) - 324 := by omega
  rw [shortest, hshortest]
  exact ⟨hexp, hdigits⟩

/-! ## Texts -/

/-- The integer of which a whole number from `10 ^ 16` on has the text. It is written with as few
digits as tell the number from its neighbours, so it need not be the number itself. -/
def bareInteger? (x : Binary64) : Option Int :=
  match x.integralMagnitude? with
  | some n =>
    if n < 10000000000000000 then none
    else
      let shown := x.shortest.digits * Nat.pow 10 x.shortest.exponent.toNat
      some (if x.isNegative then -(shown : Int) else shown)
  | none => none

/-- An integer is written with digits and a sign. -/
lemma isDigit_or_sign (hc : c ∈ (toString i).toList) : c.isDigit = true ∨ c = '-' := by
  have hdigit : ∀ {n : Nat}, c ∈ n.repr.toList → c.isDigit = true := by
    intro n hn
    rw [Nat.toList_repr] at hn
    exact Nat.isDigit_of_mem_toDigits (by decide) (by decide) hn
  rw [Int.toString_eq_repr, Int.repr_eq_if] at hc
  split at hc
  case isTrue => exact .inl (hdigit hc)
  case isFalse =>
    rw [String.toList_append, List.mem_append] at hc
    rcases hc with hc | hc
    · exact .inr (by simpa using hc)
    · exact .inl (hdigit hc)

lemma mem_signed (hc : c ∈ s.toList) : c ∈ (x.signed s).toList := by
  unfold signed
  split
  · rw [String.toList_append, List.mem_append]
    exact .inr hc
  · exact hc

/-- A magnitude with digits after the point shows the point. -/
lemma point_mem_positional {d : Decimal} (hd : d.exponent < 0) :
    '.' ∈ d.positional.toList := by
  unfold Decimal.positional
  rw [if_neg (by omega)]
  simp

/-- What has no point in its text is a whole number from `10 ^ 16` on. -/
lemma exists_mem_text (hx : x.bareInteger? = none) : ∃ c ∈ x.text.toList, c = '.' ∨ c = 'n' := by
  unfold text
  by_cases hnan : x.isNaN = true
  · rw [if_pos hnan]
    exact ⟨'n', by simp, .inr rfl⟩
  by_cases hfin : x.isFinite = true
  -- A finite number has the point in its digits, either because it is not whole or because it is
  -- small enough for the point and the zero behind it.
  · rw [if_neg hnan, if_neg (not_not.mpr hfin)]
    cases hm : x.integralMagnitude? with
    | none =>
      exact ⟨'.', mem_signed (point_mem_positional (exponent_shortest_of_fraction hfin hm)),
        .inl rfl⟩
    | some n =>
      have hn : n < 10000000000000000 := by
        by_contra hlarge
        simp [bareInteger?, hm, hlarge] at hx
      simp only [if_pos hn]
      exact ⟨'.', mem_signed (by simp), .inl rfl⟩
  · rw [if_neg hnan, if_pos hfin]
    exact ⟨'n', mem_signed (by simp), .inr rfl⟩

lemma signed_toString (hpos : 0 < n) :
    x.signed (toString n) = toString (if x.isNegative then -(n : Int) else n) := by
  unfold signed
  rw [Int.toString_eq_repr, Int.repr_eq_if, Nat.toString_eq_repr]
  split
  · rw [if_neg (by omega), neg_neg, Int.toNat_natCast]
  · rw [if_pos (by omega), Int.toNat_natCast]

lemma text_of_bareInteger? (hx : x.bareInteger? = some i) : x.text = toString i := by
  unfold bareInteger? at hx
  cases hm : x.integralMagnitude? with
  | none => simp [hm] at hx
  | some n =>
    simp only [hm] at hx
    split at hx
    case isTrue => simp at hx
    case isFalse hn =>
      obtain rfl := Option.some.inj hx
      obtain ⟨hexp, hdigits⟩ := shortest_of_whole hm (by omega)
      have hpos : 0 < x.shortest.digits * Nat.pow 10 x.shortest.exponent.toNat :=
        Nat.mul_pos hdigits (Nat.pow_pos (by decide))
      -- No digit stands behind the point, so the digits are filled up with zeros and nothing is
      -- cut.
      have hpositional : x.shortest.positional =
          toString (x.shortest.digits * Nat.pow 10 x.shortest.exponent.toNat) := by
        rw [Decimal.positional, if_pos hexp]
      rw [← signed_toString hpos, ← hpositional]
      have hfin : x.isFinite = true := by
        by_contra hinf
        simp [integralMagnitude?, hinf] at hm
      have hnan : x.isNaN ≠ true := by
        simp_all [isFinite, isNaN]
      rw [text, if_neg hnan, if_neg (not_not.mpr hfin), hm]
      simp only [if_neg hn]

/-- **The text of a floating-point number is that of an integer** just if it is a whole number from
`10 ^ 16` on, and then it is the text of one integer. -/
theorem text_eq_toString_iff : x.text = toString i ↔ x.bareInteger? = some i := by
  constructor
  · intro htext
    cases hx : x.bareInteger? with
    | none =>
      obtain ⟨c, hc, hshown⟩ := exists_mem_text hx
      rw [htext] at hc
      rcases hshown with rfl | rfl <;> rcases isDigit_or_sign hc with h | h <;> simp at h
    | some j =>
      have hsame := (text_of_bareInteger? hx).symm.trans htext
      rw [Int.toString_eq_repr, Int.toString_eq_repr, Int.repr_inj] at hsame
      rw [hsame]
  · exact text_of_bareInteger?

end NativeCall.Binary64
