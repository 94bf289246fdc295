import NativeCall.Number.Binary64

/-!
# Decimal text of floating-point numbers

Every finite number has a rounding interval: the reals that are read as that number. The interval
reaches half way to each neighbour and holds its ends exactly when the significand is even.
`shortest` finds the decimal with the fewest digits in the interval, and of those the one nearest
to the number; a tie goes away from zero.

It does so by walking decimal grids from coarse to fine. A grid is the set of multiples of a power
of ten. On each grid only the two neighbours of the number need a look: if any point of the grid
lies in the interval, so does one of them. The first grid that meets the interval gives the
answer, because a coarser grid writes fewer digits.

`text` writes a number positionally, never with an exponent. A whole number below `10 ^ 16` shows
that it is a floating-point number by a final `.0`; other numbers are written as `shortest` finds
them.
-/

namespace NativeCall.Binary64

/-- A magnitude `digits · 10 ^ exponent`. -/
structure Decimal where
  digits : Nat
  exponent : Int
  deriving DecidableEq, Repr

/-- A rounding interval and its number, in units of one common fraction of a grid's step: the
step itself is `unit`. -/
structure OnGrid where
  low : Nat
  value : Nat
  high : Nat
  unit : Nat
  closed : Bool
  deriving Repr

/-- The interval of a finite non-zero number beside the grid of multiples of `10 ^ e`. The lower
neighbour is only half as far away where the binary exponent steps down. -/
def onGrid (x : Binary64) (e : Int) : OnGrid :=
  -- Quarters of the last binary place, so that half a gap is a whole number.
  let p := x.exponent - 2
  let scale := Nat.pow 2 p.toNat * Nat.pow 10 (-e).toNat
  -- Not at the least exponent: below it the numbers are as dense as above.
  let gapBelow := if x.fraction = 0 ∧ 1 < x.exponentField then 1 else 2
  { low := (4 * x.significand - gapBelow) * scale
    value := 4 * x.significand * scale
    high := (4 * x.significand + 2) * scale
    unit := Nat.pow 10 e.toNat * Nat.pow 2 (-p).toNat
    closed := x.significand % 2 = 0 }

namespace OnGrid

/-- The multiple of the grid below the number, or at it. -/
def floor (g : OnGrid) : Nat :=
  g.value / g.unit

/-- The `n`th grid point lies in the interval. -/
def holds (g : OnGrid) (n : Nat) : Bool :=
  if g.closed then g.low ≤ n * g.unit && n * g.unit ≤ g.high
  else g.low < n * g.unit && n * g.unit < g.high

/-- The grid point of the interval that is nearest to the number; a tie goes up. -/
def nearest? (g : OnGrid) : Option Nat :=
  let below := g.floor
  let above := below + 1
  match g.holds below, g.holds above with
  | true, true =>
    some (if g.value - below * g.unit < above * g.unit - g.value then below else above)
  | true, false => some below
  | false, true => some above
  | false, false => none

end OnGrid

/-- The exponent of a grid so coarse that zero is its only point at or below the interval. The
interval ends at most at `2 ^ bits`, and `30103 / 100000` is the decimal logarithm of two, rounded
up by less than the one that is added can make good. -/
def coarseExponent (x : Binary64) : Int :=
  let bits : Int := x.significand.log2 + 1 + x.exponent
  bits * 30103 / 100000 + 1

/-- Walks grids from `10 ^ (n - 325)` down to finer ones. -/
def coarsest (x : Binary64) : Nat → Decimal
  | 0 => ⟨0, 0⟩
  | n + 1 =>
    let e : Int := n - 324
    match (x.onGrid e).nearest? with
    | some d => ⟨d, e⟩
    | none => x.coarsest n

/-- The shortest decimal that is read as the magnitude of `x`, which is finite and not zero. The
finest grid, `10 ^ (-324)`, has a point in every interval. -/
def shortest (x : Binary64) : Decimal :=
  x.coarsest (x.coarseExponent + 325).toNat

/-- A magnitude in positional form, with a point only if there are digits after it. -/
def Decimal.positional (d : Decimal) : String :=
  if 0 ≤ d.exponent then toString (d.digits * Nat.pow 10 d.exponent.toNat)
  else
    let places := (-d.exponent).toNat
    let scale := Nat.pow 10 places
    let after := Nat.toDigits 10 (d.digits % scale)
    toString (d.digits / scale) ++ "." ++
      String.ofList (List.replicate (places - after.length) '0' ++ after)

def signed (x : Binary64) (magnitude : String) : String :=
  if x.isNegative then "-" ++ magnitude else magnitude

def text (x : Binary64) : String :=
  if x.isNaN then "nan"
  else if ¬ x.isFinite then x.signed "inf"
  else
    match x.integralMagnitude? with
    | some n =>
      -- From here on the digits alone are written, as for an integer.
      if n < 10000000000000000 then x.signed (toString n ++ ".0")
      else x.signed x.shortest.positional
    | none => x.signed x.shortest.positional

end NativeCall.Binary64
