/-!
# Binary floating point

A 64-bit floating-point number is kept as its bits and read by exact integer arithmetic: a finite
number is `± significand · 2 ^ exponent`. Nothing here depends on the machine's own floating-point
operations, so what a number denotes can be reasoned about.

Two numbers are the same here if their bits are. That is finer than the comparison of numbers, since
the two zeros differ, and it tells NaNs apart by their payload.
-/

namespace NativeCall

/-- A number in the 64-bit binary interchange format. -/
structure Binary64 where
  bits : UInt64
  deriving DecidableEq, Repr

namespace Binary64

def isNegative (x : Binary64) : Bool :=
  0x8000000000000000 ≤ x.bits.toNat

def exponentField (x : Binary64) : Nat :=
  x.bits.toNat / 0x10000000000000 % 0x800

def fraction (x : Binary64) : Nat :=
  x.bits.toNat % 0x10000000000000

def isFinite (x : Binary64) : Bool :=
  x.exponentField ≠ 2047

def isNaN (x : Binary64) : Bool :=
  x.exponentField = 2047 ∧ x.fraction ≠ 0

/-- The magnitude of a finite number is `significand · 2 ^ exponent`; only subnormal numbers lack
the leading bit. -/
def significand (x : Binary64) : Nat :=
  if x.exponentField = 0 then x.fraction else 0x10000000000000 + x.fraction

def exponent (x : Binary64) : Int :=
  -- A field of 0 has the exponent of a field of 1, without the leading bit.
  (max x.exponentField 1 : Nat) - 1075

/-- The magnitude of a finite number that is an integer. -/
def integralMagnitude? (x : Binary64) : Option Nat :=
  if ¬ x.isFinite then none
  else if 0 ≤ x.exponent then some (x.significand * Nat.pow 2 x.exponent.toNat)
  else
    let scale := Nat.pow 2 (-x.exponent).toNat
    if x.significand % scale = 0 then some (x.significand / scale) else none

/-- The integer that a number denotes, if it denotes one. Both zeros denote 0. -/
def integral? (x : Binary64) : Option Int :=
  x.integralMagnitude?.map (fun n => if x.isNegative then -(n : Int) else n)

end Binary64

end NativeCall
