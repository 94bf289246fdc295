import NativeCall.Number.Binary64
import NativeCall.Object.Ref

/-!
# Keys

A dict tells its keys apart by a projection, and takes two values for the same key if they project
alike. Truth values and whole floating-point numbers of 64 bits project to the integer they denote,
so `True`, `1` and `1.0` are one key. An extension object is equal to itself only.

Beyond 64 bits the forms part: an integer becomes `bigInt`, while a floating-point number keeps its
bits, whole or not. There the two are different keys even where they denote the same number.

Equality of keys is decided by `Key.same`, which descends into tuples item by item.
-/

namespace NativeCall

/-- What a dict knows of a key. -/
inductive Key where
  | none
  | int (i : Int64)
  /-- An integer outside 64 bits. -/
  | bigInt (i : Int)
  /-- A floating-point number that is no integer of 64 bits. -/
  | float (bits : UInt64)
  | str (s : String)
  | bytes (bs : List UInt8)
  | tuple (items : List Key)
  | identity (r : Ref)
  deriving Repr

namespace Key

mutual

/-- Whether two keys are the same. -/
def same : Key → Key → Bool
  | none, none => true
  | int i, int j => i == j
  | bigInt i, bigInt j => i == j
  | float b, float c => b == c
  | str s, str t => s == t
  | bytes bs, bytes cs => bs == cs
  | tuple ks, tuple ls => sameItems ks ls
  | identity r, identity s => r == s
  | _, _ => false

def sameItems : List Key → List Key → Bool
  | [], [] => true
  | k :: ks, l :: ls => same k l && sameItems ks ls
  | _, _ => false

end

mutual

theorem same_iff_eq (k l : Key) : same k l = true ↔ k = l := by
  match k, l with
  | tuple ks, tuple ls => simp only [same, tuple.injEq]; exact sameItems_iff_eq ks ls
  | none, l => cases l <;> simp [same]
  | int _, l => cases l <;> simp [same]
  | bigInt _, l => cases l <;> simp [same]
  | float _, l => cases l <;> simp [same]
  | str _, l => cases l <;> simp [same]
  | bytes _, l => cases l <;> simp [same]
  | identity _, l => cases l <;> simp [same]
  | tuple _, none | tuple _, int _ | tuple _, bigInt _ | tuple _, float _ | tuple _, str _
  | tuple _, bytes _ | tuple _, identity _ => simp [same]

theorem sameItems_iff_eq (ks ls : List Key) : sameItems ks ls = true ↔ ks = ls := by
  match ks, ls with
  | [], [] => simp [sameItems]
  | k :: ks, l :: ls =>
    simp only [sameItems, Bool.and_eq_true, List.cons.injEq]
    exact and_congr (same_iff_eq k l) (sameItems_iff_eq ks ls)
  | [], _ :: _ | _ :: _, [] => simp [sameItems]

end

instance : DecidableEq Key := fun k l =>
  decidable_of_iff (same k l = true) (same_iff_eq k l)

/-- The key of an integer: small ones take the 64-bit form. -/
def ofInt (i : Int) : Key :=
  if -0x8000000000000000 ≤ i ∧ i < 0x8000000000000000 then int (Int64.ofInt i) else bigInt i

/-- The key of a floating-point number: an integer if it denotes one of 64 bits, else its bits. -/
def ofFloat (x : Binary64) : Key :=
  match x.integral? with
  | some i =>
    if -0x8000000000000000 ≤ i ∧ i < 0x8000000000000000 then int (Int64.ofInt i) else float x.bits
  | Option.none => float x.bits

end Key

end NativeCall
