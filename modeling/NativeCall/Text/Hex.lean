/-!
# Hexadecimal numerals

Lower-case digits, without leading zeros (`hex`) or in pairs, one pair to a byte (`hexByte`).
-/

namespace NativeCall.Text

/-- The digits of `n` in base sixteen. -/
def hex (n : Nat) : String :=
  String.ofList (Nat.toDigits 16 n)

/-- The two digits of a number below 256. -/
def hexPair (n : Nat) : List Char :=
  [Nat.digitChar (n / 16 % 16), Nat.digitChar (n % 16)]

def hexByte (b : UInt8) : String :=
  String.ofList (hexPair b.toNat)

def hexBytes (bs : List UInt8) : String :=
  String.ofList (bs.flatMap (fun b => hexPair b.toNat))

def digitValue? (c : Char) : Option Nat :=
  if '0' ≤ c ∧ c ≤ '9' then some (c.toNat - '0'.toNat)
  else if 'a' ≤ c ∧ c ≤ 'f' then some (c.toNat - 'a'.toNat + 10)
  else if 'A' ≤ c ∧ c ≤ 'F' then some (c.toNat - 'A'.toNat + 10)
  else none

def ofHexPairs? : List Char → Option (List UInt8)
  | [] => some []
  | h :: l :: rest => do
    let hi ← digitValue? h
    let lo ← digitValue? l
    let bs ← ofHexPairs? rest
    some (UInt8.ofNat (16 * hi + lo) :: bs)
  | _ => none

def ofHex? (cs : List Char) : Option Nat :=
  cs.foldlM (fun n c => (digitValue? c).map (16 * n + ·)) 0

end NativeCall.Text
