import NativeCall.Exception
import NativeCall.Text.Hex

/-!
# Reading UTF-8

`decode` reads bytes as text or says where and why they are none. A sequence is a start byte and
the continuation bytes it announces; the second byte of a sequence may range over fewer values
than the later ones, which is what keeps out overlong forms, surrogates and numbers past the last
code point.

A failure names the start of the first sequence that is not well formed, so everything before
that position reads as text. `Fault.truncated` means that the bytes end inside a sequence that
was well formed so far.
-/

namespace NativeCall.Utf8

/-- Why a sequence is not well formed. -/
inductive Fault where
  /-- The bytes end before the sequence does. -/
  | truncated
  /-- No sequence starts with this byte. -/
  | badStart
  /-- A byte inside the sequence is not one that may stand there. -/
  | badContinuation
  deriving DecidableEq, Repr

/-- Where reading stopped: the offset of the offending sequence, its first byte, and the cause. -/
structure DecodeError where
  position : Nat
  byte : UInt8
  fault : Fault
  deriving DecidableEq, Repr

/-- How many continuation bytes a start byte announces. -/
def continuations? (lead : UInt8) : Option Nat :=
  if lead < 0x80 then some 0
  else if lead < 0xC2 then none
  else if lead < 0xE0 then some 1
  else if lead < 0xF0 then some 2
  else if lead < 0xF5 then some 3
  else none

/-- The values that the second byte of a sequence may take. -/
def secondRange (lead : UInt8) : UInt8 × UInt8 :=
  if lead = 0xE0 then (0xA0, 0xBF)
  else if lead = 0xED then (0x80, 0x9F)
  else if lead = 0xF0 then (0x90, 0xBF)
  else if lead = 0xF4 then (0x80, 0x8F)
  else (0x80, 0xBF)

/-- Continuation bytes after the second may take any value of their class. -/
def isContinuation (b : UInt8) : Bool :=
  0x80 ≤ b && b ≤ 0xBF

/-- Each of `tail` may stand where it stands after `lead`. -/
def admits (lead : UInt8) : List UInt8 → Bool
  | [] => true
  | second :: later =>
    (secondRange lead).1 ≤ second && second ≤ (secondRange lead).2 && later.all isContinuation

/-- The payload bits of a start byte that announces `n` continuation bytes. -/
def leadBits (n : Nat) (lead : UInt8) : Nat :=
  match n with
  | 0 => lead.toNat
  | 1 => lead.toNat % 32
  | 2 => lead.toNat % 16
  | _ => lead.toNat % 8

/-- The code point of a sequence: six bits from each continuation byte. -/
def codePoint (lead : UInt8) (tail : List UInt8) : Nat :=
  tail.foldl (fun n b => 64 * n + b.toNat % 64) (leadBits tail.length lead)

/-- Reads the sequence that starts with `lead`; the result tells how many continuation bytes it
took. A byte out of place counts before a missing one, since it stands before it. -/
def sequence (lead : UInt8) (rest : List UInt8) : Except Fault (Char × Nat) :=
  match continuations? lead with
  | none => .error .badStart
  | some n =>
    let tail := rest.take n
    -- `tail` may be short here, and what there is of it is judged.
    if ¬ admits lead tail then .error .badContinuation
    else if tail.length < n then .error .truncated
    else .ok (Char.ofNat (codePoint lead tail), n)

def decodeFrom (position : Nat) (bytes : List UInt8) : Except DecodeError (List Char) :=
  match bytes with
  | [] => .ok []
  | lead :: rest =>
    match sequence lead rest with
    | .error fault => .error ⟨position, lead, fault⟩
    | .ok (c, n) => (c :: ·) <$> decodeFrom (position + 1 + n) (rest.drop n)
termination_by bytes.length

/-- The text whose encoding is `bytes`. -/
def decode (bytes : List UInt8) : Except DecodeError String :=
  String.ofList <$> decodeFrom 0 bytes

def encode (s : String) : List UInt8 :=
  s.toUTF8.toList

def Fault.message : Fault → String
  | truncated => "unexpected end of data"
  | badStart => "invalid start byte"
  | badContinuation => "invalid continuation byte"

def DecodeError.toRunError (e : DecodeError) : RunError :=
  .raising .unicodeDecodeError
    ("'utf-8' codec can't decode byte 0x" ++ Text.hexByte e.byte ++ " in position " ++
      toString e.position ++ ": " ++ e.fault.message)

end NativeCall.Utf8
