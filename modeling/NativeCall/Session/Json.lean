import NativeCall.Resource.LimitsJson
import NativeCall.Text.Hex

/-!
# Reading JSON

The parser with which a host reads its configuration. It works on the characters that are left: each
function returns what it read and the rest. A string may hold escapes that form no character, which
makes it no text but leaves the value around it well formed; and a number is kept as it is written,
whatever its size.
-/

namespace NativeCall

namespace JsonText

/-- Takes something off the front of a text, or finds the text malformed. -/
abbrev Reader (α : Type) := List Char → Option (α × List Char)

def isBlank (c : Char) : Bool :=
  c = ' ' || c = '\n' || c = '\t' || c = '\r'

def skipBlanks (cs : List Char) : List Char :=
  cs.dropWhile isBlank

/-! ## Strings -/

/-- A piece of a string: a character, or a code unit written as `\u` and four digits. -/
inductive Piece where
  | char (c : Char)
  | unit (n : Nat)

def escaped? : Char → Option Char
  | '"' => some '"'
  | '\\' => some '\\'
  | '/' => some '/'
  | 'b' => some (Char.ofNat 8)
  | 'f' => some (Char.ofNat 12)
  | 'n' => some '\n'
  | 'r' => some '\r'
  | 't' => some '\t'
  | _ => none

/-- The pieces of a string, up to its closing quote. -/
def pieces : Reader (List Piece)
  | [] => none
  | '"' :: rest => some ([], rest)
  -- The escape by number comes before those of one letter, which `u` is not.
  | '\\' :: 'u' :: a :: b :: c :: d :: rest => do
    let n ← Text.ofHex? [a, b, c, d]
    let (ps, rest) ← pieces rest
    some (.unit n :: ps, rest)
  | '\\' :: e :: rest => do
    let c ← escaped? e
    let (ps, rest) ← pieces rest
    some (.char c :: ps, rest)
  | c :: rest => do
    guard (0x20 ≤ c.toNat)
    let (ps, rest) ← pieces rest
    some (.char c :: ps, rest)

/-- The text of a string: two halves of a surrogate pair make one character, and a half that
stands alone makes none. -/
def textOf : List Piece → Option (List Char)
  | [] => some []
  | .char c :: ps => (c :: ·) <$> textOf ps
  | .unit n :: ps =>
    -- Only the halves of surrogate pairs form no character by themselves.
    if n < 0xD800 ∨ 0xE000 ≤ n then (Char.ofNat n :: ·) <$> textOf ps
    else
      match ps with
      | .unit m :: ps => do
        guard (n < 0xDC00 ∧ 0xDC00 ≤ m ∧ m < 0xE000)
        (Char.ofNat (0x10000 + 0x400 * (n - 0xD800) + (m - 0xDC00)) :: ·) <$> textOf ps
      | _ => none

/-- A string, after its opening quote. -/
def string : Reader (Option String) := fun cs => do
  let (ps, rest) ← pieces cs
  some (String.ofList <$> textOf ps, rest)

/-! ## Numbers -/

def skipDigits (cs : List Char) : Option (List Char) :=
  match cs with
  | c :: rest => if c.isDigit then some (rest.dropWhile Char.isDigit) else none
  | [] => none

/-- The integer part of a number: no zero stands in front of another digit. -/
def skipInteger : List Char → Option (List Char)
  | '0' :: rest => if (rest.head?.map Char.isDigit).getD false then none else some rest
  | cs => skipDigits cs

def skipFraction : List Char → Option (List Char)
  | '.' :: rest => skipDigits rest
  | cs => some cs

def skipExponent : List Char → Option (List Char)
  | 'e' :: rest | 'E' :: rest =>
    match rest with
    | '+' :: rest | '-' :: rest => skipDigits rest
    | rest => skipDigits rest
  | cs => some cs

def isNumeric (c : Char) : Bool :=
  c.isDigit || c = '-' || c = '+' || c = '.' || c = 'e' || c = 'E'

def number : Reader JsonValue := fun cs => do
  let digits := cs.takeWhile isNumeric
  -- A sign may stand in front of the integer part only.
  let rest ← skipInteger (if digits.head? = some '-' then digits.tail else digits)
  let rest ← skipFraction rest
  let rest ← skipExponent rest
  guard rest.isEmpty
  some (.number digits, cs.dropWhile isNumeric)

/-! ## Values -/

def skipColon (cs : List Char) : Option (List Char) :=
  match skipBlanks cs with
  | ':' :: rest => some rest
  | _ => none

mutual

/-- One value. `fuel` bounds the number of values and separators, which the number of characters
bounds. -/
def value : Nat → Reader JsonValue
  | 0, _ => none
  | fuel + 1, cs =>
    match skipBlanks cs with
    | '"' :: rest => do
      let (s, rest) ← string rest
      some (.string s, rest)
    | 't' :: 'r' :: 'u' :: 'e' :: rest => some (.bool true, rest)
    | 'f' :: 'a' :: 'l' :: 's' :: 'e' :: rest => some (.bool false, rest)
    | 'n' :: 'u' :: 'l' :: 'l' :: rest => some (.null, rest)
    | '[' :: rest =>
      match skipBlanks rest with
      | ']' :: rest => some (.array [], rest)
      | rest => do
        let (vs, rest) ← items fuel rest
        some (.array vs, rest)
    | '{' :: rest =>
      match skipBlanks rest with
      | '}' :: rest => some (.object [], rest)
      | rest => do
        let (ms, rest) ← members fuel rest
        some (.object ms, rest)
    | rest => number rest

def items : Nat → Reader (List JsonValue)
  | 0, _ => none
  | fuel + 1, cs => do
    let (v, rest) ← value fuel cs
    match skipBlanks rest with
    | ',' :: rest => do
      let (vs, rest) ← items fuel rest
      some (v :: vs, rest)
    | ']' :: rest => some ([v], rest)
    | _ => none

def members : Nat → Reader (List (Option String × JsonValue))
  | 0, _ => none
  | fuel + 1, cs =>
    match skipBlanks cs with
    | '"' :: rest => do
      let (name, rest) ← string rest
      let (v, rest) ← value fuel (← skipColon rest)
      match skipBlanks rest with
      | ',' :: rest => do
        let (ms, rest) ← members fuel rest
        some ((name, v) :: ms, rest)
      | '}' :: rest => some ([(name, v)], rest)
      | _ => none
    | _ => none

end

/-- The value of a text that holds nothing else. -/
def parse? (text : String) : Option JsonValue := do
  let cs := text.toList
  let (v, rest) ← value (2 * cs.length + 1) cs
  guard (skipBlanks rest).isEmpty
  some v

end JsonText

def Limits.ofJson? (text : String) : Option Limits :=
  Limits.fromJson? JsonText.parse? text

end NativeCall
