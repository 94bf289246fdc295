import NativeCall.Text.Hex
import NativeCall.Text.Hidden

/-!
# Quoted text

Three ways of writing text between quotes.

* `literal` writes a string as source text. It is quoted by `'`, unless it holds that quote and
  not the other one; control characters are written by number.
* `bytesLiteral` writes a run of bytes in the same way, after a `b`. Only visible ASCII stands
  for itself.
* `logged` writes a string for a log line: always between `"`, and every character that would not
  show is written by number in braces.

The first two are read back by one reader of escapes: a backslash is never written alone, and
neither is the quote in use.
-/

namespace NativeCall.Quoted

def isControl (c : Char) : Bool :=
  c.toNat < 0x20 || (0x7F ≤ c.toNat && c.toNat < 0xA0)

def quoteFor (cs : List Char) : Char :=
  if '\'' ∈ cs ∧ '"' ∉ cs then '"' else '\''

/-- One character inside a literal quoted by `quote`. -/
def escape (quote c : Char) : List Char :=
  if c = '\\' then ['\\', '\\']
  else if c = '\n' then ['\\', 'n']
  else if c = '\r' then ['\\', 'r']
  else if c = '\t' then ['\\', 't']
  else if c = quote then ['\\', c]
  -- Two digits are enough for every control character.
  else if isControl c then '\\' :: 'x' :: Text.hexPair c.toNat
  else [c]

/-- A string as source text. -/
def literal (s : String) : String :=
  let cs := s.toList
  let quote := quoteFor cs
  String.ofList (quote :: cs.flatMap (escape quote) ++ [quote])

def escapeByte (b : UInt8) : List Char :=
  if b = 0x5C then ['\\', '\\']
  else if b = 0x27 then ['\\', '\'']
  else if b = 0x0A then ['\\', 'n']
  else if b = 0x0D then ['\\', 'r']
  else if b = 0x09 then ['\\', 't']
  else if 0x20 ≤ b ∧ b < 0x7F then [Char.ofNat b.toNat]
  else '\\' :: 'x' :: Text.hexPair b.toNat

def bytesLiteral (bs : List UInt8) : String :=
  String.ofList ('b' :: '\'' :: bs.flatMap escapeByte ++ ['\''])

def escapeLogged (c : Char) : List Char :=
  if c = '"' then ['\\', '"']
  else if c = '\\' then ['\\', '\\']
  else if c = '\n' then ['\\', 'n']
  else if c = '\r' then ['\\', 'r']
  else if c = '\t' then ['\\', 't']
  else if c.toNat = 0 then ['\\', '0']
  else if Text.isHidden c then
    '\\' :: 'u' :: '{' :: Nat.toDigits 16 c.toNat ++ ['}']
  else [c]

/-- A string as a log line quotes it. -/
def logged (s : String) : String :=
  String.ofList ('"' :: s.toList.flatMap escapeLogged ++ ['"'])

example : literal "it's" = "\"it's\"" := by decide +kernel

example : literal "a\"b'c" = "'a\"b\\'c'" := by decide +kernel

example : bytesLiteral [0, 0x41, 0x27] = "b'\\x00A\\''" := by decide +kernel

end NativeCall.Quoted
