/-!
# Format directives

A format string describes a value by directives. A *scalar* directive makes one item from one
argument, or from two if it takes a length; a group directive opens or closes a tuple, a list or a
dict.

`Token.ofChars` cuts a format string into its characters, each with the suffix that belongs to it:
a `#` asks for a length and follows the text directives only, a `&` follows `O` only. A suffix
elsewhere is a character of its own. `Token.meaning` says what a token stands for.
-/

namespace NativeCall

/-- The containers that a format string can describe. -/
inductive GroupKind where
  | tuple
  | list
  | dict
  deriving DecidableEq, Repr

namespace GroupKind

def opener : GroupKind → Char
  | tuple => '('
  | list => '['
  | dict => '{'

def closer : GroupKind → Char
  | tuple => ')'
  | list => ']'
  | dict => '}'

end GroupKind

/-- What one item is made of. `sized` directives take a length after their text. -/
inductive Scalar where
  /-- A string from UTF-8 bytes. -/
  | text (sized : Bool)
  | bytes (sized : Bool)
  /-- A string from code points. -/
  | wide (sized : Bool)
  /-- A signed integer of 32 bits. -/
  | int32
  /-- A signed integer of 64 bits. -/
  | int64
  /-- An unsigned integer of 32 bits. -/
  | uint32
  /-- An unsigned integer of 64 bits. -/
  | uint64
  /-- A run of one byte. -/
  | byte
  /-- A string of one code point. -/
  | codePoint
  | float
  /-- An object that the caller keeps a reference to. -/
  | borrowed
  /-- An object whose reference the caller gives away. -/
  | stolen
  /-- Whatever a conversion function makes. -/
  | converted
  deriving DecidableEq, Repr

def Scalar.isSized : Scalar → Bool
  | text sized | bytes sized | wide sized => sized
  | _ => false

def Scalar.argCount (s : Scalar) : Nat :=
  if s.isSized then 2 else 1

/-- One step of a format. -/
inductive Directive where
  | scalar (s : Scalar)
  | opening (kind : GroupKind)
  | closing (kind : GroupKind)
  deriving DecidableEq, Repr

namespace Directive

def sizeMark (sized : Bool) : String :=
  if sized then "#" else ""

def name : Directive → String
  | scalar (.text sized) => "Str" ++ sizeMark sized
  | scalar (.bytes sized) => "Bytes" ++ sizeMark sized
  | scalar (.wide sized) => "Wide" ++ sizeMark sized
  | scalar .int32 => "CInt"
  | scalar .int64 => "Long"
  | scalar .uint32 => "CUInt"
  | scalar .uint64 => "ULong"
  | scalar .byte => "Char"
  | scalar .codePoint => "UnicodeChar"
  | scalar .float => "Float"
  | scalar .borrowed => "Object"
  | scalar .stolen => "Steal"
  | scalar .converted => "Convert"
  | opening kind => kind.opener.toString
  | closing kind => kind.closer.toString

end Directive

/-- A character of a format string, with or without the suffix that may follow it. -/
structure Token where
  code : Char
  suffixed : Bool
  deriving DecidableEq, Repr

/-- What a token stands for. -/
inductive Token.Meaning where
  | directive (d : Directive)
  | separator
  | unknown
  deriving DecidableEq, Repr

namespace Token

/-- The directives that may take a length. -/
def takesLength (c : Char) : Bool :=
  c = 's' || c = 'z' || c = 'U' || c = 'y' || c = 'u'

/-- The second character is a suffix of the first. -/
def joins (c suffix : Char) : Bool :=
  (takesLength c && suffix = '#') || (c = 'O' && suffix = '&')

/-- Cuts a format string into tokens; a suffix belongs to the character before it whenever it
may. -/
def ofChars : List Char → List Token
  | [] => []
  | [c] => [⟨c, false⟩]
  | c :: d :: rest =>
    -- A suffix that may follow is never read as a character of its own.
    if joins c d then ⟨c, true⟩ :: ofChars rest else ⟨c, false⟩ :: ofChars (d :: rest)

/-- What a token stands for. -/
def meaning (t : Token) : Meaning :=
  match t.code with
  | 's' | 'z' | 'U' => scalar (.text t.suffixed)
  | 'y' => scalar (.bytes t.suffixed)
  | 'u' => scalar (.wide t.suffixed)
  | 'i' | 'b' | 'h' => scalar .int32
  | 'l' | 'L' | 'n' => scalar .int64
  | 'B' | 'H' | 'I' => scalar .uint32
  | 'k' | 'K' => scalar .uint64
  | 'c' => scalar .byte
  | 'C' => scalar .codePoint
  | 'd' | 'f' => scalar .float
  | 'O' => scalar (if t.suffixed then .converted else .borrowed)
  | 'S' => scalar .borrowed
  | 'N' => scalar .stolen
  | '(' => .directive (.opening .tuple)
  | '[' => .directive (.opening .list)
  | '{' => .directive (.opening .dict)
  | ')' => .directive (.closing .tuple)
  | ']' => .directive (.closing .list)
  | '}' => .directive (.closing .dict)
  | ':' | ',' | ' ' => .separator
  | _ => .unknown
where
  scalar (s : Scalar) : Meaning := .directive (.scalar s)

end Token

end NativeCall
