import NativeCall.Build.Error
import NativeCall.Context
import NativeCall.Text.Utf8

/-!
# Arguments of a build

A native caller passes one `BuildArg` for each argument that the format takes, tagged by its native
type. Reading a scalar takes its arguments off the front and says what is to be made of them (a
`Product`), without touching the heap: `Scalar.read`.

Integers are taken modulo the width that a directive asks for, and a signed and an unsigned argument
stand in for each other bit by bit. A text ends at its first zero, unless a length that is not
negative says otherwise.

An argument of the wrong type is rejected; if the caller gave a reference away with it, the reading
hands that reference back to be released.

## Positions

Diagnostics count arguments from 1, and `ArgCursor.position` is the number of the argument taken
last. An argument that is missing is counted as if it had been taken, so that it can be named. A
text with a length is two arguments: a text of the wrong type is rejected before its length is
taken, and a length that is too large is reported at the position of the length. The length is taken
also where the text is null and there is nothing to measure.
-/

namespace NativeCall

/-- A conversion with its argument: it makes a new owned reference, or raises. -/
abbrev Conversion := ExceptT RunError ContextM Ref

/-- One argument. -/
inductive BuildArg where
  /-- Bytes of text, or null. -/
  | text (bytes : Option (List UInt8))
  /-- Code points, or null. -/
  | wide (units : Option (List UInt32))
  /-- A length. -/
  | size (n : Int64)
  | int (i : Int64)
  | uint (u : UInt64)
  | float (x : Binary64)
  /-- A reference that the caller keeps. -/
  | borrowed (w : Word)
  /-- A reference that the caller gives away. -/
  | stolen (w : Word)
  /-- A conversion and its argument; none if the argument is null. -/
  | convert (action : Option Conversion)

def BuildArg.owned : BuildArg → List Ref
  | stolen (some r) => [r]
  | _ => []

/-- What one scalar puts into the value. -/
inductive Product where
  /-- A null text stands for `None`. -/
  | none
  /-- A new object. -/
  | fresh (o : Object)
  /-- A new reference to the caller's object. -/
  | retained (r : Ref)
  /-- The caller's own reference. -/
  | taken (r : Ref)
  | converted (action : Conversion)
  /-- A null object, which is an error. -/
  | null

/-- The arguments to come, and how many were taken. -/
structure ArgCursor where
  args : List BuildArg
  position : Nat

/-- A reading that failed, and what is to be released for it. -/
structure ReadError where
  error : BuildError
  rejected : List Ref

/-- Readings of arguments: they move the cursor also where they fail. -/
abbrev ArgReader := EStateM ReadError ArgCursor

namespace ArgCursor

/-- Takes the next argument, asked for by the directive `code`. -/
def next (code : Char) : ArgReader BuildArg := fun c =>
  match c.args with
  | arg :: rest => .ok arg ⟨rest, c.position + 1⟩
  -- The position moves on, to that of the argument which is not there.
  | [] => .error ⟨.call (.missingArg (c.position + 1) code), []⟩ ⟨[], c.position + 1⟩

def fail {α : Type} (e : BuildError) : ArgReader α :=
  throw ⟨e, []⟩

/-- Rejects the argument taken last. -/
def reject {α : Type} (arg : BuildArg) (code : Char) : ArgReader α := do
  throw ⟨.call (.argMismatch (← getThe ArgCursor).position code), arg.owned⟩

def nextSize (code : Char) : ArgReader Int64 := do
  match ← next code with
  | .size n => return n
  | .int i => return i
  | arg => reject arg code

def nextSigned (code : Char) : ArgReader Int64 := do
  match ← next code with
  | .int i => return i
  | .uint u => return u.toInt64
  | arg => reject arg code

def nextUnsigned (code : Char) : ArgReader UInt64 := do
  match ← next code with
  | .uint u => return u
  | .int i => return i.toUInt64
  | arg => reject arg code

/-- Takes the length of a sized text; any other text has none. -/
def nextLength (code : Char) (sized : Bool) : ArgReader (Option Int64) :=
  if sized then some <$> nextSize code else return none

/-- The part of a buffer that an argument designates: the first `length` elements, or, without a
length or with a negative one, the elements before the first zero. -/
def designated {α : Type} [DecidableEq α] (zero : α) (buffer : List α) (length : Option Int64) :
    ArgReader (List α) := do
  -- A negative length is the same as none.
  match length.filter (0 ≤ ·) with
  | none => return buffer.takeWhile (· ≠ zero)
  | some n =>
    let n := n.toInt.toNat
    if n ≤ buffer.length then return buffer.take n
    else fail (.call (.lengthOutOfRange (← getThe ArgCursor).position n buffer.length))

end ArgCursor

/-- The character of a number, if the number is one of a character. -/
def charOf? (n : Nat) : Option Char :=
  if h : n.isValidChar then some (Char.ofNatAux n h) else none

/-- The text of a run of code points. The first number that is no character is an error. -/
def textOfUnits (units : List UInt32) : Except RunError String :=
  String.ofList <$> units.mapM (fun u =>
    match charOf? u.toNat with
    | some c => .ok c
    | none => .error (.raising .valueError
        ("character U+" ++ Text.hex u.toNat ++ " is not in range [U+0000; U+10ffff]")))

namespace Scalar

open ArgCursor

def readBytes (code : Char) (sized : Bool) : ArgReader (Option (List UInt8)) := do
  match ← next code with
  | .text buffer =>
    let length ← nextLength code sized
    match buffer with
    | none => return none
    | some buffer => some <$> designated 0 buffer length
  | arg => reject arg code

def readUnits (code : Char) (sized : Bool) : ArgReader (Option (List UInt32)) := do
  match ← next code with
  | .wide buffer =>
    let length ← nextLength code sized
    match buffer with
    | none => return none
    | some buffer => some <$> designated 0 buffer length
  | arg => reject arg code

/-- Takes the arguments of one scalar, which is written by `code`. -/
def read (code : Char) : Scalar → ArgReader Product
  | text sized => do
    match ← readBytes code sized with
    | none => return .none
    | some data =>
      match Utf8.decode data with
      | .ok s => return .fresh (.str s)
      | .error e => fail (.raised e.toRunError)
  | bytes sized => do
    match ← readBytes code sized with
    | none => return .none
    | some data => return .fresh (.bytes data)
  | wide sized => do
    match ← readUnits code sized with
    | none => return .none
    | some units =>
      match textOfUnits units with
      | .ok s => return .fresh (.str s)
      | .error e => fail (.raised e)
  | int32 => do
    let i ← nextSigned code
    return .fresh (.int i.toInt32.toInt64)
  | int64 => do
    let i ← nextSigned code
    return .fresh (.int i)
  | uint32 => do
    -- Thirty-two bits never reach the sign of the 64-bit form.
    let u ← nextUnsigned code
    return .fresh (.int u.toUInt32.toUInt64.toInt64)
  | uint64 => do
    let u ← nextUnsigned code
    return .fresh (.ofUInt64 u)
  | byte => do
    let i ← nextSigned code
    return .fresh (.bytes [i.toUInt64.toUInt8])
  | codePoint => do
    let i ← nextSigned code
    -- A negative number must not wrap into the range of the characters.
    match if 0 ≤ i then charOf? i.toInt.toNat else none with
    | some c => return .fresh (.str c.toString)
    | none => fail (.raised .characterRange)
  | float => do
    match ← next code with
    | .float x => return .fresh (.float x)
    | arg => reject arg code
  | borrowed => do
    match ← next code with
    | .borrowed (some r) => return .retained r
    | .borrowed none => return .null
    | arg => reject arg code
  | stolen => do
    match ← next code with
    | .stolen (some r) => return .taken r
    | .stolen none => return .null
    | arg => reject arg code
  | converted => do
    match ← next code with
    | .convert (some action) => return .converted action
    | .convert none => return .null
    | arg => reject arg code

end Scalar

end NativeCall
