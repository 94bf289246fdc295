import NativeCall.Format.Directive

/-!
# Formats

A `Format` is a format string that was read and found well formed. Reading goes over the tokens
once, from left to right, and keeps for every open group the number of its items so far; it stops at
the first token that no well-formed format could continue with.

* A separator stands inside a group.
* A closing character closes the group that was opened last.
* A dict group closes after an even number of items.
* Every group that was opened is closed in the end.

A group counts as one item of the group around it, and it is counted when it closes. The counts of
arguments and of items outside all groups come out of the same pass. They are what a format promises
its callers before anything is built: nothing that happens in a build changes how many arguments it
takes.
-/

namespace NativeCall

/-- Why a format string is not well formed. -/
inductive FormatError where
  /-- The character is no directive where it stands. -/
  | badChar (c : Char)
  | separatorOutsideGroup
  | oddDictItems
  /-- A group is closed that is not the one opened last. -/
  | unopened (kind : GroupKind)
  /-- A group is never closed. -/
  | unclosed
  deriving DecidableEq, Repr

def FormatError.message : FormatError → String
  | badChar _ => "bad format char passed to Py_BuildValue"
  | separatorOutsideGroup => "':' without '\x7b' in Py_BuildValue"
  | oddDictItems => "odd number of items in '\x7b...\x7d' group in Py_BuildValue"
  | unopened kind =>
    "'" ++ kind.closer.toString ++ "' without '" ++ kind.opener.toString ++ "' in Py_BuildValue"
  | unclosed => "dangling group in Py_BuildValue"

/-- A directive with the character that it is written by. -/
structure Step where
  code : Char
  directive : Directive
  deriving DecidableEq, Repr

/-- A well-formed format string. -/
structure Format where
  source : String
  steps : List Step
  /-- How many arguments the format takes. -/
  argCount : Nat
  /-- How many items there are outside all groups. -/
  itemCount : Nat
  deriving DecidableEq, Repr

namespace Format

/-- What is known of a format while it is read. -/
structure Scan where
  /-- The steps so far, the last one in front. -/
  reversed : List Step := []
  argCount : Nat := 0
  /-- The items outside all groups. -/
  itemCount : Nat := 0
  /-- The open groups and the number of their items, the innermost in front. -/
  groups : List (GroupKind × Nat) := []
  deriving DecidableEq, Repr

namespace Scan

/-- Counts an item for the group that it stands in. -/
def addItem (s : Scan) : Scan :=
  match s.groups with
  | [] => { s with itemCount := s.itemCount + 1 }
  | (kind, n) :: outer => { s with groups := (kind, n + 1) :: outer }

def addDirective (s : Scan) (code : Char) (d : Directive) : Except FormatError Scan :=
  let s := { s with reversed := ⟨code, d⟩ :: s.reversed }
  match d with
  | .scalar x => .ok { s with argCount := s.argCount + x.argCount }.addItem
  | .opening kind => .ok { s with groups := (kind, 0) :: s.groups }
  | .closing kind =>
    match s.groups with
    -- The kind is compared first, so a wrong bracket is reported even where the dict around it is
    -- odd.
    | (innermost, n) :: outer =>
      if innermost ≠ kind then .error (.unopened kind)
      else if kind = .dict ∧ n % 2 ≠ 0 then .error .oddDictItems
      else .ok { s with groups := outer }.addItem
    | [] => .error (.unopened kind)

def addToken (s : Scan) (t : Token) : Except FormatError Scan :=
  match t.meaning with
  | .directive d => s.addDirective t.code d
  | .separator => if s.groups.isEmpty then .error .separatorOutsideGroup else .ok s
  | .unknown => .error (.badChar t.code)

def finish (s : Scan) (source : String) : Except FormatError Format :=
  if s.groups.isEmpty then .ok ⟨source, s.reversed.reverse, s.argCount, s.itemCount⟩
  else .error .unclosed

end Scan

def compile (source : String) : Except FormatError Format := do
  let scan ← (Token.ofChars source.toList).foldlM Scan.addToken {}
  scan.finish source

def directives (f : Format) : List Directive :=
  f.steps.map (·.directive)

/-- The text of a format never changes by reading it. -/
theorem source_of_compile {source : String} {f : Format} (h : compile source = .ok f) :
    f.source = source := by
  unfold compile at h
  cases hs : (Token.ofChars source.toList).foldlM Scan.addToken {} with
  | error e => simp [hs, bind, Except.bind] at h
  | ok s =>
    simp only [hs, bind, Except.bind, Scan.finish] at h
    split at h
    · cases h; rfl
    · cases h

end Format

end NativeCall
