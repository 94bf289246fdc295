/-!
# References

A reference names a slot of a heap. In the calling convention of native code a reference travels as
one machine word, and the word 0 means that there is no object; so the word of slot `i` is `i + 1`.
-/

namespace NativeCall

/-- A reference to the object in one slot of a heap. -/
structure Ref where
  index : Nat
  deriving DecidableEq, Repr

/-- What native code holds in one machine word: a reference, or null. -/
abbrev Word := Option Ref

namespace Word

def ofBits : Nat → Word
  | 0 => none
  | n + 1 => some ⟨n⟩

def toBits : Word → Nat
  | none => 0
  | some r => r.index + 1

@[simp] theorem toBits_ofBits (n : Nat) : (ofBits n).toBits = n := by
  cases n <;> rfl

@[simp] theorem ofBits_toBits (w : Word) : ofBits w.toBits = w := by
  cases w <;> rfl

end Word

end NativeCall
