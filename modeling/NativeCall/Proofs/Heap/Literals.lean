import NativeCall.Proofs.Heap.ExactCounts
import NativeCall.Proofs.Heap.Outlines
import NativeCall.Proofs.Text.Literals

/-!
# Texts of strings and bytes

The text of a string or of bytes is a literal, and what it stands for is read back off it. So
objects with different contents have different texts, and a string never has the text of bytes. One
thing may come in between, the depth budget: where it is used up, three dots stand for an object,
whatever it is (`repr_str_eq_of_no_level`).

What the literals are and how one is read is in `Proofs.Text.Literals`, which knows of no heap. Here
the two ends are joined: an object without parts is rendered in one level, and the text that is
rendered is the literal of its content (`repr_of_literal?`). Strings and bytes are treated as one
type of contents, since what has to be told apart is not only one string from another but a string
from bytes that spell the same characters.
-/

namespace NativeCall

open Quoted (Literal literal bytesLiteral read? isQuote isControl IsVisible Guarded opensEscape)

/-- What the text of a string or of bytes stands for. -/
def Object.literal? : Object → Option Literal
  | str s => some (.text s)
  | bytes bs => some (.bytes bs)
  | _ => Option.none

namespace Heap

variable {h : Heap} {a b r : Ref} {o : Object} {l m : Literal}

/-- Strings and bytes are written as literals, if there is a level left. -/
lemma repr_of_literal? (hl : (h.object? r).bind Object.literal? = some l) :
    repr r h = .ok (if h.levels = 0 then elided else l.written) h := by
  obtain ⟨o, ho, hl⟩ := Option.bind_eq_some_iff.mp hl
  cases o with
  | str s =>
    obtain rfl := Option.some.inj hl
    exact repr_of_childless ho rfl
  | bytes bs =>
    obtain rfl := Option.some.inj hl
    exact repr_of_childless ho rfl
  | _ => cases hl

/-- **Literals are lossless.** One reader reads the literal of every string as that string and the
literal of all bytes as these bytes. The literal of a string is a quoted text without control
characters in which its quote stands only in escapes, and the literal of bytes is visible ASCII.

So as long as the depth budget has a level left, the texts of strings and bytes on a heap are read
as what is in them, and two are equal just if their contents are. Without a level both are dots. -/
theorem literals_lossless :
    (∀ s, read? (literal s) = some (.text s)) ∧
    (∀ bs, read? (bytesLiteral bs) = some (.bytes bs)) ∧
    (∀ s, (∀ c ∈ (literal s).toList, isControl c = false) ∧
      ∃ quote body, isQuote quote ∧ (literal s).toList = quote :: (body ++ [quote]) ∧
        Guarded quote body ∧ opensEscape body = false) ∧
    (∀ bs, ∀ c ∈ (bytesLiteral bs).toList, IsVisible c) ∧
    ∀ (h : Heap) (a b : Ref) (l m : Literal),
      (h.object? a).bind Object.literal? = some l → (h.object? b).bind Object.literal? = some m →
      ∃ x y, repr a h = .ok x h ∧ repr b h = .ok y h ∧
        (h.levels ≠ 0 → read? x = some l ∧ read? y = some m ∧ (x = y ↔ l = m)) ∧
        (h.levels = 0 → x = elided ∧ y = elided) := by
  refine ⟨Quoted.read?_literal, Quoted.read?_bytesLiteral,
    fun s => ⟨fun c => Quoted.isControl_of_mem_literal, Quoted.exists_body_of_literal s⟩,
    fun bs c => Quoted.isVisible_of_mem_bytesLiteral, fun h a b l m hl hm => ?_⟩
  refine ⟨_, _, repr_of_literal? hl, repr_of_literal? hm, fun hlevels => ?_, fun hlevels => ?_⟩
  · rw [if_neg hlevels, if_neg hlevels]
    exact ⟨Quoted.read?_written l, Quoted.read?_written m, Quoted.written_inj⟩
  · rw [if_pos hlevels, if_pos hlevels]
    exact ⟨rfl, rfl⟩

/-- A string with both quotes and a character that is written by number, and bytes that spell the
same literal but for its first character. -/
theorem literals_lossless_mixed : ∃ h : Heap, h.levels = maxLevels ∧
    h.object? ⟨4⟩ = some (.str "it's \"\x7f\"") ∧
    h.object? ⟨5⟩ = some (.bytes [0x69, 0x74, 0x27, 0x73, 0x20, 0x22, 0x7F, 0x22]) ∧
    ∃ x y, repr ⟨4⟩ h = .ok x h ∧ repr ⟨5⟩ h = .ok y h ∧ x ≠ y ∧
      read? x = some (.text "it's \"\x7f\"") := by
  let h := freshWith .unlimited [⟨1, false, .str "it's \"\x7f\""⟩,
    ⟨1, false, .bytes [0x69, 0x74, 0x27, 0x73, 0x20, 0x22, 0x7F, 0x22]⟩]
  obtain ⟨-, -, -, -, hobjects⟩ := literals_lossless
  obtain ⟨x, y, hx, hy, hlevel, -⟩ := hobjects h ⟨4⟩ ⟨5⟩ _ _ rfl rfl
  obtain ⟨hread, -, hiff⟩ := hlevel (by decide)
  exact ⟨h, rfl, rfl, rfl, x, y, hx, hy, (fun heq => nomatch hiff.mp heq), hread⟩

/-- When all levels are entered, the strings `a` and `b` have the same text. -/
theorem repr_str_eq_of_no_level : ∃ h a b s t,
    (do
      let _ ← (enterLevels maxLevels : HeapM Nat)
      let a ← newStr "a"
      let b ← newStr "b"
      return (a, b) : RunM (Ref × Ref)) (fresh .unlimited) = .ok (.ok (a, b)) h ∧
    h.object? a = some (.str s) ∧ h.object? b = some (.str t) ∧ s ≠ t ∧
    ∃ text, repr a h = .ok text h ∧ repr b h = .ok text h :=
  ⟨_, _, _, _, _, rfl, rfl, rfl, by decide, _, rfl, rfl⟩

end Heap

end NativeCall
