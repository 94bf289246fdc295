import NativeCall.Proofs.Build.Integers
import NativeCall.Proofs.Heap.Outlines
import NativeCall.Proofs.Number.Points

/-!
# Texts of numbers on a heap

A number holds no other objects, so its text is its own, as long as the depth budget has a level
left for it (`repr_of_childless`). A floating-point number and an integer have different texts
unless the budget is used up, where both are dots, or the floating-point number is a whole number
from `10 ^ 16` on and the integer is the one whose digits it shows
(`repr_float_ne_repr_integer_iff`).
-/

namespace NativeCall.Heap

variable {h : Heap} {a b r : Ref} {o : Object} {x : Binary64} {i : Int}

/-- **The text of a number shows its type,** but for large whole numbers: the texts of a
floating-point number and of an integer differ just if the depth budget has a level left and the
floating-point number is none of the whole numbers from `10 ^ 16` on that are written with the
digits of the integer. -/
theorem repr_float_ne_repr_integer_iff (ha : h.object? a = some (.float x))
    (hb : h.object? b = some o) (hi : o.integer? = some i) :
    ∃ s t, repr a h = .ok s h ∧ repr b h = .ok t h ∧
      (s ≠ t ↔ h.levels ≠ 0 ∧ x.bareInteger? ≠ some i) := by
  have htext : o.textWith [] = toString i ∧ o.children = [] := by
    cases o with
    | int j | bigInt j =>
      obtain rfl := Option.some.inj hi
      exact ⟨rfl, rfl⟩
    | _ => cases hi
  obtain ⟨hinteger, hnone⟩ := htext
  refine ⟨_, _, repr_of_childless ha rfl, repr_of_childless hb hnone, ?_⟩
  rw [hinteger]
  by_cases hlevels : h.levels = 0
  · simp [hlevels]
  · simp only [hlevels, if_false, ne_eq, not_false_eq_true, true_and, Object.textWith,
      Binary64.text_eq_toString_iff]

/-- The texts of the floating-point number one and of the integer one. -/
theorem repr_float_ne_repr_integer_iff_one : ∃ h : Heap, h.levels = maxLevels ∧
    h.object? ⟨4⟩ = some (.float ⟨0x3FF0000000000000⟩) ∧ h.object? ⟨5⟩ = some (.int 1) ∧
    ∃ s t, repr ⟨4⟩ h = .ok s h ∧ repr ⟨5⟩ h = .ok t h ∧ s ≠ t := by
  let h := freshWith .unlimited
    [⟨1, false, .float ⟨0x3FF0000000000000⟩⟩, ⟨1, false, .int 1⟩]
  have hfloat : h.object? ⟨4⟩ = some (.float ⟨0x3FF0000000000000⟩) := rfl
  have hint : h.object? ⟨5⟩ = some (.int 1) := rfl
  obtain ⟨s, t, hs, ht, hne⟩ :=
    repr_float_ne_repr_integer_iff (h := h) (i := 1) hfloat hint rfl
  exact ⟨h, rfl, hfloat, hint, s, t, hs, ht, hne.mpr ⟨by decide, by decide⟩⟩

/-- The floating-point number `10 ^ 16` and the integer `10 ^ 16` have the same text. -/
theorem repr_float_eq_repr_integer : ∃ h : Heap, h.levels = maxLevels ∧
    h.object? ⟨4⟩ = some (.float ⟨0x4341C37937E08000⟩) ∧
    h.object? ⟨5⟩ = some (.int 10000000000000000) ∧
    repr ⟨4⟩ h = .ok "10000000000000000" h ∧ repr ⟨5⟩ h = .ok "10000000000000000" h := by
  let h := freshWith .unlimited
    [⟨1, false, .float ⟨0x4341C37937E08000⟩⟩, ⟨1, false, .int 10000000000000000⟩]
  exact ⟨h, rfl, rfl, rfl, rfl, rfl⟩

end NativeCall.Heap
