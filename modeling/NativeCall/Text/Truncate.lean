/-!
# Cutting and padding

Diagnostics quote names up to a number of characters, and log lines align their second column.
Both count characters, not bytes.
-/

namespace NativeCall.Text

/-- The first `n` characters of `s`. -/
def truncate (n : Nat) (s : String) : String :=
  String.ofList (s.toList.take n)

/-- `s` followed by as many blanks as bring it to `n` characters. -/
def padRight (n : Nat) (s : String) : String :=
  s ++ String.ofList (List.replicate (n - s.length) ' ')

theorem truncate_of_length_le {n : Nat} {s : String} (h : s.length ≤ n) : truncate n s = s := by
  rw [truncate, List.take_of_length_le (by rwa [String.length_toList]), String.ofList_toList]

theorem length_padRight (n : Nat) (s : String) : (padRight n s).length = max n s.length := by
  simp [padRight]; omega

end NativeCall.Text
