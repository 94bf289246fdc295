import NativeCall.Proofs.Format.Grammar

/-!
# Scanning characters

The grammar speaks of characters and reading a format string of tokens. What connects them is that a
suffix joins exactly the codes that it may follow, and that no item starts with a suffix
(`NoSuffix`). So a text of items falls into the same tokens whatever items stand behind it, and
reading can be described character by character: `scanFrom`.

Once reading has stopped at a character it has stopped for good, also where the next character might
have joined it: `scanFrom_append_of_error`.

Going from tokens to characters has one catch. A text that ends in a code can become a text that
ends in a code with a suffix, by putting one character behind it, and then its last token is another
one. Where reading succeeds this is excluded by asking that the text behind does not begin with a
suffix. Where reading fails at the last character it need not be excluded: a code that can take a
suffix is a scalar without it, and a scalar is never refused (`addToken_of_joins`). So the character
at which reading stops is none of these, and its token is the same in every longer text.
-/

namespace NativeCall.Format

open Token

/-! ## What a token stands for -/

lemma meaning_of_spells {c : Char} {suffix : List Char} {s : Scalar} (h : Spells c suffix s) :
    (⟨c, !suffix.isEmpty⟩ : Token).meaning = .directive (.scalar s) := by
  cases h with
  | text hc | sizedText hc | int32 hc | int64 hc | uint32 hc | uint64 hc | float hc | borrowed hc =>
    simp only [List.mem_cons, List.not_mem_nil, or_false] at hc
    rcases hc with rfl | rfl | rfl <;> rfl
  | _ => rfl

/-- Every character is a scalar, opens or closes a group, separates items or means nothing. -/
lemma meaning_cases (c : Char) :
    (∃ s, Spells c [] s ∧ (⟨c, false⟩ : Token).meaning = .directive (.scalar s)) ∨
    (∃ kind, c = kind.opener ∧ (⟨c, false⟩ : Token).meaning = .directive (.opening kind)) ∨
    (∃ kind, c = kind.closer ∧ (⟨c, false⟩ : Token).meaning = .directive (.closing kind)) ∨
    (c ∈ separators ∧ (⟨c, false⟩ : Token).meaning = .separator) ∨
    (c ∉ separators ∧ (∀ kind, c ≠ GroupKind.closer kind) ∧
      (⟨c, false⟩ : Token).meaning = .unknown) := by
  simp only [Token.meaning, Token.meaning.scalar]
  split
  any_goals exact .inl ⟨_, by constructor <;> decide, rfl⟩
  · exact .inr (.inl ⟨.tuple, rfl, rfl⟩)
  · exact .inr (.inl ⟨.list, rfl, rfl⟩)
  · exact .inr (.inl ⟨.dict, rfl, rfl⟩)
  · exact .inr (.inr (.inl ⟨.tuple, rfl, rfl⟩))
  · exact .inr (.inr (.inl ⟨.list, rfl, rfl⟩))
  · exact .inr (.inr (.inl ⟨.dict, rfl, rfl⟩))
  · exact .inr (.inr (.inr (.inl ⟨by decide, rfl⟩)))
  · exact .inr (.inr (.inr (.inl ⟨by decide, rfl⟩)))
  · exact .inr (.inr (.inr (.inl ⟨by decide, rfl⟩)))
  · refine .inr (.inr (.inr (.inr ⟨?_, ?_, rfl⟩)))
    · simp only [separators, List.mem_cons, List.not_mem_nil, or_false, not_or]
      exact ⟨‹_›, ‹_›, ‹_›⟩
    · intro kind
      cases kind <;> assumption

lemma meaning_opener (kind : GroupKind) :
    (⟨kind.opener, false⟩ : Token).meaning = .directive (.opening kind) := by
  cases kind <;> rfl

lemma meaning_closer (kind : GroupKind) :
    (⟨kind.closer, false⟩ : Token).meaning = .directive (.closing kind) := by
  cases kind <;> rfl

lemma meaning_separator {c : Char} (hc : c ∈ separators) :
    (⟨c, false⟩ : Token).meaning = .separator := by
  simp only [separators, List.mem_cons, List.not_mem_nil, or_false] at hc
  rcases hc with rfl | rfl | rfl <;> rfl

/-- A suffix is one of two characters, and neither of them starts an item. -/
def suffixes : List Char := ['#', '&']

/-- The text does not go on with a suffix. -/
def NoSuffix (cs : List Char) : Prop :=
  ∀ c ∈ cs.head?, c ∉ suffixes

lemma mem_suffixes_of_joins {c d : Char} (h : joins c d = true) : d ∈ suffixes := by
  simp only [joins, Bool.or_eq_true, Bool.and_eq_true, decide_eq_true_eq] at h
  rcases h with ⟨-, rfl⟩ | ⟨-, rfl⟩ <;> decide

/-- A code and the suffix that joins it spell a scalar. -/
lemma spells_of_joins {c d : Char} (h : joins c d = true) : ∃ s, Spells c [d] s := by
  simp only [joins, takesLength, Bool.or_eq_true, Bool.and_eq_true, decide_eq_true_eq] at h
  rcases h with ⟨(((rfl | rfl) | rfl) | rfl) | rfl, rfl⟩ | ⟨rfl, rfl⟩
  · exact ⟨_, .sizedText (by decide)⟩
  · exact ⟨_, .sizedText (by decide)⟩
  · exact ⟨_, .sizedText (by decide)⟩
  · exact ⟨_, .sizedBytes⟩
  · exact ⟨_, .sizedWide⟩
  · exact ⟨_, .converted⟩

/-- A suffix has one character and joins its code. -/
lemma joins_of_spells {c : Char} {suffix : List Char} {s : Scalar} (h : Spells c suffix s) :
    suffix = [] ∨ ∃ d, suffix = [d] ∧ joins c d = true := by
  cases h with
  | sizedText hc =>
    simp only [List.mem_cons, List.not_mem_nil, or_false] at hc
    exact .inr ⟨'#', rfl, by rcases hc with rfl | rfl | rfl <;> rfl⟩
  | sizedBytes => exact .inr ⟨'#', rfl, rfl⟩
  | sizedWide => exact .inr ⟨'#', rfl, rfl⟩
  | converted => exact .inr ⟨'&', rfl, rfl⟩
  | _ => exact .inl rfl

lemma not_mem_suffixes_of_spells {c : Char} {suffix : List Char} {s : Scalar}
    (h : Spells c suffix s) : c ∉ suffixes := by
  cases h with
  | text hc | sizedText hc | int32 hc | int64 hc | uint32 hc | uint64 hc | float hc | borrowed hc =>
    simp only [List.mem_cons, List.not_mem_nil, or_false] at hc
    rcases hc with rfl | rfl | rfl <;> decide
  | _ => decide

/-- Items never start with a suffix. -/
lemma Items.noSuffix_append {inside : Bool} {cs rest : List Char} {ts : List Tree}
    (h : Items inside cs ts) (hr : NoSuffix rest) : NoSuffix (cs ++ rest) := by
  cases h with
  | nil => exact hr
  | @separator c cs ts hc h =>
    intro d hd
    obtain rfl : c = d := by simpa using hd
    simp only [separators, List.mem_cons, List.not_mem_nil, or_false] at hc
    rcases hc with rfl | rfl | rfl <;> decide
  | @scalar _ c suffix cs s ts hs h =>
    intro d hd
    obtain rfl : c = d := by simpa using hd
    exact not_mem_suffixes_of_spells hs
  | @group _ kind body cs items ts hb he h =>
    intro d hd
    obtain rfl : kind.opener = d := by simpa using hd
    cases kind <;> decide

lemma noSuffix_closer (kind : GroupKind) (cs : List Char) : NoSuffix (kind.closer :: cs) := by
  intro d hd
  obtain rfl : kind.closer = d := by simpa using hd
  cases kind <;> decide

/-! ## Scanning characters -/

/-- Takes in the tokens of a text. -/
def scanFrom (s : Scan) (cs : List Char) : Except FormatError Scan :=
  (Token.ofChars cs).foldlM Scan.addToken s

@[simp] lemma scanFrom_nil (s : Scan) : scanFrom s [] = .ok s := by
  rw [scanFrom, ofChars, List.foldlM_nil]
  rfl

lemma scanFrom_joined (s : Scan) {c d : Char} (cs : List Char) (h : joins c d = true) :
    scanFrom s (c :: d :: cs) = s.addToken ⟨c, true⟩ >>= (scanFrom · cs) := by
  rw [scanFrom, ofChars, if_pos h, List.foldlM_cons]
  rfl

lemma scanFrom_cons (s : Scan) {c : Char} {cs : List Char}
    (h : ∀ d ∈ cs.head?, joins c d = false) :
    scanFrom s (c :: cs) = s.addToken ⟨c, false⟩ >>= (scanFrom · cs) := by
  cases cs with
  | nil =>
    rw [scanFrom, ofChars, List.foldlM_cons]
    rfl
  | cons d cs =>
    rw [scanFrom, ofChars, if_neg (by simp [h d (by simp)]), List.foldlM_cons]
    rfl

lemma not_joins_of_noSuffix {cs : List Char} (h : NoSuffix cs) (c : Char) :
    ∀ d ∈ cs.head?, joins c d = false := by
  intro d hd
  by_contra hj
  exact h d hd (mem_suffixes_of_joins (by simpa using hj))

lemma addToken_of_meaning {s : Scan} {t : Token} {d : Directive} (h : t.meaning = .directive d) :
    s.addToken t = s.addDirective t.code d := by
  simp only [Scan.addToken, h]

/-- A suffixed token is always taken in. -/
lemma addToken_suffixed (s : Scan) {c d : Char} (h : joins c d = true) :
    ∃ s', s.addToken ⟨c, true⟩ = .ok s' := by
  obtain ⟨x, hx⟩ := spells_of_joins h
  rw [addToken_of_meaning (t := ⟨c, true⟩) (meaning_of_spells hx)]
  exact ⟨_, rfl⟩

/-- A code that could take a suffix is taken in without one, too. -/
lemma addToken_of_joins (s : Scan) {c d : Char} (h : joins c d = true) :
    ∃ s', s.addToken ⟨c, false⟩ = .ok s' := by
  have hm : ∃ x, (⟨c, false⟩ : Token).meaning = .directive (.scalar x) := by
    simp only [joins, takesLength, Bool.or_eq_true, Bool.and_eq_true, decide_eq_true_eq] at h
    rcases h with ⟨(((rfl | rfl) | rfl) | rfl) | rfl, -⟩ | ⟨rfl, -⟩ <;> exact ⟨_, rfl⟩
  obtain ⟨x, hx⟩ := hm
  rw [addToken_of_meaning (t := ⟨c, false⟩) hx]
  exact ⟨_, rfl⟩

/-- Once scanning is stuck, it does not matter what comes behind. -/
lemma scanFrom_append_of_error {s : Scan} {cs : List Char} {e : FormatError}
    (h : scanFrom s cs = .error e) (ds : List Char) : scanFrom s (cs ++ ds) = .error e := by
  induction cs using Token.ofChars.induct generalizing s with
  | case1 => simp at h
  -- The last character is the one that is refused. A character behind it that joined it would make
  -- it a code, and no code is refused.
  | case2 c =>
    rw [scanFrom_cons s (by simp)] at h
    cases hc : s.addToken ⟨c, false⟩ with
    | ok s' =>
      rw [hc] at h
      simp [bind, Except.bind] at h
    | error e' =>
      have hj : ∀ d ∈ ds.head?, joins c d = false := by
        intro d hd
        by_contra hj
        obtain ⟨s', hs'⟩ := addToken_of_joins s (c := c) (d := d) (by simpa using hj)
        rw [hs'] at hc
        cases hc
      rw [hc] at h
      rw [List.cons_append, List.nil_append, scanFrom_cons s hj, hc]
      exact h
  | case3 c d rest hj ih =>
    rw [scanFrom_joined s _ hj] at h
    rw [List.cons_append, List.cons_append, scanFrom_joined s _ hj]
    obtain ⟨s', hs'⟩ := addToken_suffixed s hj
    rw [hs'] at h ⊢
    exact ih h
  | case4 c d rest hj ih =>
    have hj' : ∀ x ∈ (d :: rest).head?, joins c x = false := by simpa using hj
    have hj'' : ∀ x ∈ (d :: (rest ++ ds)).head?, joins c x = false := by simpa using hj
    rw [scanFrom_cons s hj'] at h
    rw [List.cons_append, List.cons_append, scanFrom_cons s hj'']
    cases hc : s.addToken ⟨c, false⟩ with
    | ok s' =>
      rw [hc] at h
      exact ih h
    | error e' =>
      rw [hc] at h
      exact h

end NativeCall.Format
