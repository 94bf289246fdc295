import Mathlib
import NativeCall.Text.Quoted

/-!
# Literals are read back

`read?` is a reader of literals, one for strings and bytes. Between the quotes it knows three
things: a backslash with one character, a backslash with an `x` and two digits, and a character that
stands for itself. The quote ends the literal unless it comes behind a backslash.

Every character of a literal is written in one of these three ways (`Spells`), and only there are
the escapes gone through one by one (`spells_escape`, `spells_escapeByte`). The rest is about
spellings. What is spelled is read back whatever stands behind it (`readBody?_spelled`), so an
escape cannot run into the text that follows; that is where the two digits count, since a number
written with as many digits as it needs would take in the next one. No spelling ends inside an
escape (`not_opensEscape_spelled`), so whether a quote is part of one can be seen from its own
spelling (`guarded_spelled`).

The reader is not part of the program, which writes literals and never reads one. It is here because
"lossless" means that there is a reader, and one that is written down can be looked at. It knows
nothing of how the writer chooses: it takes either quote, it takes an escape where the writer would
have written the character itself, and the same function reads strings and bytes, told apart by the
letter in front. So that two literals are different whenever their contents are follows at once
(`written_inj`), across the two types as well.
-/

namespace NativeCall.Quoted

/-! ## A reader of literals -/

/-- What a literal stands for. -/
inductive Literal where
  | text (s : String)
  | bytes (bs : List UInt8)
  deriving DecidableEq, Repr

/-- The quotes that a literal may have. -/
def isQuote (c : Char) : Bool :=
  c = '\'' || c = '"'

lemma isQuote_iff {c : Char} : isQuote c = true ↔ c = '\'' ∨ c = '"' := by
  simp [isQuote]

/-- What a character behind a backslash stands for. -/
def unescape? (c : Char) : Option Char :=
  if c = '\\' ∨ c = '\'' ∨ c = '"' then some c
  else if c = 'n' then some '\n'
  else if c = 'r' then some '\r'
  else if c = 't' then some '\t'
  else none

/-- Reads what stands behind an opening quote. The closing quote has to be at the end. -/
def readBody? (quote : Char) : List Char → Option (List Char)
  | '\\' :: 'x' :: high :: low :: rest => do
    let h ← Text.digitValue? high
    let l ← Text.digitValue? low
    let cs ← readBody? quote rest
    some (Char.ofNat (16 * h + l) :: cs)
  | '\\' :: c :: rest => do
    let d ← unescape? c
    let cs ← readBody? quote rest
    some (d :: cs)
  | c :: rest =>
    if c = quote then if rest = [] then some [] else none
    else if c = '\\' then none
    else do
      let cs ← readBody? quote rest
      some (c :: cs)
  | [] => none

/-- Reads a text between quotes. -/
def readQuoted? : List Char → Option (List Char)
  | quote :: rest => if isQuote quote then readBody? quote rest else none
  | [] => none

/-- Reads the characters of a literal. One of bytes is ASCII only, and starts with a `b`. -/
def readChars? : List Char → Option Literal
  | 'b' :: cs =>
    if cs.all (fun c => c.toNat < 0x80) then
      (readQuoted? cs).map (fun ds => .bytes (ds.map (fun d => UInt8.ofNat d.toNat)))
    else none
  | cs => (readQuoted? cs).map (fun ds => .text (String.ofList ds))

/-- Reads a literal. -/
def read? (source : String) : Option Literal :=
  readChars? source.toList

/-! ## Escapes and quotes -/

/-- The last character is a backslash that makes an escape of the character behind it. -/
def opensEscape (cs : List Char) : Bool :=
  cs.foldl (fun opened c => c == '\\' && !opened) false

/-- Wherever the quote stands, it is part of an escape. -/
def Guarded (quote : Char) (cs : List Char) : Prop :=
  ∀ before rest, cs = before ++ quote :: rest → opensEscape before = true

section Guarded

variable {quote : Char} {cs ds : List Char}

lemma opensEscape_append (hcs : opensEscape cs = false) :
    opensEscape (cs ++ ds) = opensEscape ds := by
  unfold opensEscape at hcs ⊢
  rw [List.foldl_append, hcs]

lemma guarded_nil : Guarded quote [] := by
  intro before rest h
  exact absurd h.symm (List.append_ne_nil_of_right_ne_nil _ (List.cons_ne_nil _ _))

/-- A quote in one of two texts stays guarded if no escape is open between them. -/
lemma Guarded.append (hcs : Guarded quote cs) (hopen : opensEscape cs = false)
    (hds : Guarded quote ds) : Guarded quote (cs ++ ds) := by
  intro before rest h
  rcases List.append_eq_append_iff.mp h with ⟨mid, rfl, hmid⟩ | ⟨mid, rfl, hmid⟩
  · rw [opensEscape_append hopen]
    exact hds mid rest hmid
  · cases mid with
    | nil => exact absurd (hds [] rest hmid.symm) Bool.false_ne_true
    | cons q mid =>
      obtain rfl := (List.cons.inj hmid).1
      exact hcs before mid rfl

end Guarded

/-! ## Spellings -/

/-- The ways to write `c` between quotes; `plain` says which characters may stand for themselves. -/
inductive Spells (quote : Char) (plain : Char → Prop) (c : Char) : List Char → Prop where
  | itself (hplain : plain c) (hquote : c ≠ quote) (hbackslash : c ≠ '\\') : Spells quote plain c [c]
  | mark {d : Char} (hd : unescape? d = some c) : Spells quote plain c ['\\', d]
  | number (hc : c.toNat < 0x100) : Spells quote plain c ('\\' :: 'x' :: Text.hexPair c.toNat)

/-- Characters of ASCII that show. -/
def IsVisible (c : Char) : Prop :=
  0x20 ≤ c.toNat ∧ c.toNat < 0x7F

instance (c : Char) : Decidable (IsVisible c) :=
  inferInstanceAs (Decidable (_ ∧ _))

section Spells

variable {quote c d : Char} {plain : Char → Prop} {w : List Char} {n : Nat}

/-- What stands behind a backslash shows, and is no `x`. -/
lemma unescape?_spec (hd : unescape? d = some c) : IsVisible d ∧ d ≠ 'x' := by
  unfold unescape? at hd
  split_ifs at hd with hself hfeed hreturn htab
  · rcases hself with rfl | rfl | rfl <;> decide
  · subst hfeed
    decide
  · subst hreturn
    decide
  · subst htab
    decide

/-- The digits of a byte can be read, and are neither quotes nor a backslash. -/
lemma hexPair_spec (hn : n < 0x100) : ∃ high low, Text.hexPair n = [high, low] ∧
    Text.digitValue? high = some (n / 16) ∧ Text.digitValue? low = some (n % 16) ∧
      ∀ c ∈ [high, low], IsVisible c ∧ c ≠ '\\' ∧ ¬ isQuote c := by
  have hdigit : ∀ k < 16, Text.digitValue? (Nat.digitChar k) = some k ∧
      IsVisible (Nat.digitChar k) ∧ Nat.digitChar k ≠ '\\' ∧ ¬ isQuote (Nat.digitChar k) := by
    decide
  obtain ⟨hhigh, hhigh'⟩ := hdigit (n / 16) (by omega)
  obtain ⟨hlow, hlow'⟩ := hdigit (n % 16) (by omega)
  refine ⟨_, _, ?_, hhigh, hlow, ?_⟩
  · rw [Text.hexPair, Nat.mod_eq_of_lt (by omega : n / 16 < 16)]
  · simp only [List.mem_cons, List.not_mem_nil, or_false]
    rintro c (rfl | rfl)
    · exact hhigh'
    · exact hlow'

/-- **Reading.** A character that is spelled is read, whatever stands behind it. -/
lemma readBody?_spelled (hw : Spells quote plain c w) (rest : List Char) :
    readBody? quote (w ++ rest) = (readBody? quote rest).map (c :: ·) := by
  cases hw with
  | itself hplain hquote hbackslash =>
    show readBody? quote (c :: rest) = _
    rw [readBody?, if_neg hquote, if_neg hbackslash]
    · cases readBody? quote rest <;> rfl
    · exact fun _ _ _ h => absurd h hbackslash
    · exact fun _ _ h => absurd h hbackslash
  | @mark d hd =>
    show readBody? quote ('\\' :: d :: rest) = _
    rw [readBody?, hd]
    · cases readBody? quote rest <;> rfl
    · exact fun _ _ _ h => absurd h (unescape?_spec hd).2
  | number hc =>
    obtain ⟨high, low, hpair, hhigh, hlow, -⟩ := hexPair_spec hc
    have hvalue : Char.ofNat (16 * (c.toNat / 16) + c.toNat % 16) = c := by
      rw [Nat.div_add_mod, Char.ofNat_toNat]
    show readBody? quote ('\\' :: 'x' :: Text.hexPair c.toNat ++ rest) = _
    rw [hpair]
    show readBody? quote ('\\' :: 'x' :: high :: low :: rest) = _
    rw [readBody?, hhigh, hlow]
    show (readBody? quote rest).bind _ = _
    rw [hvalue]
    cases readBody? quote rest <;> rfl

/-- A spelling does not end in the middle of an escape. -/
lemma not_opensEscape_spelled (hw : Spells quote plain c w) : opensEscape w = false := by
  cases hw with
  | itself hplain hquote hbackslash => simp [opensEscape, hbackslash]
  | mark hd => simp [opensEscape]
  | number hc =>
    obtain ⟨high, low, hpair, -, -, hdigits⟩ := hexPair_spec hc
    have hhigh : high ≠ '\\' := (hdigits high (by simp)).2.1
    have hlow : low ≠ '\\' := (hdigits low (by simp)).2.1
    simp [opensEscape, hpair, hhigh, hlow]

/-- A quote in a spelling is part of an escape. -/
lemma guarded_spelled (hquote : isQuote quote) (hw : Spells quote plain c w) : Guarded quote w := by
  have hbackslash : quote ≠ '\\' := by
    rintro rfl
    exact absurd hquote (by decide)
  intro before rest h
  cases hw with
  | itself hplain hc =>
    rcases before with - | ⟨b, before⟩
    · exact absurd (List.cons.inj h).1 hc
    · simp at h
  | mark hd =>
    rcases before with - | ⟨b, - | ⟨b', before⟩⟩
    · exact absurd (List.cons.inj h).1.symm hbackslash
    · obtain rfl := (List.cons.inj h).1
      rfl
    · simp at h
  | number hc =>
    obtain ⟨high, low, hpair, -, -, hdigits⟩ := hexPair_spec hc
    have hmem : quote ∈ ['\\', 'x', high, low] := by
      rw [← hpair, h]
      simp
    simp only [List.mem_cons, List.not_mem_nil, or_false] at hmem
    rcases hmem with rfl | rfl | rfl | rfl
    · exact absurd hquote (by decide)
    · exact absurd hquote (by decide)
    · exact absurd hquote (hdigits _ (by simp)).2.2
    · exact absurd hquote (hdigits _ (by simp)).2.2

/-- What may stand for itself is all that there is in a spelling, if this is so for visible ASCII.
-/
lemma plain_of_mem_spelled (hvisible : ∀ d, IsVisible d → plain d) (hw : Spells quote plain c w)
    (hd : d ∈ w) : plain d := by
  cases hw with
  | itself hplain =>
    obtain rfl := List.mem_singleton.mp hd
    exact hplain
  | mark he =>
    have hmem := List.mem_pair.mp hd
    rcases hmem with rfl | rfl
    · exact hvisible _ (by decide)
    · exact hvisible _ (unescape?_spec he).1
  | number hc =>
    obtain ⟨high, low, hpair, -, -, hdigits⟩ := hexPair_spec hc
    rw [hpair] at hd
    have hmem : d = '\\' ∨ d = 'x' ∨ d ∈ [high, low] := by simpa using hd
    rcases hmem with rfl | rfl | hdigit
    · exact hvisible _ (by decide)
    · exact hvisible _ (by decide)
    · exact hvisible _ (hdigits d hdigit).1

end Spells

/-! ## Bodies -/

section Bodies

variable {α : Type} {quote : Char} {plain : Char → Prop} {spell : α → List Char} {value : α → Char}

lemma readBody?_close (hquote : isQuote quote) : readBody? quote [quote] = some [] := by
  rcases isQuote_iff.mp hquote with rfl | rfl <;> rfl

/-- A run of spellings with the quote behind it is read. -/
lemma readBody?_flatMap (hquote : isQuote quote) (h : ∀ x, Spells quote plain (value x) (spell x))
    (xs : List α) : readBody? quote (xs.flatMap spell ++ [quote]) = some (xs.map value) := by
  induction xs with
  | nil => exact readBody?_close hquote
  | cons x xs ih =>
    rw [List.flatMap_cons, List.append_assoc, readBody?_spelled (h x), ih]
    rfl

/-- So it is between two quotes. -/
lemma readQuoted?_flatMap (hquote : isQuote quote)
    (h : ∀ x, Spells quote plain (value x) (spell x)) (xs : List α) :
    readQuoted? (quote :: (xs.flatMap spell ++ [quote])) = some (xs.map value) := by
  rw [readQuoted?, if_pos hquote, readBody?_flatMap hquote h]

lemma guarded_flatMap (hquote : isQuote quote) (h : ∀ x, Spells quote plain (value x) (spell x))
    (xs : List α) :
    Guarded quote (xs.flatMap spell) ∧ opensEscape (xs.flatMap spell) = false := by
  induction xs with
  | nil => exact ⟨guarded_nil, rfl⟩
  | cons x xs ih =>
    have hopen := not_opensEscape_spelled (h x)
    rw [List.flatMap_cons, opensEscape_append hopen]
    exact ⟨(guarded_spelled hquote (h x)).append hopen ih.1, ih.2⟩

lemma plain_of_mem_flatMap (hvisible : ∀ d, IsVisible d → plain d)
    (h : ∀ x, Spells quote plain (value x) (spell x)) {xs : List α} {d : Char}
    (hd : d ∈ xs.flatMap spell) : plain d := by
  obtain ⟨x, -, hd⟩ := List.mem_flatMap.mp hd
  exact plain_of_mem_spelled hvisible (h x) hd

end Bodies

/-! ## Literals -/

/-- Between quotes, a character of a string stands for itself only if it is no control character. -/
lemma spells_escape {quote : Char} (hquote : isQuote quote) (c : Char) :
    Spells quote (fun d => isControl d = false) c (escape quote c) := by
  -- The writer goes through the special characters first; what is left is a control character,
  -- which is below 256, or stands for itself.
  unfold escape
  split_ifs with hbackslash hfeed hreturn htab hself hcontrol
  · subst hbackslash
    exact .mark rfl
  · subst hfeed
    exact .mark rfl
  · subst hreturn
    exact .mark rfl
  · subst htab
    exact .mark rfl
  · subst hself
    exact .mark (if_pos (.inr (isQuote_iff.mp hquote)))
  · refine .number ?_
    simp only [isControl, Bool.or_eq_true, Bool.and_eq_true, decide_eq_true_eq] at hcontrol
    omega
  · exact .itself (eq_false_of_ne_true hcontrol) hself hbackslash

lemma toNat_ofNat_byte (b : UInt8) : (Char.ofNat b.toNat).toNat = b.toNat := by
  have hb := b.toNat_lt
  rw [Char.toNat_ofNat, if_pos (Or.inl (by omega))]

lemma ofNat_toNat_ofNat_byte (b : UInt8) : UInt8.ofNat (Char.ofNat b.toNat).toNat = b := by
  rw [toNat_ofNat_byte, UInt8.ofNat_toNat]

/-- Between quotes, a byte stands for itself only if it is visible ASCII. -/
lemma spells_escapeByte (b : UInt8) :
    Spells '\'' IsVisible (Char.ofNat b.toNat) (escapeByte b) := by
  unfold escapeByte
  split_ifs with hbackslash hself hfeed hreturn htab hvisible
  · subst hbackslash
    exact .mark rfl
  · subst hself
    exact .mark rfl
  · subst hfeed
    exact .mark rfl
  · subst hreturn
    exact .mark rfl
  · subst htab
    exact .mark rfl
  · have hchar : ∀ c, Char.ofNat b.toNat = c → b = UInt8.ofNat c.toNat := by
      rintro c rfl
      exact (ofNat_toNat_ofNat_byte b).symm
    refine .itself ?_ (fun h => hself (hchar _ h)) (fun h => hbackslash (hchar _ h))
    rwa [IsVisible, toNat_ofNat_byte]
  · have hb : (Char.ofNat b.toNat).toNat < 0x100 := by
      rw [toNat_ofNat_byte]
      exact b.toNat_lt
    have hnumber : Spells '\'' IsVisible _ _ := .number hb
    rwa [toNat_ofNat_byte] at hnumber

/-- The quote that is chosen for a string is one of the two. -/
lemma isQuote_quoteFor (cs : List Char) : isQuote (quoteFor cs) := by
  unfold quoteFor
  split_ifs <;> rfl

lemma toList_literal (s : String) : (literal s).toList =
    quoteFor s.toList :: (s.toList.flatMap (escape (quoteFor s.toList)) ++ [quoteFor s.toList]) := by
  rw [literal, String.toList_ofList]
  rfl

lemma toList_bytesLiteral (bs : List UInt8) :
    (bytesLiteral bs).toList = 'b' :: '\'' :: (bs.flatMap escapeByte ++ ['\'']) := by
  rw [bytesLiteral, String.toList_ofList]
  rfl

lemma isControl_eq_false_of_isVisible {c : Char} (hc : IsVisible c) : isControl c = false := by
  unfold IsVisible at hc
  simp only [isControl, Bool.or_eq_false_iff, Bool.and_eq_false_iff, decide_eq_false_iff_not]
  omega

/-- Nothing in the literal of a string is a control character. -/
lemma isControl_of_mem_literal {s : String} {c : Char} (hc : c ∈ (literal s).toList) :
    isControl c = false := by
  have hquote := isQuote_quoteFor s.toList
  rw [toList_literal] at hc
  simp only [List.mem_cons, List.mem_append, List.not_mem_nil, or_false] at hc
  rcases hc with hc | hc | hc
  · rcases isQuote_iff.mp (hc ▸ hquote) with rfl | rfl <;> rfl
  · exact plain_of_mem_flatMap (fun _ => isControl_eq_false_of_isVisible) (spells_escape hquote) hc
  · rcases isQuote_iff.mp (hc ▸ hquote) with rfl | rfl <;> rfl

/-- The quotes of the literal of a string enclose a text in which that quote stands only in escapes,
and the closing quote does not stand in one. -/
lemma exists_body_of_literal (s : String) : ∃ quote body, isQuote quote ∧
    (literal s).toList = quote :: (body ++ [quote]) ∧ Guarded quote body ∧
      opensEscape body = false := by
  have hquote := isQuote_quoteFor s.toList
  obtain ⟨hguarded, hopen⟩ := guarded_flatMap hquote (spells_escape hquote) s.toList
  exact ⟨_, _, hquote, toList_literal s, hguarded, hopen⟩

/-- The literal of bytes is visible ASCII. -/
lemma isVisible_of_mem_bytesLiteral {bs : List UInt8} {c : Char}
    (hc : c ∈ (bytesLiteral bs).toList) : IsVisible c := by
  rw [toList_bytesLiteral] at hc
  simp only [List.mem_cons, List.mem_append, List.not_mem_nil, or_false] at hc
  rcases hc with rfl | rfl | hc | rfl
  · decide
  · decide
  · exact plain_of_mem_flatMap (fun _ hd => hd) spells_escapeByte hc
  · decide

/-- **Strings.** The literal of a string is read as that string. -/
lemma read?_literal (s : String) : read? (literal s) = some (.text s) := by
  have hquote := isQuote_quoteFor s.toList
  have hread := readQuoted?_flatMap hquote (spells_escape hquote) s.toList
  rw [List.map_id'] at hread
  rw [read?, toList_literal, readChars?, hread, Option.map_some, String.ofList_toList]
  intro cs h
  rw [(List.cons.inj h).1] at hquote
  exact absurd hquote (by decide)

/-- **Bytes.** The literal of a run of bytes is read as these bytes. -/
lemma read?_bytesLiteral (bs : List UInt8) : read? (bytesLiteral bs) = some (.bytes bs) := by
  have hread := readQuoted?_flatMap (isQuote_iff.mpr (.inl rfl)) spells_escapeByte bs
  have hascii : ('\'' :: (bs.flatMap escapeByte ++ ['\''])).all (fun c => c.toNat < 0x80) := by
    refine List.all_eq_true.mpr (fun c hc => decide_eq_true ?_)
    have hmem : c ∈ (bytesLiteral bs).toList := by
      rw [toList_bytesLiteral]
      exact List.mem_cons_of_mem _ hc
    exact Nat.lt_trans (isVisible_of_mem_bytesLiteral hmem).2 (by omega)
  rw [read?, toList_bytesLiteral, readChars?, if_pos hascii, hread, Option.map_some, List.map_map]
  simp [Function.comp_def, ofNat_toNat_ofNat_byte]

/-- The literal that is written for what it stands for. -/
def Literal.written : Literal → String
  | text s => literal s
  | bytes bs => bytesLiteral bs

lemma read?_written (l : Literal) : read? l.written = some l := by
  cases l with
  | text s => exact read?_literal s
  | bytes bs => exact read?_bytesLiteral bs

/-- Different strings have different literals, and so have different bytes; none is that of both. -/
lemma written_inj {l m : Literal} : l.written = m.written ↔ l = m := by
  refine ⟨fun h => ?_, congrArg Literal.written⟩
  have hread := read?_written l
  rw [h, read?_written] at hread
  exact (Option.some.inj hread).symm

end NativeCall.Quoted
