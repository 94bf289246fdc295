import NativeCall.Proofs.Build.Scalars
import NativeCall.Proofs.Text.Utf8

/-!
# Text directives

A text argument is a buffer of bytes or of code points, or null, and a sized directive takes a
length behind it. Which part of the buffer is meant (`Designates`) and what is made of that part
(`OfBytes`, `OfUnits`) have nothing to do with each other, and the first is the same for bytes and
for code points. So `OfBuffer` puts the two together for any kind of element, and one lemma says
that a reading that goes on from the designated part ends as `OfBuffer` has it (`yields_of_buffer`).

What a text is made of is told from the text, not from its reading: the bytes are its encoding, the
code points are the numbers of its characters. In the same way a part is designated by how the
buffer is put together, as everything before a zero or as so many elements, and not by a search.

## All cases

Relations like these could leave cases out. `text_directives` therefore states for every buffer and
every length that there is something to be made of it, and that whatever is said to be made of it is
made. The first half is `exists_ofBuffer`, over `exists_designates`, `exists_ofBytes` and
`exists_ofUnits`:

* a null text makes `None`, and its length is taken all the same;
* a length that is larger than the buffer is an error that tells both numbers and the position of
  the length, which is the second argument of the directive;
* no length, or a negative one, designates everything before the first zero, and everything if there
  is no zero;
* of the designated bytes either a text is the decoding or there is a first fault, and of the
  designated code points either all are characters or there is a first one that is none.

That a directive makes one thing only is not stated, and need not be: it makes what each of these
says, so they cannot contradict each other.
-/

namespace NativeCall

open Heap

/-! ## Which part of a buffer is meant -/

/-- The length that an argument behind a text gives, if the directive takes one. -/
inductive TextLength where
  | absent
  | size (n : Int64)
  | int (n : Int64)

namespace TextLength

/-- How a directive is written that takes such a length. -/
def suffix : TextLength → List Char
  | absent => []
  | size _ | int _ => ['#']

def args : TextLength → List BuildArg
  | absent => []
  | size n => [.size n]
  | int n => [.int n]

def word? : TextLength → Option Int64
  | absent => none
  | size n | int n => some n

/-- The value of the length. -/
def value? (l : TextLength) : Option Int :=
  l.word?.map Int64.toInt

/-- Whether the directive is a sized one. -/
def isSized (l : TextLength) : Bool :=
  l.word?.isSome

end TextLength

/-- `Designates zero length buffer part`: the length designates this part of the buffer. Without a
length, or with a negative one, the part ends before the first zero. -/
inductive Designates {α : Type} (zero : α) : Option Int → List α → List α → Prop where
  | whole {length : Option Int} {buffer : List α} (hl : ∀ n ∈ length, n < 0) (hz : zero ∉ buffer) :
      Designates zero length buffer buffer
  | ended {length : Option Int} {part : List α} (hl : ∀ n ∈ length, n < 0) (hz : zero ∉ part)
      (rest : List α) : Designates zero length (part ++ zero :: rest) part
  | first {n : Nat} {part : List α} (hl : part.length = n) (rest : List α) :
      Designates zero (some n) (part ++ rest) part

section Parts

variable {α : Type}

/-- A length designates a part of the buffer, or is too large. -/
lemma exists_designates (zero : α) (length : Option Int) (buffer : List α) :
    (∃ n : Nat, length = some ↑n ∧ buffer.length < n) ∨
      ∃ part, Designates zero length buffer part := by
  by_cases hl : ∀ n ∈ length, n < 0
  · right
    by_cases hz : zero ∈ buffer
    · obtain ⟨part, rest, rfl, hpart⟩ := List.eq_append_cons_of_mem hz
      exact ⟨part, .ended hl hpart rest⟩
    · exact ⟨buffer, .whole hl hz⟩
  · obtain ⟨n, rfl⟩ : ∃ n : Nat, length = some ↑n := by
      simp only [not_forall, not_lt] at hl
      obtain ⟨n, hn, hpos⟩ := hl
      exact ⟨n.toNat, by rw [hn, Int.toNat_of_nonneg hpos]⟩
    rcases Nat.lt_or_ge buffer.length n with hlt | hle
    · exact .inl ⟨n, rfl, hlt⟩
    · right
      have hfirst : Designates zero (some n) (buffer.take n ++ buffer.drop n) (buffer.take n) :=
        .first (List.length_take_of_le hle) _
      rw [List.take_append_drop] at hfirst
      exact ⟨_, hfirst⟩

variable [DecidableEq α] {zero : α} {buffer part : List α} {word : Option Int64} {c : ArgCursor}

/-- A negative length is none. -/
lemma filter_eq_none (hl : ∀ n ∈ word.map Int64.toInt, n < 0) :
    word.filter (fun w => 0 ≤ w) = none := by
  rw [Option.filter_eq_none_iff]
  intro w hw
  have hneg := hl w.toInt (Option.mem_map_of_mem _ hw)
  simp [Int64.le_iff_toInt_le]
  omega

lemma filter_eq_some {n : Nat} (hl : word.map Int64.toInt = some ↑n) :
    ∃ w, word.filter (fun w => 0 ≤ w) = some w ∧ w.toInt.toNat = n := by
  obtain ⟨w, rfl, hw⟩ := Option.map_eq_some_iff.mp hl
  refine ⟨w, ?_, by omega⟩
  simp [Option.filter, Int64.le_iff_toInt_le]
  omega

/-- The designated part is the one that is read. -/
lemma designated_ok (h : Designates zero (word.map Int64.toInt) buffer part) :
    ArgCursor.designated zero buffer word c = .ok part c := by
  generalize hlength : word.map Int64.toInt = length at h
  unfold ArgCursor.designated
  cases h with
  | whole hl hz =>
    subst hlength
    -- No element is a zero, so the search goes through the whole buffer.
    have hall : buffer.takeWhile (· ≠ zero) = buffer := by
      rw [← List.append_nil buffer, List.takeWhile_append_of_pos (by grind)]
      rfl
    simp only [filter_eq_none hl, hall]
    rfl
  | ended hl hz rest =>
    subst hlength
    have hpart : (part ++ zero :: rest).takeWhile (· ≠ zero) = part := by
      rw [List.takeWhile_append_of_pos (by grind), List.takeWhile_cons_of_neg (by simp),
        List.append_nil]
    simp only [filter_eq_none hl, hpart]
    rfl
  | @first n _ hl rest =>
    obtain ⟨w, hw, hn⟩ := filter_eq_some hlength
    have hfits : n ≤ (part ++ rest).length := by
      rw [List.length_append]
      omega
    simp only [hw, hn, if_pos hfits, List.take_left' hl]
    rfl

/-- A length that is too large is told with what there is. -/
lemma designated_tooLong (zero : α) {n : Nat} (hl : word.map Int64.toInt = some ↑n)
    (hn : buffer.length < n) :
    ArgCursor.designated zero buffer word c =
      .error ⟨.call (.lengthOutOfRange c.position n buffer.length), []⟩ c := by
  obtain ⟨w, hw, rfl⟩ := filter_eq_some hl
  unfold ArgCursor.designated
  simp only [hw, if_neg (Nat.not_le_of_lt hn)]
  rfl

end Parts

/-! ## What a text directive makes of its arguments -/

/-- What the directives `y`, `s`, `z` and `U` make of bytes. -/
inductive OfBytes : Char → List UInt8 → Yield → Prop where
  | bytes (part : List UInt8) : OfBytes 'y' part (.fresh (.bytes part))
  | text {code : Char} (hc : code ∈ ['s', 'z', 'U']) (s : String) :
      OfBytes code (Utf8.encode s) (.fresh (.str s))
  | malformed {code : Char} (hc : code ∈ ['s', 'z', 'U']) {part : List UInt8}
      {e : Utf8.DecodeError} (h : Utf8.StopsAt part e) :
      OfBytes code part (.failure (.raised (.raising .unicodeDecodeError
        ("'utf-8' codec can't decode byte 0x" ++ Text.hexByte e.byte ++ " in position " ++
          toString e.position ++ ": " ++ e.fault.message))))

/-- What the directive `u` makes of code points. -/
inductive OfUnits : List UInt32 → Yield → Prop where
  | text (s : String) : OfUnits (s.toList.map Char.val) (.fresh (.str s))
  | noCharacter {before rest : List UInt32} {u : UInt32}
      (hbefore : ∀ x ∈ before, x.toNat.isValidChar) (hu : ¬ u.toNat.isValidChar) :
      OfUnits (before ++ u :: rest) (.failure (.raised (.raising .valueError
        ("character U+" ++ Text.hex u.toNat ++ " is not in range [U+0000; U+10ffff]"))))

/-- What a text directive makes of a buffer, or of null, if it makes what `Of` says of the part that
the length designates. -/
inductive OfBuffer {α : Type} (zero : α) (Of : List α → Yield → Prop) (length : Option Int) :
    Option (List α) → (Nat → Yield) → Prop where
  | null : OfBuffer zero Of length none (fun _ => .none)
  | part {buffer part : List α} {y : Yield} (hd : Designates zero length buffer part)
      (hy : Of part y) : OfBuffer zero Of length (some buffer) (fun _ => y)
  | tooLong {buffer : List α} {n : Nat} (hl : length = some ↑n) (hn : buffer.length < n) :
      OfBuffer zero Of length (some buffer) (fun position =>
        .failure (.call (.lengthOutOfRange (position + 2) n buffer.length)))

/-- Something is said of every buffer, if something is said of every part. -/
lemma exists_ofBuffer {α : Type} (zero : α) {Of : List α → Yield → Prop}
    (hOf : ∀ part, ∃ y, Of part y) (length : Option Int) (buffer : Option (List α)) :
    ∃ y, OfBuffer zero Of length buffer y := by
  cases buffer with
  | none => exact ⟨_, .null⟩
  | some buffer =>
    rcases exists_designates zero length buffer with ⟨n, hl, hn⟩ | ⟨part, hd⟩
    · exact ⟨_, .tooLong hl hn⟩
    · obtain ⟨y, hy⟩ := hOf part
      exact ⟨_, .part hd hy⟩

lemma exists_ofBytes {code : Char} (hc : code ∈ ['y', 's', 'z', 'U']) (part : List UInt8) :
    ∃ y, OfBytes code part y := by
  rcases List.mem_cons.mp hc with rfl | hc
  · exact ⟨_, .bytes part⟩
  · cases hd : Utf8.decode part with
    | ok s =>
      obtain rfl := Utf8.decode_eq_ok_iff.mp hd
      exact ⟨_, .text hc s⟩
    | error e => exact ⟨_, .malformed hc (Utf8.decode_eq_error_iff.mp hd)⟩

/-- Code points are the numbers of characters, at least up to the first that is no such number. -/
lemma exists_ofUnits (part : List UInt32) : ∃ y, OfUnits part y := by
  induction part with
  | nil => exact ⟨_, .text ""⟩
  | cons u part ih =>
    by_cases hu : u.toNat.isValidChar
    · obtain ⟨y, hy⟩ := ih
      cases hy with
      | text s => exact ⟨_, by simpa using OfUnits.text (String.ofList (⟨u, hu⟩ :: s.toList))⟩
      | noCharacter hbefore hv =>
        rw [← List.cons_append]
        exact ⟨_, .noCharacter (List.forall_mem_cons.mpr ⟨hu, hbefore⟩) hv⟩
    · rw [← List.nil_append (u :: part)]
      exact ⟨_, .noCharacter (List.forall_mem_nil _) hu⟩

/-! ## Reading texts -/

section Reading

variable {code : Char} {l : TextLength}

/-- What comes of a buffer, once its length is known. -/
def bufferPart {α : Type} [DecidableEq α] (zero : α) (l : TextLength) :
    Option (List α) → ArgReader (Option (List α))
  | none => return none
  | some buffer => some <$> ArgCursor.designated zero buffer l.word?

lemma readBytes_run (buffer : Option (List UInt8)) (rest : List BuildArg) (position : Nat) :
    Scalar.readBytes code l.isSized ⟨.text buffer :: (l.args ++ rest), position⟩ =
      bufferPart 0 l buffer ⟨rest, position + (l.args.length + 1)⟩ := by
  cases l <;> cases buffer <;> rfl

lemma readUnits_run (buffer : Option (List UInt32)) (rest : List BuildArg) (position : Nat) :
    Scalar.readUnits code l.isSized ⟨.wide buffer :: (l.args ++ rest), position⟩ =
      bufferPart 0 l buffer ⟨rest, position + (l.args.length + 1)⟩ := by
  cases l <;> cases buffer <;> rfl

/-- A directive that reads a buffer and goes on from the designated part makes what is said of the
buffer. -/
lemma yields_of_buffer {α : Type} [DecidableEq α] {zero : α} {Of : List α → Yield → Prop}
    {x : Scalar} {arg : BuildArg} {buffer : Option (List α)}
    {read : ArgReader (Option (List α))} {after : Option (List α) → ArgReader Product}
    {y : Nat → Yield} (hs : Format.Spells code l.suffix x) (hx : x.read code = read >>= after)
    (hread : ∀ rest position, read ⟨arg :: (l.args ++ rest), position⟩ =
      bufferPart zero l buffer ⟨rest, position + (l.args.length + 1)⟩)
    (hnull : ∀ c, after none c = .ok .none c)
    (hpart : ∀ part y, Of part y → y.Plain ∧ ∀ c, after (some part) c = y.ending c)
    (hy : OfBuffer zero Of l.value? buffer y) : Yields code l.suffix (arg :: l.args) y := by
  refine .of_read hs (fun position o ho => ?_) (fun rest position => ?_)
  · cases hy with
    | null => cases ho
    | part hd hof => exact (hpart _ _ hof).1 o ho
    | tooLong hl hn => cases ho
  · rw [hx, List.cons_append, List.length_cons]
    have hbuffer := hread rest position
    cases hy with
    | null =>
      rw [bind_ok hbuffer]
      exact hnull _
    | part hd hof =>
      have hsome := bind_ok (f := fun a => pure (some a))
        (designated_ok (c := ⟨rest, position + (l.args.length + 1)⟩) hd)
      rw [bufferPart, map_eq_pure_bind] at hbuffer
      rw [bind_ok (hbuffer.trans hsome)]
      exact (hpart _ _ hof).2 _
    | tooLong hl hn =>
      -- A length that is too large is not absent, so two arguments were taken.
      have hargs : l.args.length = 1 := by
        cases l <;> simp_all [TextLength.value?, TextLength.word?, TextLength.args]
      have htooLong := designated_tooLong zero (c := ⟨rest, position + (l.args.length + 1)⟩) hl hn
      have hstopped := bind_stopped (f := fun a => pure (some a)) htooLong
      rw [bufferPart, map_eq_pure_bind] at hbuffer
      rw [bind_stopped (hbuffer.trans hstopped), hargs]
      rfl

lemma textOfUnits_cons {u : UInt32} (hu : u.toNat.isValidChar) (units : List UInt32) :
    textOfUnits (u :: units) =
      (fun s => String.ofList (⟨u, hu⟩ :: s.toList)) <$> textOfUnits units := by
  have hchar : charOf? u.toNat = some ⟨u, hu⟩ := dif_pos hu
  simp only [textOfUnits, List.mapM_cons, hchar]
  cases units.mapM (m := Except RunError) _ with
  | ok cs => simp [bind, Except.bind, pure, Except.pure, Functor.map, Except.map]
  | error e => rfl

lemma textOfUnits_cons_noCharacter {u : UInt32} (hu : ¬ u.toNat.isValidChar)
    (units : List UInt32) : textOfUnits (u :: units) = .error (.raising .valueError
      ("character U+" ++ Text.hex u.toNat ++ " is not in range [U+0000; U+10ffff]")) := by
  have hchar : charOf? u.toNat = none := dif_neg hu
  simp only [textOfUnits, List.mapM_cons, hchar]
  rfl

/-- The numbers of characters give these characters. -/
lemma textOfUnits_of_chars (cs : List Char) :
    textOfUnits (cs.map Char.val) = .ok (String.ofList cs) := by
  induction cs with
  | nil => rfl
  | cons c cs ih =>
    rw [List.map_cons, textOfUnits_cons c.valid, ih]
    simp [Functor.map, Except.map]

/-- The first number that is none of a character stops the reading, whatever follows. -/
lemma textOfUnits_of_noCharacter {before rest : List UInt32} {u : UInt32}
    (hbefore : ∀ x ∈ before, x.toNat.isValidChar) (hu : ¬ u.toNat.isValidChar) :
    textOfUnits (before ++ u :: rest) = .error (.raising .valueError
      ("character U+" ++ Text.hex u.toNat ++ " is not in range [U+0000; U+10ffff]")) := by
  induction before with
  | nil => exact textOfUnits_cons_noCharacter hu rest
  | cons v before ih =>
    obtain ⟨hv, hbefore⟩ := List.forall_mem_cons.mp hbefore
    rw [List.cons_append, textOfUnits_cons hv, ih hbefore]
    rfl

lemma ending_textOfUnits {part : List UInt32} {y : Yield} (hy : OfUnits part y) (c : ArgCursor) :
    (match textOfUnits part with
      | .ok s => pure (.fresh (.str s))
      | .error e => ArgCursor.fail (.raised e) : ArgReader Product) c = y.ending c := by
  cases hy with
  | text s =>
    rw [textOfUnits_of_chars, String.ofList_toList]
    rfl
  | noCharacter hbefore hu =>
    rw [textOfUnits_of_noCharacter hbefore hu]
    rfl

lemma ending_decode {part : List UInt8} {y : Yield} (hc : code ∈ ['s', 'z', 'U'])
    (hy : OfBytes code part y) (c : ArgCursor) :
    (match Utf8.decode part with
      | .ok s => pure (.fresh (.str s))
      | .error e => ArgCursor.fail (.raised e.toRunError) : ArgReader Product) c = y.ending c := by
  cases hy with
  | bytes => simp at hc
  | text _ s =>
    rw [Utf8.decode_eq_ok_iff.mpr rfl]
    rfl
  | malformed _ h =>
    rw [Utf8.decode_eq_error_iff.mpr h]
    rfl

end Reading

/-- **Text directives make just what the designated part says.** A null text gives `None`; its
length is taken all the same. Otherwise the length designates a part of the buffer or is too large,
which is an error that tells both numbers. Of the designated bytes `y` makes the very same bytes,
and `s`, `z` and `U` make the one text whose encoding they are. If there is none, the error tells
where the longest beginning ends that is an encoding, the byte there, and whether the bytes from
there on break off in a character, start none, or go wrong behind a start. Of the designated code
points `u` makes the text of the characters with these numbers, or the error names the first that is
no such number. -/
theorem text_directives (l : TextLength) :
    (∀ code ∈ ['y', 's', 'z', 'U'], ∀ buffer : Option (List UInt8),
      (∃ y, OfBuffer 0 (OfBytes code) l.value? buffer y) ∧
      ∀ y, OfBuffer 0 (OfBytes code) l.value? buffer y →
        Yields code l.suffix (.text buffer :: l.args) y) ∧
    ∀ buffer : Option (List UInt32),
      (∃ y, OfBuffer 0 OfUnits l.value? buffer y) ∧
      ∀ y, OfBuffer 0 OfUnits l.value? buffer y →
        Yields 'u' l.suffix (.wide buffer :: l.args) y := by
  refine ⟨fun code hcode buffer => ⟨exists_ofBuffer 0 (exists_ofBytes hcode) _ _, fun y hy => ?_⟩,
    fun buffer => ⟨exists_ofBuffer 0 exists_ofUnits _ _, fun y hy => ?_⟩⟩
  · rcases List.mem_cons.mp hcode with rfl | hc
    · have hs : Format.Spells 'y' l.suffix (.bytes l.isSized) := by
        cases l
        exacts [.bytes, .sizedBytes, .sizedBytes]
      refine yields_of_buffer hs rfl (readBytes_run buffer) (fun _ => rfl) ?_ hy
      intro part y hof
      cases hof with
      | bytes => exact ⟨fun o ho => by cases ho; rfl, fun _ => rfl⟩
      | text hc => simp at hc
      | malformed hc => simp at hc
    · have hs : Format.Spells code l.suffix (.text l.isSized) := by
        cases l
        exacts [.text hc, .sizedText hc, .sizedText hc]
      refine yields_of_buffer hs rfl (readBytes_run buffer) (fun _ => rfl) ?_ hy
      intro part y hof
      refine ⟨fun o ho => ?_, ending_decode hc hof⟩
      cases hof <;> cases ho <;> rfl
  · have hs : Format.Spells 'u' l.suffix (.wide l.isSized) := by
      cases l
      exacts [.wide, .sizedWide, .sizedWide]
    refine yields_of_buffer hs rfl (readUnits_run buffer) (fun _ => rfl) ?_ hy
    intro part y hof
    refine ⟨fun o ho => ?_, ending_textOfUnits hof⟩
    cases hof with
    | text s =>
      cases ho
      rfl
    | noCharacter hbefore hu => cases ho

/-- The zero behind the designated bytes is not looked at, so they break off in a character. -/
theorem text_directives_truncated :
    Yields 's' ['#'] [.text (some [0x61, 0xE2, 0x82, 0]), .size 3] (fun _ =>
      .failure (.raised (.raising .unicodeDecodeError
        "'utf-8' codec can't decode byte 0xe2 in position 1: unexpected end of data"))) := by
  have hfirst : Utf8.sequence 0x61 [0xE2, 0x82] = .ok ('a', 0) := rfl
  have hsecond : Utf8.sequence 0xE2 [0x82] = .error .truncated := rfl
  have hdecode : Utf8.decode [0x61, 0xE2, 0x82] = .error ⟨1, 0xE2, .truncated⟩ := by
    rw [Utf8.decode, Utf8.decodeFrom]
    simp only [hfirst, List.drop_zero]
    rw [Utf8.decodeFrom]
    simp only [hsecond]
    rfl
  have hpart : Designates (0 : UInt8) (some (3 : Nat)) ([0x61, 0xE2, 0x82] ++ [0])
      [0x61, 0xE2, 0x82] := .first (n := 3) rfl [0]
  obtain ⟨-, hyields⟩ := (text_directives (.size 3)).1 's' (by simp) (some [0x61, 0xE2, 0x82, 0])
  exact hyields _ (.part hpart (.malformed (by simp) (Utf8.decode_eq_error_iff.mp hdecode)))

end NativeCall
