import Mathlib.Data.List.Basic
import Mathlib.Tactic.Lemma
import Mathlib.Tactic.SplitIfs
import NativeCall.Text.Utf8

/-!
# Reading UTF-8 undoes writing it

Writing a character is arithmetic on its number. Reading one looks at bytes: the first tells how
many follow, and each of these has to be in a range that depends on where it stands. The two meet in
one character: the bytes that may stand in a sequence are just those that some character is written
with (`utf8EncodeChar_codePoint`, `admits_of_utf8EncodeChar`). What `sequence` answers to any bytes
can then be said with characters alone, also where it fails: bytes that end too early are the
beginning of some character (`sequence_truncated_iff`), because whatever is missing may be filled in
(`exists_completion`).

So `decode` finds the one text whose encoding the bytes are (`decode_eq_ok_iff`). If there is none,
it stops where the longest beginning ends that is the encoding of a text (`stopsAt_of_decode`).
There is no longer one because no character begins like another one (`isPrefix_of_flatMap`).

## Failure as a specification

A decoder that refuses is specified by what it refuses, and where it says the fault is. Both are in
`StopsAt`, which does not mention the decoder: the position is the length of the longest well-formed
beginning, the byte is the one that stands there, and the three faults are told apart by the
characters that begin like what is left. Exactly one error satisfies it (`StopsAt.unique`), so the
equivalence `decode_eq_error_iff` determines the answer to every input.

The ranges of the second byte are the part of the encoding that is easy to get wrong. After the
first bytes `E0` and `F0` the second must not be too small, since the character would have had a
shorter encoding; after `ED` and `F4` it must not be too large, since the number would be that of a
surrogate or beyond the last character. In `utf8EncodeChar_codePoint` these are the bounds with
which the number is a character's and is written with as many bytes as were read.
-/

namespace NativeCall.Utf8

open String (utf8EncodeChar)

/-! ## One sequence -/

section Sequence

variable {lead b : UInt8} {tail later rest more : List UInt8} {c : Char} {n : Nat}

lemma continuations?_eq_some : continuations? lead = some n ↔
    n = 0 ∧ lead.toNat < 0x80 ∨ n = 1 ∧ 0xC2 ≤ lead.toNat ∧ lead.toNat < 0xE0 ∨
      n = 2 ∧ 0xE0 ≤ lead.toNat ∧ lead.toNat < 0xF0 ∨
        n = 3 ∧ 0xF0 ≤ lead.toNat ∧ lead.toNat < 0xF5 := by
  unfold continuations?
  simp only [UInt8.lt_iff_toNat_lt, UInt8.reduceToNat]
  split_ifs <;> simp <;> omega

lemma isContinuation_iff : isContinuation b = true ↔ 0x80 ≤ b.toNat ∧ b.toNat ≤ 0xBF := by
  simp [isContinuation, UInt8.le_iff_toNat_le]

lemma admits_cons : admits lead (b :: later) = true ↔
    (0x80 ≤ b.toNat ∧ b.toNat ≤ 0xBF ∧ (lead.toNat = 0xE0 → 0xA0 ≤ b.toNat) ∧
      (lead.toNat = 0xED → b.toNat ≤ 0x9F) ∧ (lead.toNat = 0xF0 → 0x90 ≤ b.toNat) ∧
      (lead.toNat = 0xF4 → b.toNat ≤ 0x8F)) ∧ ∀ x ∈ later, 0x80 ≤ x.toNat ∧ x.toNat ≤ 0xBF := by
  simp only [admits, secondRange, Bool.and_eq_true, decide_eq_true_eq, List.all_eq_true,
    isContinuation_iff, ← UInt8.toNat_inj, UInt8.reduceToNat]
  refine and_congr_left (fun _ => ?_)
  split_ifs <;> simp only [UInt8.le_iff_toNat_le, UInt8.reduceToNat] <;> omega

/-- How a character is written, told by its number. -/
lemma utf8EncodeChar_ofNat (hn : n.isValidChar) : utf8EncodeChar (Char.ofNat n) =
    if n ≤ 0x7F then [UInt8.ofNat n]
    else if n ≤ 0x7FF then [UInt8.ofNat (n / 64 % 32 + 192), UInt8.ofNat (n % 64 + 128)]
    else if n ≤ 0xFFFF then [UInt8.ofNat (n / 4096 % 16 + 224), UInt8.ofNat (n / 64 % 64 + 128),
      UInt8.ofNat (n % 64 + 128)]
    else [UInt8.ofNat (n / 262144 % 8 + 240), UInt8.ofNat (n / 4096 % 64 + 128),
      UInt8.ofNat (n / 64 % 64 + 128), UInt8.ofNat (n % 64 + 128)] := by
  have hval : (Char.ofNat n).val.toNat = n := by
    rw [Char.ofNat, dif_pos hn]
    rfl
  unfold utf8EncodeChar
  simp only [hval]

/-- The bytes that may stand in a sequence are those of the character that they are read as. The
ranges of the second byte keep the number among those of characters, and at least as large as the
number of bytes asks for. -/
lemma utf8EncodeChar_codePoint (hn : continuations? lead = some tail.length)
    (ht : admits lead tail = true) :
    utf8EncodeChar (Char.ofNat (codePoint lead tail)) = lead :: tail := by
  have hlead := lead.toNat_lt
  -- One case for each number of bytes. In each, the number is put together from the low bits of the
  -- bytes and falls into the range of characters that are written with so many.
  rcases continuations?_eq_some.mp hn with ⟨hlen, h⟩ | ⟨hlen, h⟩ | ⟨hlen, h⟩ | ⟨hlen, h⟩
  · obtain rfl := List.length_eq_zero_iff.mp hlen
    have hcode : codePoint lead [] = lead.toNat := rfl
    rw [hcode, utf8EncodeChar_ofNat (.inl (by omega)), if_pos (by omega), UInt8.ofNat_toNat]
  · obtain ⟨b, rfl⟩ := List.length_eq_one_iff.mp hlen
    obtain ⟨hb, -⟩ := admits_cons.mp ht
    have hcode : codePoint lead [b] = 64 * (lead.toNat % 32) + b.toNat % 64 := rfl
    rw [hcode, utf8EncodeChar_ofNat (.inl (by omega)), if_neg (by omega), if_pos (by omega)]
    simp only [List.cons.injEq, ← UInt8.toNat_inj, UInt8.toNat_ofNat', and_true]
    omega
  · obtain ⟨b, b', rfl⟩ := List.length_eq_two.mp hlen
    obtain ⟨hb, hlater⟩ := admits_cons.mp ht
    have hb' := hlater b' List.mem_cons_self
    have hcode : codePoint lead [b, b'] =
      64 * (64 * (lead.toNat % 16) + b.toNat % 64) + b'.toNat % 64 := rfl
    have hvalid : (64 * (64 * (lead.toNat % 16) + b.toNat % 64) + b'.toNat % 64).isValidChar := by
      unfold Nat.isValidChar
      omega
    rw [hcode, utf8EncodeChar_ofNat hvalid, if_neg (by omega), if_neg (by omega),
      if_pos (by omega)]
    simp only [List.cons.injEq, ← UInt8.toNat_inj, UInt8.toNat_ofNat', and_true]
    omega
  · obtain ⟨b, b', b'', rfl⟩ := List.length_eq_three.mp hlen
    obtain ⟨hb, hlater⟩ := admits_cons.mp ht
    have hb' := hlater b' List.mem_cons_self
    have hb'' := hlater b'' (List.mem_cons_of_mem _ List.mem_cons_self)
    have hcode : codePoint lead [b, b', b''] =
      64 * (64 * (64 * (lead.toNat % 8) + b.toNat % 64) + b'.toNat % 64) + b''.toNat % 64 := rfl
    have hvalid : (64 * (64 * (64 * (lead.toNat % 8) + b.toNat % 64) + b'.toNat % 64) +
        b''.toNat % 64).isValidChar := by
      unfold Nat.isValidChar
      omega
    rw [hcode, utf8EncodeChar_ofNat hvalid, if_neg (by omega), if_neg (by omega),
      if_neg (by omega)]
    simp only [List.cons.injEq, ← UInt8.toNat_inj, UInt8.toNat_ofNat', and_true]
    omega

/-- The bytes of a character may stand in a sequence. -/
lemma admits_of_utf8EncodeChar (hc : utf8EncodeChar c = lead :: tail) :
    continuations? lead = some tail.length ∧ admits lead tail = true := by
  have hvalid : c.toNat.isValidChar := c.valid
  rw [← Char.ofNat_toNat c, utf8EncodeChar_ofNat hvalid] at hc
  have hbounds : c.toNat < 0xD800 ∨ 0xDFFF < c.toNat ∧ c.toNat < 0x110000 := hvalid
  rw [continuations?_eq_some]
  split_ifs at hc
  · obtain ⟨rfl, rfl⟩ := List.cons.inj hc
    simp only [UInt8.toNat_ofNat']
    exact ⟨.inl ⟨rfl, by omega⟩, rfl⟩
  · obtain ⟨rfl, rfl⟩ := List.cons.inj hc
    simp only [admits_cons, UInt8.toNat_ofNat']
    refine ⟨.inr (.inl ⟨rfl, by omega⟩), by omega, by simp⟩
  · obtain ⟨rfl, rfl⟩ := List.cons.inj hc
    simp only [admits_cons, UInt8.toNat_ofNat', List.forall_mem_cons]
    refine ⟨.inr (.inr (.inl ⟨rfl, by omega⟩)), by omega, by omega, by simp⟩
  · obtain ⟨rfl, rfl⟩ := List.cons.inj hc
    simp only [admits_cons, UInt8.toNat_ofNat', List.forall_mem_cons]
    refine ⟨.inr (.inr (.inr ⟨rfl, by omega⟩)), by omega, by omega, by omega, by simp⟩

lemma utf8EncodeChar_inj {c d : Char} (h : utf8EncodeChar c = utf8EncodeChar d) : c = d := by
  have hbytes : [c].utf8Encode ++ ByteArray.empty = [d].utf8Encode := by
    rw [ByteArray.append_empty, List.utf8Encode_singleton, List.utf8Encode_singleton, h]
  have hbegins := List.isPrefix_of_utf8Encode_append_eq_utf8Encode _ hbytes
  exact (List.cons.inj (hbegins.eq_of_length rfl)).1

/-- A character is read, whatever follows it. -/
lemma sequence_of_char (hc : utf8EncodeChar c = lead :: tail) (rest : List UInt8) :
    sequence lead (tail ++ rest) = .ok (c, tail.length) := by
  obtain ⟨hn, ht⟩ := admits_of_utf8EncodeChar hc
  have hcode : Char.ofNat (codePoint lead tail) = c :=
    utf8EncodeChar_inj ((utf8EncodeChar_codePoint hn ht).trans hc.symm)
  have htake : (tail ++ rest).take tail.length = tail := List.take_left
  simp [sequence, hn, htake, ht, hcode]

/-- What is read is a character. -/
lemma char_of_sequence (h : sequence lead rest = .ok (c, n)) :
    ∃ tail more, rest = tail ++ more ∧ tail.length = n ∧ utf8EncodeChar c = lead :: tail := by
  unfold sequence at h
  cases hn : continuations? lead with
  | none => simp [hn] at h
  | some m =>
    simp only [hn] at h
    split_ifs at h with hadmits hlength
    obtain ⟨rfl, rfl⟩ := Prod.mk.inj (Except.ok.inj h)
    have hlen : (rest.take m).length = m := by
      have := List.length_take_le m rest
      omega
    refine ⟨rest.take m, rest.drop m, (List.take_append_drop m rest).symm, hlen, ?_⟩
    exact utf8EncodeChar_codePoint (by rw [hlen, hn]) (by simpa using hadmits)

lemma admits_of_append (h : admits lead (tail ++ more) = true) : admits lead tail = true := by
  cases tail with
  | nil => rfl
  | cons b later =>
    rw [List.cons_append, admits_cons] at h
    exact admits_cons.mpr ⟨h.1, fun x hx => h.2 x (List.mem_append_left more hx)⟩

/-- Bytes that may stand in a sequence can be followed by any number of others that may. -/
lemma exists_completion (h : admits lead tail = true) (k : Nat) :
    ∃ more : List UInt8, more.length = k ∧ admits lead (tail ++ more) = true := by
  have hlater : ∀ x ∈ List.replicate k (0x80 : UInt8), 0x80 ≤ x.toNat ∧ x.toNat ≤ 0xBF := by
    intro x hx
    rw [List.eq_of_mem_replicate hx]
    decide
  cases tail with
  | cons b later =>
    refine ⟨List.replicate k 0x80, List.length_replicate, ?_⟩
    obtain ⟨hb, hrest⟩ := admits_cons.mp h
    refine admits_cons.mpr ⟨hb, fun x hx => ?_⟩
    rcases List.mem_append.mp hx with hx | hx
    · exact hrest x hx
    · exact hlater x hx
  | nil =>
    cases k with
    | zero => exact ⟨[], rfl, rfl⟩
    | succ k =>
      refine ⟨(secondRange lead).1 :: List.replicate k 0x80, by simp, ?_⟩
      have hrange : (secondRange lead).1 ≤ (secondRange lead).2 := by
        unfold secondRange
        split_ifs <;> decide
      simp [admits, hrange, isContinuation]

/-- A sequence that ends too early goes on to a character. -/
lemma begins_of_sequence_truncated (h : sequence lead rest = .error .truncated) :
    ∃ c, lead :: rest <+: utf8EncodeChar c ∧ lead :: rest ≠ utf8EncodeChar c := by
  unfold sequence at h
  cases hn : continuations? lead with
  | none => simp [hn] at h
  | some n =>
    simp only [hn] at h
    split_ifs at h with hadmits hlength
    · have hrest : rest.take n = rest := by
        refine List.take_of_length_le ?_
        rw [List.length_take] at hlength
        omega
      rw [hrest] at hadmits hlength
      obtain ⟨more, hmore, hall⟩ := exists_completion hadmits (n - rest.length)
      have hlen : (rest ++ more).length = n := by
        rw [List.length_append]
        omega
      have hchar := utf8EncodeChar_codePoint (by rw [hlen, hn]) hall
      refine ⟨_, ⟨more, hchar.symm⟩, fun heq => ?_⟩
      have hsame := congrArg List.length (heq.trans hchar)
      simp only [List.length_cons] at hsame
      omega
    · cases h

/-- A beginning of a character is nothing else, and it ends too early. -/
lemma sequence_of_begins (hc : utf8EncodeChar c = lead :: (rest ++ more)) (hmore : more ≠ []) :
    sequence lead rest = .error .truncated := by
  obtain ⟨hn, ht⟩ := admits_of_utf8EncodeChar hc
  have hlen : rest.length < (rest ++ more).length := by
    have := List.length_pos_iff.mpr hmore
    rw [List.length_append]
    omega
  have htake : rest.take (rest ++ more).length = rest :=
    List.take_of_length_le (Nat.le_of_lt hlen)
  simp only [sequence, hn, htake, admits_of_append ht]
  rw [if_neg (by simp), if_pos hlen]

/-- A sequence ends too early just if it is the beginning of a character. -/
lemma sequence_truncated_iff : sequence lead rest = .error .truncated ↔
    ∃ c, lead :: rest <+: utf8EncodeChar c ∧ lead :: rest ≠ utf8EncodeChar c := by
  refine ⟨begins_of_sequence_truncated, ?_⟩
  rintro ⟨c, ⟨more, hc⟩, hne⟩
  refine sequence_of_begins hc.symm ?_
  rintro rfl
  exact hne (by rw [← hc, List.append_nil])

/-- A byte is a bad start just if no character starts with it. -/
lemma sequence_badStart_iff : sequence lead rest = .error .badStart ↔
    ∀ c, (utf8EncodeChar c).head? ≠ some lead := by
  -- Of the three ways to fail only this one does not depend on what follows the byte.
  have hnone : sequence lead rest = .error .badStart ↔ continuations? lead = none := by
    unfold sequence
    cases hn : continuations? lead with
    | none => simp
    | some n =>
      simp only []
      split_ifs <;> simp
  rw [hnone]
  constructor
  · intro hn c hc
    cases hbytes : utf8EncodeChar c with
    | nil => exact absurd hbytes String.utf8EncodeChar_ne_nil
    | cons b tail =>
      rw [hbytes, List.head?_cons, Option.some.injEq] at hc
      rw [← hc, (admits_of_utf8EncodeChar hbytes).1] at hn
      cases hn
  · intro hstart
    cases hn : continuations? lead with
    | none => rfl
    | some n =>
      have hnil : admits lead [] = true := rfl
      obtain ⟨tail, hlen, htail⟩ := exists_completion hnil n
      have hchar := utf8EncodeChar_codePoint (by rw [List.nil_append, hlen, hn]) htail
      exact absurd (congrArg List.head? hchar) (hstart _)

end Sequence

/-! ## Texts -/

section Texts

variable {bytes : List UInt8} {s t : String} {cs ds : List Char}

lemma toList_loop (bytes : ByteArray) (i : Nat) (done : List UInt8) :
    ByteArray.toList.loop bytes i done = done.reverse ++ bytes.data.toList.drop i := by
  fun_induction ByteArray.toList.loop bytes i done with
  | case1 i done hi ih =>
    have hlt : i < bytes.data.toList.length := by simpa using hi
    rw [ih, List.drop_eq_getElem_cons hlt]
    simp [ByteArray.get!, hi]
  | case2 i done hi =>
    rw [List.drop_eq_nil_of_le (by simpa using Nat.le_of_not_lt hi)]
    simp

lemma encode_ofList (cs : List Char) : encode (String.ofList cs) = cs.flatMap utf8EncodeChar := by
  rw [encode, String.toUTF8_eq_toByteArray, String.toByteArray_ofList, ByteArray.toList, toList_loop,
    List.utf8Encode, List.toList_data_toByteArray]
  rfl

/-- No character begins like another one, so a beginning of an encoding that is one itself is the
encoding of a beginning. -/
lemma isPrefix_of_flatMap {b : List UInt8}
    (h : cs.flatMap utf8EncodeChar ++ b = ds.flatMap utf8EncodeChar) : cs <+: ds := by
  refine List.isPrefix_of_utf8Encode_append_eq_utf8Encode b.toByteArray ?_
  rw [List.utf8Encode, List.utf8Encode, ← h, List.toByteArray_append]

lemma encode_inj (h : encode s = encode t) : s = t := by
  rw [← String.ofList_toList (s := s), ← String.ofList_toList (s := t), encode_ofList,
    encode_ofList] at h
  have hst : s.toList <+: t.toList := by
    refine isPrefix_of_flatMap (b := []) ?_
    rw [List.append_nil, h]
  have hts : t.toList <+: s.toList := by
    refine isPrefix_of_flatMap (b := []) ?_
    rw [List.append_nil, h]
  exact String.toList_inj.mp (hst.eq_of_length_le hts.length_le)

/-- The bytes are the encoding of a text. -/
def WellFormed (bytes : List UInt8) : Prop :=
  ∃ s, encode s = bytes

lemma wellFormed_iff : WellFormed bytes ↔ ∃ cs : List Char, cs.flatMap utf8EncodeChar = bytes := by
  constructor
  · rintro ⟨s, rfl⟩
    exact ⟨s.toList, by rw [← encode_ofList, String.ofList_toList]⟩
  · rintro ⟨cs, rfl⟩
    exact ⟨String.ofList cs, encode_ofList cs⟩

/-- Reading finds the characters of all bytes, or those in front of the first sequence that is not
well formed. -/
lemma decodeFrom_spec (position : Nat) (bytes : List UInt8) :
    match decodeFrom position bytes with
    | .ok cs => cs.flatMap utf8EncodeChar = bytes
    | .error e => ∃ (cs : List Char) (tail : List UInt8),
        bytes = cs.flatMap utf8EncodeChar ++ e.byte :: tail ∧
        e.position = position + (cs.flatMap utf8EncodeChar).length ∧
        sequence e.byte tail = .error e.fault := by
  fun_induction decodeFrom position bytes with
  | case1 => simp
  | case2 position lead rest fault h => exact ⟨[], rest, rfl, rfl, h⟩
  | case3 position lead rest c n h ih =>
    obtain ⟨tail, more, rfl, rfl, hc⟩ := char_of_sequence h
    rw [List.drop_left] at ih ⊢
    cases hd : decodeFrom (position + 1 + tail.length) more with
    | ok cs =>
      rw [hd] at ih
      simp only [Functor.map, Except.map, List.flatMap_cons, hc, ih, List.cons_append]
    | error e =>
      rw [hd] at ih
      obtain ⟨cs, behind, hmore, hposition, hfault⟩ := ih
      refine ⟨c :: cs, behind, ?_, ?_, hfault⟩
      · rw [List.flatMap_cons, hc, hmore]
        simp
      · rw [List.flatMap_cons, hc, hposition]
        simp
        omega

/-- The same for `decode`, which makes a text of the characters. -/
lemma decode_spec (bytes : List UInt8) :
    match decode bytes with
    | .ok s => encode s = bytes
    | .error e => ∃ (cs : List Char) (tail : List UInt8),
        bytes = cs.flatMap utf8EncodeChar ++ e.byte :: tail ∧
        e.position = (cs.flatMap utf8EncodeChar).length ∧
        sequence e.byte tail = .error e.fault := by
  have hspec := decodeFrom_spec 0 bytes
  rw [decode]
  cases hd : decodeFrom 0 bytes with
  | ok cs =>
    rw [hd] at hspec
    exact (encode_ofList cs).trans hspec
  | error e =>
    rw [hd] at hspec
    simp only [Nat.zero_add] at hspec
    exact hspec

/-- Behind characters and bytes that start none, nothing is well formed: a longer beginning would
have the characters so far and one more. -/
lemma le_of_wellFormed_take {lead : UInt8} {tail : List UInt8} {fault : Fault} {k : Nat}
    (hfault : sequence lead tail = .error fault)
    (hwell : WellFormed ((cs.flatMap utf8EncodeChar ++ lead :: tail).take k)) :
    k ≤ (cs.flatMap utf8EncodeChar).length := by
  by_contra hlong
  obtain ⟨ds, hds⟩ := wellFormed_iff.mp hwell
  obtain ⟨j, rfl⟩ : ∃ j, k = (cs.flatMap utf8EncodeChar).length + (j + 1) :=
    ⟨k - (cs.flatMap utf8EncodeChar).length - 1, by omega⟩
  rw [List.take_length_add_append, List.take_succ_cons] at hds
  -- The characters of the longer beginning are those of the shorter one and at least one more,
  -- which would have been read.
  obtain ⟨others, rfl⟩ := isPrefix_of_flatMap hds.symm
  rw [List.flatMap_append, List.append_cancel_left_eq] at hds
  cases others with
  | nil => simp at hds
  | cons d others =>
    cases hchar : utf8EncodeChar d with
    | nil => exact absurd hchar String.utf8EncodeChar_ne_nil
    | cons lead' rest =>
      rw [List.flatMap_cons, hchar, List.cons_append] at hds
      obtain ⟨rfl, hrest⟩ := List.cons.inj hds
      have hread := sequence_of_char hchar (others.flatMap utf8EncodeChar ++ tail.drop j)
      rw [← List.append_assoc, hrest, List.take_append_drop, hfault] at hread
      cases hread

/-- What a failed reading tells: where the longest well-formed beginning of the bytes ends, which
byte stands there, and what is wrong with what begins with it. -/
structure StopsAt (bytes : List UInt8) (e : DecodeError) : Prop where
  before : WellFormed (bytes.take e.position)
  longest : ∀ k ≤ bytes.length, WellFormed (bytes.take k) → k ≤ e.position
  byte : bytes[e.position]? = some e.byte
  /-- What is left is the beginning of a character, and not all of it. -/
  truncated : e.fault = .truncated ↔ ∃ c, bytes.drop e.position <+: utf8EncodeChar c ∧
    bytes.drop e.position ≠ utf8EncodeChar c
  /-- No character starts with the byte. -/
  badStart : e.fault = .badStart ↔ ∀ c, (utf8EncodeChar c).head? ≠ some e.byte

lemma stopsAt_of_decode {e : DecodeError} (h : decode bytes = .error e) : StopsAt bytes e := by
  have hspec := decode_spec bytes
  rw [h] at hspec
  obtain ⟨cs, tail, rfl, hposition, hfault⟩ := hspec
  refine ⟨?_, fun k _ hwell => ?_, ?_, ?_, ?_⟩
  · rw [hposition, List.take_left]
    exact wellFormed_iff.mpr ⟨cs, rfl⟩
  · rw [hposition]
    exact le_of_wellFormed_take hfault hwell
  · rw [hposition]
    simp
  · rw [hposition, List.drop_left, ← sequence_truncated_iff, hfault, Except.error.injEq]
  · have hstart : sequence e.byte tail = .error .badStart ↔ _ := sequence_badStart_iff
    rw [← hstart, hfault, Except.error.injEq]

/-- If all bytes were well formed, there would be no byte left to stop at. -/
lemma StopsAt.not_wellFormed {e : DecodeError} (h : StopsAt bytes e) : ¬ WellFormed bytes := by
  intro hwell
  have hlong := h.longest bytes.length (Nat.le_refl _) (by rwa [List.take_length])
  have hbyte := h.byte
  rw [List.getElem?_eq_none hlong] at hbyte
  cases hbyte

/-- Reading finds just the text whose encoding the bytes are. -/
lemma decode_eq_ok_iff : decode bytes = .ok s ↔ encode s = bytes := by
  have hspec := decode_spec bytes
  cases hd : decode bytes with
  | ok t =>
    rw [hd] at hspec
    rw [Except.ok.injEq, ← hspec]
    exact ⟨fun hts => by rw [hts], fun hst => (encode_inj hst).symm⟩
  | error e =>
    refine ⟨fun h => ?_, fun h => ?_⟩
    · cases h
    · exact absurd ⟨s, h⟩ (stopsAt_of_decode hd).not_wellFormed

/-- There is only one place to stop at, and one thing to say about it. -/
lemma StopsAt.unique {e e' : DecodeError} (h : StopsAt bytes e) (h' : StopsAt bytes e') :
    e = e' := by
  have hlt := (List.getElem?_eq_some_iff.mp h.byte).1
  have hlt' := (List.getElem?_eq_some_iff.mp h'.byte).1
  have hposition : e.position = e'.position :=
    Nat.le_antisymm (h'.longest _ (Nat.le_of_lt hlt) h.before)
      (h.longest _ (Nat.le_of_lt hlt') h'.before)
  have hbyte : e.byte = e'.byte := by
    have hsame := h.byte
    rw [hposition, h'.byte, Option.some.injEq] at hsame
    exact hsame.symm
  have htruncated : e.fault = .truncated ↔ e'.fault = .truncated := by
    rw [h.truncated, h'.truncated, hposition]
  have hstart : e.fault = .badStart ↔ e'.fault = .badStart := by
    rw [h.badStart, h'.badStart, hbyte]
  have hfault : e.fault = e'.fault := by
    cases hf : e.fault <;> cases hf' : e'.fault <;> simp_all
  cases e
  cases e'
  simp_all

/-- Reading fails just where the longest well-formed beginning of the bytes ends. -/
lemma decode_eq_error_iff {e : DecodeError} : decode bytes = .error e ↔ StopsAt bytes e := by
  refine ⟨stopsAt_of_decode, fun h => ?_⟩
  cases hd : decode bytes with
  | error e' => rw [(stopsAt_of_decode hd).unique h]
  | ok s =>
    exact absurd ⟨s, decode_eq_ok_iff.mp hd⟩ h.not_wellFormed

end Texts

end NativeCall.Utf8
