import Mathlib.Algebra.Ring.Parity
import NativeCall.Proofs.Format.Scanning

/-!
# Drafts of formats

Reading a format string keeps a count of items for each open group. A `Draft` is what those counts
are counts of: the items that the text read so far describes, outside all groups and in each open
group. `Reads cs d` says that `cs` is a text with that draft. Like the grammar it only says how the
text may be put together: items, an opening character, items of the group, and so on.

Scanning a text that reads as a draft ends in `d.scan`, whatever stands behind the text
(`scanFrom_of_reads`). Scanning stops only behind a text that reads as a draft, at a character that
the draft cannot take (`scanFrom_cases`). So the texts that scan are the viable ones:
`viable_iff_exists_reads`.

## From the grammar to the scanner and back

The grammar is about whole groups and the scanner about one token at a time, so the state of the
scanner in the middle of a group corresponds to nothing in the grammar. Drafts are what is in
between. They are built from the grammar, group by group from the outside, and they have operations
for what a token does: adding an item, opening a group, closing one. Each operation is matched with
the scanner's (`addDirective_scalar`, `addDirective_opening`, `addDirective_closing`).

The direction from the grammar to the scanner is an induction over the derivation of `Items`, in
which the body of a group is scanned before what follows the group. The other direction is an
induction over the text, token by token, and needs no grammar at all; at each token the draft can
take it or is stuck (`addToken_cases`).

## Suffixes

A code with a suffix is one token of two characters, so a text may be cut in the middle of a token.
All statements about a text with something behind it ask that this does not begin with a suffix
(`NoSuffix`), or, in the other direction, say where the scanner stopped in terms of whole tokens.
-/

namespace NativeCall.Format

open Token

/-- The items that a text describes while some of its groups are still open. -/
structure Draft where
  /-- The items outside all groups. -/
  top : List Tree
  /-- The open groups with their items so far, the innermost in front. -/
  groups : List (GroupKind × List Tree)

namespace Draft

/-- Adds items to the innermost group. -/
def add (d : Draft) (ts : List Tree) : Draft :=
  match d.groups with
  | [] => ⟨d.top ++ ts, []⟩
  | (kind, items) :: outer => ⟨d.top, (kind, items ++ ts) :: outer⟩

/-- Opens a group. -/
def opened (d : Draft) (kind : GroupKind) : Draft :=
  ⟨d.top, (kind, []) :: d.groups⟩

/-- A group is open. -/
def inside (d : Draft) : Bool :=
  !d.groups.isEmpty

/-- The kind of the group that was opened last. -/
def innermost? (d : Draft) : Option GroupKind :=
  d.groups.head?.map (·.1)

/-- The steps of the items outside all groups and in the given open groups. -/
def stepsIn (top : List Tree) : List (GroupKind × List Tree) → List Step
  | [] => stepsOf top
  | (kind, items) :: outer => stepsIn top outer ++ ⟨kind.opener, .opening kind⟩ :: stepsOf items

/-- The steps so far. -/
def steps (d : Draft) : List Step :=
  stepsIn d.top d.groups

/-- What reading a text with this draft keeps of it. -/
def scan (d : Draft) : Scan where
  reversed := d.steps.reverse
  argCount := argsOf d.steps
  itemCount := d.top.length
  groups := d.groups.map (fun g => (g.1, g.2.length))

variable (d : Draft) {top : List Tree} {outer : List (GroupKind × List Tree)}

@[simp] lemma add_nil : d.add [] = d := by
  obtain ⟨top, _ | ⟨⟨kind, items⟩, outer⟩⟩ := d <;> simp [add]

lemma add_add (ts us : List Tree) : (d.add ts).add us = d.add (ts ++ us) := by
  obtain ⟨top, _ | ⟨⟨kind, items⟩, outer⟩⟩ := d <;> simp [add]

@[simp] lemma inside_add (ts : List Tree) : (d.add ts).inside = d.inside := by
  obtain ⟨top, _ | ⟨⟨kind, items⟩, outer⟩⟩ := d <;> rfl

@[simp] lemma inside_opened (kind : GroupKind) : (d.opened kind).inside = true := rfl

lemma innermost?_eq_scan : d.innermost? = d.scan.groups.head?.map (·.1) := by
  obtain ⟨top, _ | ⟨g, outer⟩⟩ := d <;> rfl

lemma opened_add (kind : GroupKind) (items : List Tree) :
    (d.opened kind).add items = ⟨d.top, (kind, items) :: d.groups⟩ := rfl

@[simp] lemma steps_add (ts : List Tree) : (d.add ts).steps = d.steps ++ stepsOf ts := by
  obtain ⟨top, _ | ⟨⟨kind, items⟩, outer⟩⟩ := d <;> simp [add, steps, stepsIn]

lemma steps_cons (kind : GroupKind) (items : List Tree) :
    (⟨top, (kind, items) :: outer⟩ : Draft).steps =
      (⟨top, outer⟩ : Draft).steps ++ ⟨kind.opener, .opening kind⟩ :: stepsOf items := rfl

/-! ## What scanning makes of a draft -/

lemma argsOf_append (ss rs : List Step) : argsOf (ss ++ rs) = argsOf ss + argsOf rs := by
  simp only [argsOf, List.filterMap_append, List.length_append, List.countP_append]
  omega

lemma argsOf_scalar (c : Char) (s : Scalar) : argsOf [⟨c, .scalar s⟩] = s.argCount := by
  cases hs : s.isSized <;> simp [argsOf, Step.scalar?, Scalar.argCount, hs]

lemma argsOf_opening (c : Char) (kind : GroupKind) : argsOf [⟨c, .opening kind⟩] = 0 := rfl

lemma argsOf_closing (c : Char) (kind : GroupKind) : argsOf [⟨c, .closing kind⟩] = 0 := rfl

lemma addDirective_scalar (c : Char) (s : Scalar) :
    d.scan.addDirective c (.scalar s) = .ok (d.add [.scalar c s]).scan := by
  have hsteps : (d.add [.scalar c s]).steps = d.steps ++ [⟨c, .scalar s⟩] := by
    rw [steps_add, stepsOf_cons, stepsOf_nil, steps_scalar, List.append_nil]
  simp only [Scan.addDirective, scan, hsteps, List.reverse_append, List.reverse_singleton,
    List.singleton_append, argsOf_append, argsOf_scalar, Except.ok.injEq]
  obtain ⟨top, _ | ⟨⟨kind, items⟩, outer⟩⟩ := d <;> simp [Scan.addItem, add]

lemma addDirective_opening (kind : GroupKind) :
    d.scan.addDirective kind.opener (.opening kind) = .ok (d.opened kind).scan := by
  have hsteps : (⟨d.top, (kind, []) :: d.groups⟩ : Draft).steps =
      d.steps ++ [⟨kind.opener, .opening kind⟩] := by
    rw [steps_cons, stepsOf_nil]
  simp only [Scan.addDirective, opened, scan, hsteps, List.reverse_append, List.reverse_singleton,
    List.singleton_append, argsOf_append, argsOf_opening, Nat.add_zero, List.map_cons,
    List.length_nil]

lemma addDirective_closing {kind : GroupKind} {items : List Tree}
    (he : kind = .dict → Even items.length) :
    (⟨top, (kind, items) :: outer⟩ : Draft).scan.addDirective kind.closer (.closing kind) =
      .ok ((⟨top, outer⟩ : Draft).add [.group kind items]).scan := by
  have hsteps : ((⟨top, outer⟩ : Draft).add [.group kind items]).steps =
      (⟨top, (kind, items) :: outer⟩ : Draft).steps ++ [⟨kind.closer, .closing kind⟩] := by
    rw [steps_add, steps_cons, stepsOf_cons, stepsOf_nil, steps_group, List.append_nil]
    simp only [List.append_assoc, List.cons_append]
  have hodd : ¬ (kind = .dict ∧ items.length % 2 ≠ 0) := by
    rintro ⟨hk, ho⟩
    exact ho (Nat.even_iff.mp (he hk))
  simp only [Scan.addDirective, scan, hsteps, List.reverse_append, List.reverse_singleton,
    List.singleton_append, argsOf_append, argsOf_closing, Nat.add_zero, List.map_cons, ne_eq,
    not_true_eq_false, if_false, if_neg hodd]
  obtain _ | ⟨⟨kind', items'⟩, outer⟩ := outer <;> simp [Scan.addItem, add]

end Draft

/-! ## Texts with a draft -/

/-- `Reads cs d`: the text `cs` consists of the items of `d`, each open group behind its opening
character. -/
inductive Reads : List Char → Draft → Prop where
  | outside {cs : List Char} {ts : List Tree} (h : Items false cs ts) : Reads cs ⟨ts, []⟩
  | inside {cs ds : List Char} {kind : GroupKind} {top items : List Tree}
      {outer : List (GroupKind × List Tree)} (h : Reads cs ⟨top, outer⟩)
      (hi : Items true ds items) :
      Reads (cs ++ kind.opener :: ds) ⟨top, (kind, items) :: outer⟩

namespace Reads

variable {cs ds : List Char} {d : Draft}

lemma empty : Reads [] ⟨[], []⟩ :=
  .outside .nil

lemma add {ts : List Tree} (h : Reads cs d) (hi : Items d.inside ds ts) :
    Reads (cs ++ ds) (d.add ts) := by
  cases h with
  | outside h => exact .outside (h.append hi)
  | inside h hj =>
    rw [List.append_assoc, List.cons_append]
    exact .inside h (hj.append hi)

lemma opened (h : Reads cs d) (kind : GroupKind) :
    Reads (cs ++ [kind.opener]) (d.opened kind) :=
  .inside h .nil

lemma closed {kind : GroupKind} {top items : List Tree} {outer : List (GroupKind × List Tree)}
    (h : Reads cs ⟨top, (kind, items) :: outer⟩) (he : kind = .dict → Even items.length) :
    Reads (cs ++ [kind.closer]) ((⟨top, outer⟩ : Draft).add [.group kind items]) := by
  cases h with
  | @inside cs ds _ _ _ _ h hi =>
    rw [List.append_assoc, List.cons_append]
    exact h.add (.singleton_group hi he)

end Reads

/-! ## Scanning a text with a draft -/

/-- Scanning items adds them to the draft. -/
lemma scanFrom_items {inside : Bool} {cs rest : List Char} {ts : List Tree} {d : Draft}
    (h : Items inside cs ts) (hd : inside = true → d.inside = true) (hr : NoSuffix rest) :
    scanFrom d.scan (cs ++ rest) = scanFrom (d.add ts).scan rest := by
  -- The induction is on how the text is put together, so for a group there is one hypothesis for
  -- its body and one for what stands behind it.
  induction h generalizing d rest with
  | nil => rw [List.nil_append, Draft.add_nil]
  | @separator c cs ts hc h ih =>
    have hj := not_joins_of_noSuffix (h.noSuffix_append hr) c
    have hg : d.scan.groups.isEmpty = false := by
      have := hd rfl
      simpa [Draft.inside, Draft.scan] using this
    rw [List.cons_append, scanFrom_cons _ hj]
    simp only [Scan.addToken, meaning_separator hc, hg]
    exact ih hd hr
  | @scalar inside c suffix cs s ts hs h ih =>
    have hstep : d.scan.addToken ⟨c, !suffix.isEmpty⟩ = .ok (d.add [.scalar c s]).scan := by
      rw [addToken_of_meaning (t := ⟨c, !suffix.isEmpty⟩) (meaning_of_spells hs)]
      exact d.addDirective_scalar c s
    have hscan : scanFrom d.scan (c :: (suffix ++ cs) ++ rest) =
        d.scan.addToken ⟨c, !suffix.isEmpty⟩ >>= (scanFrom · (cs ++ rest)) := by
      rcases joins_of_spells hs with rfl | ⟨x, rfl, hj⟩
      · exact scanFrom_cons _ (not_joins_of_noSuffix (h.noSuffix_append hr) c)
      · exact scanFrom_joined _ _ hj
    rw [hscan, hstep]
    show scanFrom (d.add [.scalar c s]).scan (cs ++ rest) = _
    rw [ih (by simpa using hd) hr, Draft.add_add, List.singleton_append]
  | @group inside kind body cs items ts hb he h ihb ih =>
    have hclose := noSuffix_closer kind (cs ++ rest)
    -- The opening character is not joined by the first character of the body, since no item starts
    -- with a suffix.
    have hopen := not_joins_of_noSuffix (hb.noSuffix_append hclose) kind.opener
    have hnext := not_joins_of_noSuffix (h.noSuffix_append hr) kind.closer
    have hassoc : kind.opener :: (body ++ kind.closer :: cs) ++ rest =
        kind.opener :: (body ++ kind.closer :: (cs ++ rest)) := by simp
    rw [hassoc, scanFrom_cons _ hopen,
      addToken_of_meaning (t := ⟨kind.opener, false⟩) (meaning_opener kind),
      d.addDirective_opening kind]
    show scanFrom (d.opened kind).scan (body ++ kind.closer :: (cs ++ rest)) = _
    rw [ihb (by simp) hclose, scanFrom_cons _ hnext,
      addToken_of_meaning (t := ⟨kind.closer, false⟩) (meaning_closer kind), Draft.opened_add,
      Draft.addDirective_closing he]
    show scanFrom (d.add [.group kind items]).scan (cs ++ rest) = _
    rw [ih (by simpa using hd) hr, Draft.add_add, List.singleton_append]

/-- Scanning a text with a draft keeps what the draft says. -/
theorem scanFrom_of_reads {cs rest : List Char} {d : Draft} (h : Reads cs d)
    (hr : NoSuffix rest) : scanFrom {} (cs ++ rest) = scanFrom d.scan rest := by
  induction h generalizing rest with
  | outside h => exact scanFrom_items (d := ⟨[], []⟩) h (by simp) hr
  | @inside cs ds kind top items outer h hi ih =>
    have hopen := not_joins_of_noSuffix (hi.noSuffix_append hr) kind.opener
    have hfirst : NoSuffix (kind.opener :: (ds ++ rest)) := by
      intro c hc
      obtain rfl : kind.opener = c := by simpa using hc
      cases kind <;> decide
    rw [List.append_assoc, List.cons_append, ih hfirst, scanFrom_cons _ hopen,
      addToken_of_meaning (t := ⟨kind.opener, false⟩) (meaning_opener kind),
      Draft.addDirective_opening]
    exact scanFrom_items hi (by simp) hr

lemma scanFrom_eq_of_reads {cs : List Char} {d : Draft} (h : Reads cs d) :
    scanFrom {} cs = .ok d.scan := by
  have hs := @scanFrom_of_reads _ [] _ h (by simp [NoSuffix])
  rwa [List.append_nil, scanFrom_nil] at hs

/-! ## Every text scans to a draft, or stops behind one -/

/-- Why the character `c` ends the reading of a text with a draft. -/
inductive Stuck (d : Draft) : Char → FormatError → Prop where
  | badChar {c : Char} (hs : c ∉ separators) (hc : ∀ kind, c ≠ GroupKind.closer kind) :
      Stuck d c (.badChar c)
  | separator {c : Char} (hs : c ∈ separators) (hd : d.inside = false) :
      Stuck d c .separatorOutsideGroup
  | oddDict {items : List Tree} {outer : List (GroupKind × List Tree)}
      (hd : d.groups = (.dict, items) :: outer) (ho : Odd items.length) :
      Stuck d GroupKind.dict.closer .oddDictItems
  | unopened {kind : GroupKind} (hd : d.innermost? ≠ some kind) :
      Stuck d kind.closer (.unopened kind)

/-- A closing character closes the innermost group, or nothing can. -/
lemma addDirective_closing_cases (d : Draft) (kind : GroupKind) :
    (∃ items outer, d.groups = (kind, items) :: outer ∧ (kind = .dict → Even items.length)) ∨
    ∃ e, d.scan.addDirective kind.closer (.closing kind) = .error e ∧ Stuck d kind.closer e := by
  obtain ⟨top, _ | ⟨⟨innermost, items⟩, outer⟩⟩ := d
  · exact .inr ⟨.unopened kind, rfl, .unopened (by simp [Draft.innermost?])⟩
  · by_cases hk : innermost = kind
    · subst hk
      by_cases he : innermost = .dict → Even items.length
      · exact .inl ⟨items, outer, rfl, he⟩
      · obtain ⟨rfl, ho⟩ := Classical.not_imp.mp he
        rw [Nat.not_even_iff_odd] at ho
        refine .inr ⟨.oddDictItems, ?_, .oddDict rfl ho⟩
        have hmod : items.length % 2 ≠ 0 := by
          rw [Nat.odd_iff.mp ho]
          decide
        simp [Scan.addDirective, Draft.scan, hmod]
    · refine .inr ⟨.unopened kind, ?_, .unopened (by simpa [Draft.innermost?] using hk)⟩
      simp [Scan.addDirective, Draft.scan, hk]

/-- A token without a suffix extends the draft, or the draft cannot take it. -/
lemma addToken_cases {cs : List Char} {d : Draft} (h : Reads cs d) (c : Char) :
    (∃ d', d.scan.addToken ⟨c, false⟩ = .ok d'.scan ∧ Reads (cs ++ [c]) d') ∨
    ∃ e, d.scan.addToken ⟨c, false⟩ = .error e ∧ Stuck d c e := by
  -- A character that is no code and no bracket is the only one that fails whatever the draft is.
  rcases meaning_cases c with ⟨s, hs, hm⟩ | ⟨kind, rfl, hm⟩ | ⟨kind, rfl, hm⟩ | ⟨hs, hm⟩ |
    ⟨hs, hc, hm⟩
  · left
    rw [addToken_of_meaning hm]
    exact ⟨_, d.addDirective_scalar c s, h.add (.singleton_scalar hs)⟩
  · left
    rw [addToken_of_meaning hm]
    exact ⟨_, d.addDirective_opening kind, h.opened kind⟩
  · rw [addToken_of_meaning hm]
    rcases addDirective_closing_cases d kind with ⟨items, outer, hg, he⟩ | hstuck
    · left
      obtain ⟨top, groups⟩ := d
      subst hg
      exact ⟨_, Draft.addDirective_closing he, h.closed he⟩
    · exact .inr hstuck
  · by_cases hd : d.inside = true
    · left
      refine ⟨d, ?_, ?_⟩
      · have hg : d.scan.groups.isEmpty = false := by
          simpa [Draft.inside, Draft.scan] using hd
        simp [Scan.addToken, hm, hg]
      · have hitem : Items d.inside [c] [] := by
          rw [hd]
          exact .singleton_separator hs
        have hadd := h.add hitem
        rwa [Draft.add_nil] at hadd
    · right
      have hg : d.scan.groups.isEmpty = true := by
        simpa [Draft.inside, Draft.scan] using hd
      exact ⟨.separatorOutsideGroup, by simp [Scan.addToken, hm, hg],
        .separator hs (by simpa using hd)⟩
  · right
    exact ⟨.badChar c, by simp [Scan.addToken, hm], .badChar hs hc⟩

/-- A code and the suffix that joins it extend every draft. -/
lemma addToken_joined {cs : List Char} {d : Draft} (h : Reads cs d) {c x : Char}
    (hj : joins c x = true) :
    ∃ d', d.scan.addToken ⟨c, true⟩ = .ok d'.scan ∧ Reads (cs ++ [c, x]) d' := by
  obtain ⟨s, hs⟩ := spells_of_joins hj
  rw [addToken_of_meaning (t := ⟨c, true⟩) (meaning_of_spells hs)]
  exact ⟨_, d.addDirective_scalar c s, h.add (.singleton_scalar hs)⟩

/-- Scanning on from a draft ends in a draft, or behind one that cannot take the next character. -/
theorem scanFrom_cases {cs : List Char} {d : Draft} (h : Reads cs d) (more : List Char) :
    (∃ d', scanFrom d.scan more = .ok d'.scan ∧ Reads (cs ++ more) d') ∨
    ∃ read c rest d' e, more = read ++ c :: rest ∧ Reads (cs ++ read) d' ∧ Stuck d' c e ∧
      scanFrom d.scan (read ++ [c]) = .error e := by
  induction more using Token.ofChars.induct generalizing cs d with
  | case1 => exact .inl ⟨d, scanFrom_nil _, by rwa [List.append_nil]⟩
  | case2 c =>
    rw [scanFrom_cons _ (by simp)]
    rcases addToken_cases h c with ⟨d', hs, hr⟩ | ⟨e, he, hstuck⟩
    · exact .inl ⟨d', by rw [hs]; rfl, hr⟩
    · refine .inr ⟨[], c, [], d, e, rfl, by rwa [List.append_nil], hstuck, ?_⟩
      rw [List.nil_append, scanFrom_cons _ (by simp), he]
      rfl
  -- A code and its suffix are taken in together and never fail.
  | case3 c x rest hj ih =>
    obtain ⟨d', hs, hr⟩ := addToken_joined h hj
    rcases ih hr with ⟨d'', hs', hr'⟩ | ⟨read, c', rest', d'', e, rfl, hr', hstuck, he⟩
    · refine .inl ⟨d'', ?_, by simpa using hr'⟩
      rw [scanFrom_joined _ _ hj, hs]
      exact hs'
    · refine .inr ⟨c :: x :: read, c', rest', d'', e, rfl, by simpa using hr', hstuck, ?_⟩
      rw [List.cons_append, List.cons_append, scanFrom_joined _ _ hj, hs]
      exact he
  | case4 c x rest hj ih =>
    rcases addToken_cases h c with ⟨d', hs, hr⟩ | ⟨e, he, hstuck⟩
    · rcases ih hr with ⟨d'', hs', hr'⟩ | ⟨read, c', rest', d'', e, hsplit, hr', hstuck, he⟩
      · refine .inl ⟨d'', ?_, by simpa using hr'⟩
        rw [scanFrom_cons _ (by simpa using hj), hs]
        exact hs'
      · have hj' : ∀ y ∈ (read ++ [c']).head?, joins c y = false := by
          cases read <;> simp_all
        refine .inr ⟨c :: read, c', rest', d'', e, by rw [hsplit, List.cons_append],
          by simpa using hr', hstuck, ?_⟩
        rw [List.cons_append, scanFrom_cons _ hj', hs]
        exact he
    · refine .inr ⟨[], c, x :: rest, d, e, rfl, by rwa [List.append_nil], hstuck, ?_⟩
      rw [List.nil_append, scanFrom_cons _ (by simp), he]
      rfl

/-! ## Drafts and viability -/

/-- The innermost group of a draft can be closed; a dict group that lacks an item gets one
first. -/
lemma Reads.exists_closed {cs : List Char} {kind : GroupKind} {top items : List Tree}
    {outer : List (GroupKind × List Tree)} (h : Reads cs ⟨top, (kind, items) :: outer⟩) :
    ∃ more ts, Reads (cs ++ more) ((⟨top, outer⟩ : Draft).add ts) := by
  by_cases he : Even items.length
  · exact ⟨_, _, h.closed (fun _ => he)⟩
  · have hadd := h.add (.singleton_scalar Spells.byte)
    have heven : Even (items ++ [Tree.scalar 'c' .byte]).length := by
      rw [List.length_append, List.length_singleton, Nat.even_add_one]
      exact he
    have hclosed := Reads.closed hadd (fun _ => heven)
    rw [List.append_assoc] at hclosed
    exact ⟨_, _, hclosed⟩

/-- All open groups of a draft can be closed. -/
lemma Reads.viable {cs : List Char} {d : Draft} (h : Reads cs d) : Viable cs := by
  induction hn : d.groups.length generalizing cs d with
  | zero =>
    obtain ⟨top, groups⟩ := d
    obtain rfl := List.length_eq_zero_iff.mp hn
    cases h with
    | outside h => exact Valid.viable ⟨top, h⟩
  | succ n ih =>
    obtain ⟨top, _ | ⟨⟨kind, items⟩, outer⟩⟩ := d
    · cases hn
    · obtain ⟨more, ts, hr⟩ := h.exists_closed
      have hlen : ((⟨top, outer⟩ : Draft).add ts).groups.length = n := by
        obtain _ | ⟨g, outer⟩ := outer <;> simpa [Draft.add, eq_comm] using hn
      exact (ih hr hlen).of_append

/-- A text is viable exactly if it has a draft. -/
theorem viable_iff_exists_reads {cs : List Char} : Viable cs ↔ ∃ d, Reads cs d := by
  constructor
  · rintro ⟨rest, ts, hts⟩
    rcases scanFrom_cases .empty cs with ⟨d, -, hr⟩ | ⟨read, c, more, d, e, rfl, -, -, he⟩
    · exact ⟨d, hr⟩
    · -- Scanning would stop inside a valid text.
      have herr := scanFrom_append_of_error he (more ++ rest)
      have hok := scanFrom_eq_of_reads (.outside hts)
      rw [List.append_assoc, List.cons_append] at hok
      rw [List.append_assoc, List.singleton_append] at herr
      cases herr.symm.trans hok
  · rintro ⟨d, h⟩
    exact h.viable

end NativeCall.Format
