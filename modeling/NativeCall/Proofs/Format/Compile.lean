import NativeCall.Proofs.Format.Draft

/-!
# Which format strings are accepted

`Format.compile` accepts the texts of the grammar and keeps of each the steps of its items, the
number of arguments that they take and the number of items outside all groups. Of any other text it
says why: the text ends too early if something could still be put behind it, and otherwise the first
character that nothing could follow decides.

The last point is what makes diagnostics stable. Nothing that stands behind the deciding character
is looked at, so a longer text with the same beginning has the same fault.

Three facts are put together here, and each of them comes from a module of its own: a text has one
parse at most (`Items.unique`, because the steps determine the trees), scanning ends in a draft or
behind one (`scanFrom_cases`), and the texts with a draft are the viable ones
(`viable_iff_exists_reads`). What is left is that a fault is unique. The place is, since a text that
is viable has viable beginnings only, so there is one position at which viability ends
(`split_unique`). The fault is, since at that position the draft decides, and of the draft nothing
but the kind of the innermost group (`Stuck.unique`); two drafts of one text agree in that, although
it is not said that they are equal.

The unclosed group is apart from the other faults. It is found at the end of the text and not at a
character, and it is the one fault that more text may cure.
-/

namespace NativeCall.Format

lemma compile_eq (source : String) :
    compile source = scanFrom {} source.toList >>= (·.finish source) := rfl

/-- A text has one parse only. -/
lemma Items.unique {cs : List Char} {ts us : List Tree} (ht : Items false cs ts)
    (hu : Items false cs us) : ts = us := by
  have hscan : (⟨ts, []⟩ : Draft).scan = (⟨us, []⟩ : Draft).scan := by
    have h := (scanFrom_eq_of_reads (.outside ht)).symm.trans (scanFrom_eq_of_reads (.outside hu))
    exact Except.ok.inj h
  have hsteps : (stepsOf ts).reverse = (stepsOf us).reverse := congrArg Scan.reversed hscan
  exact stepsOf_injective (List.reverse_inj.mp hsteps)

lemma closer_injective {kind kind' : GroupKind} (h : kind.closer = kind'.closer) :
    kind = kind' := by
  cases kind <;> cases kind' <;> first | rfl | exact absurd h (by decide)

lemma closer_not_mem_separators (kind : GroupKind) : kind.closer ∉ separators := by
  cases kind <;> decide

/-- The kind of the innermost group decides why a character cannot follow. -/
lemma Stuck.unique {d d' : Draft} {c : Char} {e e' : FormatError} (h : Stuck d c e)
    (h' : Stuck d' c e') (hk : d.innermost? = d'.innermost?) : e = e' := by
  -- A dict group that could be closed but for its number of items is the innermost one, so no other
  -- fault is possible for that character.
  have hdict : ∀ {d : Draft} {items outer}, d.groups = (.dict, items) :: outer →
      d.innermost? = some .dict := by
    intro d items outer hd
    rw [Draft.innermost?, hd]
    rfl
  generalize hc : c = x at h'
  cases h with
  | badChar hs hn =>
    cases h' with
    | badChar => rw [hc]
    | separator hs' => exact absurd (hc ▸ hs') hs
    | oddDict => exact absurd hc (hn _)
    | unopened => exact absurd hc (hn _)
  | separator hs =>
    cases h' with
    | badChar hs' => exact absurd (hc ▸ hs) hs'
    | separator => rfl
    | oddDict => exact absurd (hc ▸ hs) (closer_not_mem_separators _)
    | unopened => exact absurd (hc ▸ hs) (closer_not_mem_separators _)
  | oddDict hd =>
    cases h' with
    | badChar _ hn' => exact absurd hc.symm (hn' _)
    | separator hs' => exact absurd (hc ▸ hs') (closer_not_mem_separators _)
    | oddDict => rfl
    | unopened hd' =>
      obtain rfl := closer_injective hc
      exact absurd (hk.symm.trans (hdict hd)) hd'
  | unopened hd =>
    cases h' with
    | badChar _ hn' => exact absurd hc.symm (hn' _)
    | separator hs' => exact absurd (hc ▸ hs') (closer_not_mem_separators _)
    | oddDict hd' =>
      obtain rfl := closer_injective hc
      exact absurd (hk.trans (hdict hd')) hd
    | unopened => rw [closer_injective hc]

lemma innermost?_unique {cs : List Char} {d d' : Draft} (h : Reads cs d) (h' : Reads cs d') :
    d.innermost? = d'.innermost? := by
  have hscan : d.scan = d'.scan :=
    Except.ok.inj ((scanFrom_eq_of_reads h).symm.trans (scanFrom_eq_of_reads h'))
  rw [Draft.innermost?_eq_scan, Draft.innermost?_eq_scan, hscan]

/-- There is only one place where a text stops being viable. -/
lemma split_unique {p q rest rest' : List Char} {c c' : Char}
    (h : p ++ c :: rest = q ++ c' :: rest') (hp : Viable p) (hpc : ¬ Viable (p ++ [c]))
    (hq : Viable q) (hqc : ¬ Viable (q ++ [c'])) : p = q ∧ c = c' := by
  rcases List.append_eq_append_iff.mp h with ⟨more, rfl, hmore⟩ | ⟨more, rfl, hmore⟩
  · cases more with
    | nil => exact ⟨by simp, by simpa using (List.cons.inj hmore).1⟩
    | cons x more =>
      obtain rfl := (List.cons.inj hmore).1
      refine absurd (@Viable.of_append _ more ?_) hpc
      rwa [List.append_assoc, List.singleton_append]
  · cases more with
    | nil => exact ⟨by simp, by simpa using (List.cons.inj hmore).1.symm⟩
    | cons x more =>
      obtain rfl := (List.cons.inj hmore).1
      refine absurd (@Viable.of_append _ more ?_) hqc
      rwa [List.append_assoc, List.singleton_append]

/-! ## The outcomes -/

lemma finish_scan (d : Draft) (source : String) :
    d.scan.finish source =
      if d.inside then .error .unclosed
      else .ok ⟨source, d.steps, argsOf d.steps, d.top.length⟩ := by
  obtain ⟨top, _ | ⟨g, outer⟩⟩ := d <;> simp [Scan.finish, Draft.scan, Draft.inside]

lemma compile_of_items {source : String} {ts : List Tree} (h : Items false source.toList ts) :
    compile source = .ok (ofTrees source ts) := by
  rw [compile_eq, scanFrom_eq_of_reads (.outside h)]
  exact finish_scan ⟨ts, []⟩ source

lemma compile_of_reads_inside {source : String} {d : Draft} (h : Reads source.toList d)
    (hd : d.inside = true) : compile source = .error .unclosed := by
  rw [compile_eq, scanFrom_eq_of_reads h]
  show d.scan.finish source = _
  rw [finish_scan, if_pos hd]

lemma compile_of_stuck {source : String} {p rest : List Char} {c : Char} {e : FormatError}
    (hs : source.toList = p ++ c :: rest) (h : scanFrom {} (p ++ [c]) = .error e) :
    compile source = .error e := by
  have herr := scanFrom_append_of_error h rest
  rw [List.append_assoc, List.singleton_append] at herr
  rw [compile_eq, hs, herr]
  rfl

lemma not_viable_of_scanFrom_error {cs : List Char} {e : FormatError}
    (h : scanFrom {} cs = .error e) : ¬ Viable cs := by
  intro hv
  obtain ⟨d, hd⟩ := viable_iff_exists_reads.mp hv
  cases h.symm.trans (scanFrom_eq_of_reads hd)

lemma Stuck.ne_unclosed {d : Draft} {c : Char} {e : FormatError} (h : Stuck d c e) :
    e ≠ .unclosed := by
  cases h <;> simp

lemma Reads.valid {cs : List Char} {d : Draft} (h : Reads cs d) (hd : d.inside = false) :
    Valid cs := by
  cases h with
  | outside h => exact ⟨_, h⟩
  | inside => cases hd

/-- Every text is valid, ends too early, or has a first character that nothing can follow. -/
lemma compile_cases (source : String) :
    (∃ ts, Items false source.toList ts) ∨
    (Viable source.toList ∧ ¬ Valid source.toList ∧ compile source = .error .unclosed) ∨
    ∃ p c rest d e, source.toList = p ++ c :: rest ∧ Reads p d ∧ Stuck d c e ∧
      scanFrom {} (p ++ [c]) = .error e := by
  rcases scanFrom_cases .empty source.toList with
    ⟨d, -, hr⟩ | ⟨p, c, rest, d, e, hs, hr, hstuck, he⟩
  · cases hd : d.inside with
    | false => exact .inl (hr.valid hd)
    | true =>
      refine .inr (.inl ⟨hr.viable, ?_, compile_of_reads_inside hr hd⟩)
      rintro ⟨ts, hts⟩
      cases (compile_of_items hts).symm.trans (compile_of_reads_inside hr hd)
  · exact .inr (.inr ⟨p, c, rest, d, e, hs, hr, hstuck, he⟩)

lemma compile_eq_ok_iff (source : String) (f : Format) :
    compile source = .ok f ↔ ∃ ts, Items false source.toList ts ∧ f = ofTrees source ts := by
  constructor
  · intro h
    rcases compile_cases source with ⟨ts, hts⟩ | ⟨-, -, herr⟩ | ⟨p, c, rest, d, e, hs, -, -, he⟩
    · exact ⟨ts, hts, Except.ok.inj (h.symm.trans (compile_of_items hts))⟩
    · cases h.symm.trans herr
    · cases h.symm.trans (compile_of_stuck hs he)
  · rintro ⟨ts, hts, rfl⟩
    exact compile_of_items hts

lemma compile_eq_unclosed_iff (source : String) :
    compile source = .error .unclosed ↔ Viable source.toList ∧ ¬ Valid source.toList := by
  constructor
  · intro h
    rcases compile_cases source with ⟨ts, hts⟩ | ⟨hv, hn, -⟩ | ⟨p, c, rest, d, e, hs, -, hstuck, he⟩
    · cases h.symm.trans (compile_of_items hts)
    · exact ⟨hv, hn⟩
    · obtain rfl := Except.error.inj (h.symm.trans (compile_of_stuck hs he))
      exact absurd rfl hstuck.ne_unclosed
  · rintro ⟨hv, hn⟩
    obtain ⟨d, hd⟩ := viable_iff_exists_reads.mp hv
    cases hi : d.inside with
    | false => exact absurd (hd.valid hi) hn
    | true => exact compile_of_reads_inside hd hi

/-- A fault that is not the end of the text was found at some character. -/
lemma exists_stuck_of_compile_error {source : String} {e : FormatError}
    (h : compile source = .error e) (he : e ≠ .unclosed) :
    ∃ p c rest d, source.toList = p ++ c :: rest ∧ Reads p d ∧ Stuck d c e ∧
      scanFrom {} (p ++ [c]) = .error e := by
  rcases compile_cases source with
    ⟨ts, hts⟩ | ⟨-, -, herr⟩ | ⟨p, c, rest, d, e', hs, hr, hstuck, he'⟩
  · cases h.symm.trans (compile_of_items hts)
  · exact absurd (Except.error.inj (h.symm.trans herr)) he
  · obtain rfl := Except.error.inj (h.symm.trans (compile_of_stuck hs he'))
    exact ⟨p, c, rest, d, hs, hr, hstuck, he'⟩

lemma compile_eq_error_iff (source : String) {e : FormatError} (he : e ≠ .unclosed) :
    compile source = .error e ↔
      ∃ p c rest d, source.toList = p ++ c :: rest ∧ Viable p ∧ ¬ Viable (p ++ [c]) ∧
        Reads p d ∧ Stuck d c e := by
  constructor
  · intro h
    obtain ⟨p, c, rest, d, hs, hr, hstuck, hscan⟩ := exists_stuck_of_compile_error h he
    exact ⟨p, c, rest, d, hs, hr.viable, not_viable_of_scanFrom_error hscan, hr, hstuck⟩
  · rintro ⟨p, c, rest, d, hs, hp, hn, hr, hstuck⟩
    have hnot : ¬ Viable source.toList := by
      intro hv
      rw [hs, ← List.singleton_append, ← List.append_assoc] at hv
      exact hn hv.of_append
    rcases compile_cases source with
      ⟨ts, hts⟩ | ⟨hv, -, -⟩ | ⟨q, c', rest', d', e', hs', hr', hstuck', he'⟩
    · exact absurd (Valid.viable ⟨ts, hts⟩) hnot
    · exact absurd hv hnot
    · have hn' := not_viable_of_scanFrom_error he'
      obtain ⟨rfl, rfl⟩ := split_unique (hs.symm.trans hs') hp hn hr'.viable hn'
      rw [compile_of_stuck hs' he', hstuck.unique hstuck' (innermost?_unique hr hr')]

lemma compile_append_of_error {source : String} {e : FormatError} (he : e ≠ .unclosed)
    (h : compile source = .error e) (more : String) : compile (source ++ more) = .error e := by
  obtain ⟨p, c, rest, d, hs, -, -, hscan⟩ := exists_stuck_of_compile_error h he
  have hmore : (source ++ more).toList = p ++ c :: (rest ++ more.toList) := by
    rw [String.toList_append, hs, List.append_assoc, List.cons_append]
  exact compile_of_stuck hmore hscan

/-- **Reading decides the grammar, as early as possible.** A text has at most one parse, and it is
accepted with exactly its steps and counts if it has one. It ends too early exactly if it is viable
but not valid. Every other fault is told by the first character behind which no text is viable, and
stays the same whatever is put behind the text. -/
theorem compile_decides_grammar (source : String) :
    (∀ ts us, Items false source.toList ts → Items false source.toList us → ts = us) ∧
    (∀ f, compile source = .ok f ↔
      ∃ ts, Items false source.toList ts ∧ f = ofTrees source ts) ∧
    (compile source = .error .unclosed ↔ Viable source.toList ∧ ¬ Valid source.toList) ∧
    (∀ e, e ≠ .unclosed → (compile source = .error e ↔
      ∃ p c rest d, source.toList = p ++ c :: rest ∧ Viable p ∧ ¬ Viable (p ++ [c]) ∧
        Reads p d ∧ Stuck d c e)) ∧
    (∀ e more, e ≠ .unclosed → compile source = .error e →
      compile (source ++ more) = .error e) :=
  ⟨fun _ _ => Items.unique, compile_eq_ok_iff source, compile_eq_unclosed_iff source,
    fun _ he => compile_eq_error_iff source he,
    fun _ more he h => compile_append_of_error he h more⟩

end NativeCall.Format
