import NativeCall.Proofs.Build.Frames
import NativeCall.Proofs.Format.Compile

/-!
# Where the steps of a format are written

The steps of a format stand in its text one behind the other, each as a character and perhaps the
suffix behind it. `Writes s cs taken code x` says of a place in a text `cs` that the character
`code` writes the scalar `x` there, and how many arguments reading has counted when it gets there.
It looks at the text in front of the place only, so it does not depend on what the whole text is
read as.

For a text that can be read, the places are just the scalar steps that reading keeps (`writes_iff`).
A scalar at a place asks for the argument behind those that are counted there, and for the next one,
a length, if it takes two (`Asks`). So every argument of a format is asked for by one character of
its text: `asks_unique`.

This is what a missing argument is reported with. The machine that builds values stops at a step,
and its message names the character of that step and the number of the argument. The user sees a
format string; that the character in the message is the one in the string that asks for that number
is not obvious from the machine, which counts arguments as it takes them, nor from the compiler,
which counts them as it reads. The two counts meet here.

An argument belongs to a place by arithmetic alone: the scalar at the place takes the arguments from
the number counted there up to its own. Different places have different intervals, since the count
never goes down and goes up at each scalar, and the intervals have no gaps. That is existence and
uniqueness in `asks_unique`.
-/

namespace NativeCall.Format

open Token

variable {s s' : Scan} {cs : List Char}

/-! ## One token -/

lemma argCount_addItem (s : Scan) : s.addItem.argCount = s.argCount := by
  unfold Scan.addItem
  split <;> rfl

/-- A scalar counts for the arguments that it takes, and the brackets of a group for none. -/
lemma argCount_addDirective {code : Char} {d : Directive} (h : s.addDirective code d = .ok s') :
    s'.argCount = s.argCount + argsOf [⟨code, d⟩] := by
  unfold Scan.addDirective at h
  cases d with
  | scalar x =>
    obtain rfl := Except.ok.inj h
    rw [argCount_addItem, Draft.argsOf_scalar]
  | opening kind =>
    obtain rfl := Except.ok.inj h
    rw [Draft.argsOf_opening, Nat.add_zero]
  | closing kind =>
    rw [Draft.argsOf_closing, Nat.add_zero]
    simp only at h
    split at h
    · split_ifs at h
      obtain rfl := Except.ok.inj h
      rw [argCount_addItem]
    · simp at h

/-- A token is a step or none. -/
lemma addToken_inv {t : Token} (h : s.addToken t = .ok s') :
    ∃ steps : List Step, s'.reversed = steps.reverse ++ s.reversed ∧
      s'.argCount = s.argCount + argsOf steps ∧
      ∀ st ∈ steps, steps = [st] ∧ st.code = t.code ∧ t.meaning = .directive st.directive := by
  unfold Scan.addToken at h
  split at h
  case h_1 d hm =>
    refine ⟨[⟨t.code, d⟩], ?_, argCount_addDirective h, ?_⟩
    · simpa using Scan.reversed_addDirective h
    · simp [hm]
  case h_2 =>
    split_ifs at h
    obtain rfl := Except.ok.inj h
    exact ⟨[], by simp [argsOf]⟩
  case h_3 => simp at h

/-- The suffix that a token may have behind its character. -/
def SuffixOf (c : Char) (suffix : List Char) : Prop :=
  suffix = [] ∨ ∃ d, suffix = [d] ∧ joins c d = true

lemma spells_of_meaning {c : Char} {suffix : List Char} {x : Scalar} (hs : SuffixOf c suffix)
    (h : (⟨c, !suffix.isEmpty⟩ : Token).meaning = .directive (.scalar x)) : Spells c suffix x := by
  obtain rfl | ⟨d, rfl, hj⟩ := hs
  · have hm : (⟨c, false⟩ : Token).meaning = .directive (.scalar x) := h
    rcases meaning_cases c with ⟨y, hy, hc⟩ | ⟨_, _, hc⟩ | ⟨_, _, hc⟩ | ⟨_, hc⟩ | ⟨_, _, hc⟩
    · rw [hm] at hc
      simp only [Meaning.directive.injEq, Directive.scalar.injEq] at hc
      rwa [hc]
    all_goals simp [hm] at hc
  · obtain ⟨y, hy⟩ := spells_of_joins hj
    have hc := meaning_of_spells hy
    rw [h] at hc
    simp only [Meaning.directive.injEq, Directive.scalar.injEq] at hc
    rwa [hc]

lemma scanFrom_token {c : Char} {suffix : List Char} (hs : SuffixOf c suffix)
    (hr : NoSuffix cs) : scanFrom s (c :: (suffix ++ cs)) =
      s.addToken ⟨c, !suffix.isEmpty⟩ >>= (scanFrom · cs) := by
  obtain rfl | ⟨d, rfl, hj⟩ := hs
  · exact scanFrom_cons s (not_joins_of_noSuffix hr c)
  · exact scanFrom_joined s cs hj

/-- A text that can be read does not start with a suffix. -/
lemma noSuffix_of_scanFrom (h : scanFrom s cs = .ok s') : NoSuffix cs := by
  intro c hc hmem
  obtain ⟨ds, rfl⟩ : ∃ ds, cs = c :: ds := by
    cases cs with
    | nil => simp at hc
    | cons x ds => exact ⟨ds, by simpa using hc⟩
  have hcut : scanFrom s (c :: ds) = s.addToken ⟨c, false⟩ >>= (scanFrom · ds) := by
    refine scanFrom_cons s (fun d _ => ?_)
    simp only [suffixes, List.mem_cons, List.not_mem_nil, or_false] at hmem
    rcases hmem with rfl | rfl <;> simp [joins, takesLength]
  have hbad : s.addToken ⟨c, false⟩ = .error (.badChar c) := by
    simp only [suffixes, List.mem_cons, List.not_mem_nil, or_false] at hmem
    rcases hmem with rfl | rfl <;> rfl
  rw [hcut, hbad] at h
  cases h

/-- Reading starts with the longest token that it can. -/
lemma exists_token {c : Char} (h : scanFrom s (c :: cs) = .ok s') :
    ∃ suffix rest s₁, cs = suffix ++ rest ∧ SuffixOf c suffix ∧
      s.addToken ⟨c, !suffix.isEmpty⟩ = .ok s₁ ∧ scanFrom s₁ rest = .ok s' := by
  have hfirst : ∀ {t : Token} {rest : List Char},
      (s.addToken t >>= (scanFrom · rest)) = .ok s' →
      ∃ s₁, s.addToken t = .ok s₁ ∧ scanFrom s₁ rest = .ok s' := by
    intro t rest ht
    cases hadd : s.addToken t with
    | error e => simp [hadd, bind, Except.bind] at ht
    | ok s₁ => exact ⟨s₁, rfl, by simpa [hadd, bind, Except.bind] using ht⟩
  by_cases hj : ∀ d ∈ cs.head?, joins c d = false
  · rw [scanFrom_cons s hj] at h
    obtain ⟨s₁, hadd, hrest⟩ := hfirst h
    exact ⟨[], cs, s₁, rfl, .inl rfl, hadd, hrest⟩
  · push Not at hj
    obtain ⟨d, hd, hj⟩ := hj
    obtain ⟨rest, rfl⟩ : ∃ rest, cs = d :: rest := by
      cases cs with
      | nil => simp at hd
      | cons x rest => exact ⟨rest, by simpa using hd⟩
    have hj : joins c d = true := by simpa using hj
    rw [scanFrom_joined s rest hj] at h
    obtain ⟨s₁, hadd, hrest⟩ := hfirst h
    exact ⟨[d], rest, s₁, rfl, .inr ⟨d, rfl, hj⟩, hadd, hrest⟩

/-! ## Places in a text -/

/-- In the text `cs`, which is read on from `s`, the character `code` with the suffix behind it
writes the scalar `x`, and `taken` arguments are counted in front of it. -/
def Writes (s : Scan) (cs : List Char) (taken : Nat) (code : Char) (x : Scalar) : Prop :=
  ∃ before suffix after s', cs = before ++ code :: (suffix ++ after) ∧ Spells code suffix x ∧
    NoSuffix after ∧ scanFrom s before = .ok s' ∧ s'.argCount = taken

/-- A place behind the first token is found again in what is read behind it. -/
lemma Writes.of_token {c : Char} {suffix : List Char} {s₁ : Scan} {taken : Nat} {code : Char}
    {x : Scalar} (hs : SuffixOf c suffix) (hadd : s.addToken ⟨c, !suffix.isEmpty⟩ = .ok s₁)
    (hcs : NoSuffix cs) (h : Writes s₁ cs taken code x) :
    Writes s (c :: (suffix ++ cs)) taken code x := by
  obtain ⟨before, suffix', after, s₂, rfl, hx, hafter, hscan, hcount⟩ := h
  refine ⟨c :: (suffix ++ before), suffix', after, s₂, by simp, hx, hafter, ?_, hcount⟩
  have hbefore : NoSuffix before := by
    intro d hd
    refine hcs d ?_
    cases before with
    | nil => simp at hd
    | cons y ys => simpa using hd
  rw [scanFrom_token hs hbefore, hadd]
  exact hscan

/-- Reading keeps a list of steps, and each scalar among them is written somewhere. By induction on
the text, one token at a time. -/
lemma exists_steps_written (h : scanFrom s cs = .ok s') :
    ∃ steps : List Step, s'.reversed = steps.reverse ++ s.reversed ∧
      s'.argCount = s.argCount + argsOf steps ∧
      ∀ done code x rest, steps = done ++ ⟨code, .scalar x⟩ :: rest →
        Writes s cs (s.argCount + argsOf done) code x := by
  induction hn : cs.length using Nat.strong_induction_on generalizing s cs with
  | _ n ih =>
    cases cs with
    | nil =>
      rw [scanFrom_nil] at h
      obtain rfl := Except.ok.inj h
      exact ⟨[], by simp [argsOf]⟩
    | cons c cs =>
      obtain ⟨suffix, after, s₁, rfl, hs, hadd, hscan⟩ := exists_token h
      have hafter := noSuffix_of_scanFrom hscan
      have hlt : after.length < n := by
        simp only [List.length_cons, List.length_append] at hn
        omega
      obtain ⟨steps, hrev, hcount, hwrites⟩ := ih _ hlt hscan rfl
      obtain ⟨first, hrev₁, hcount₁, hfirst⟩ := addToken_inv hadd
      refine ⟨first ++ steps, ?_, ?_, ?_⟩
      · rw [hrev, hrev₁, List.reverse_append, List.append_assoc]
      · rw [hcount, hcount₁, Draft.argsOf_append, Nat.add_assoc]
      intro done code x rest hsplit
      cases first with
      | nil =>
        have hw := hwrites done code x rest hsplit
        rw [hcount₁] at hw
        exact hw.of_token hs hadd hafter
      | cons st more =>
        obtain ⟨hmore, hcode, hm⟩ := hfirst st List.mem_cons_self
        obtain rfl : more = [] := by simpa using hmore
        cases done with
        | nil =>
          obtain ⟨rfl, -⟩ := List.cons.inj hsplit
          obtain rfl : code = c := hcode
          exact ⟨[], suffix, after, s, rfl, spells_of_meaning hs hm, hafter, scanFrom_nil s, by
            simp [argsOf]⟩
        | cons st' done =>
          obtain ⟨rfl, htail⟩ := List.cons.inj hsplit
          have hw := hwrites done code x rest htail
          rw [hcount₁, Nat.add_assoc, ← Draft.argsOf_append] at hw
          exact hw.of_token hs hadd hafter

/-- What is read of two texts one behind the other, if the second does not start with a suffix. -/
lemma scanFrom_append (s : Scan) (cs : List Char) {rest : List Char} (hr : NoSuffix rest) :
    scanFrom s (cs ++ rest) = scanFrom s cs >>= (scanFrom · rest) := by
  induction cs using Token.ofChars.induct generalizing s with
  | case1 => rfl
  | case2 c =>
    rw [List.singleton_append, scanFrom_cons s (not_joins_of_noSuffix hr c),
      scanFrom_cons s (by simp), bind_assoc]
    rfl
  | case3 c d cs hj ih =>
    rw [List.cons_append, List.cons_append, scanFrom_joined s _ hj, scanFrom_joined s _ hj,
      bind_assoc]
    exact bind_congr ih
  | case4 c d cs hj ih =>
    have hcut : ∀ ds : List Char, ∀ x ∈ (d :: ds).head?, joins c x = false := by simpa using hj
    rw [List.cons_append, List.cons_append, scanFrom_cons s (hcut _), scanFrom_cons s (hcut _),
      bind_assoc]
    exact bind_congr ih

/-- A place in a text that can be read belongs to a step that reading keeps. -/
lemma Writes.exists_step {taken : Nat} {code : Char} {x : Scalar}
    (hw : Writes s cs taken code x) (h : scanFrom s cs = .ok s') :
    ∃ done rest : List Step,
      s'.reversed = (done ++ ⟨code, .scalar x⟩ :: rest).reverse ++ s.reversed ∧
      taken = s.argCount + argsOf done := by
  obtain ⟨before, suffix, after, s₁, rfl, hx, hafter, hscan, rfl⟩ := hw
  have hcode : NoSuffix (code :: (suffix ++ after)) := by
    intro d hd
    obtain rfl : code = d := by simpa using hd
    exact not_mem_suffixes_of_spells hx
  obtain ⟨done, hrev, hcount, -⟩ := exists_steps_written hscan
  have hadd : s₁.addToken ⟨code, !suffix.isEmpty⟩ = s₁.addDirective code (.scalar x) :=
    addToken_of_meaning (meaning_of_spells hx)
  rw [scanFrom_append s before hcode, hscan] at h
  have hrest : scanFrom s₁ (code :: (suffix ++ after)) = .ok s' := h
  obtain ⟨s₂, hdir⟩ : ∃ s₂, s₁.addDirective code (.scalar x) = .ok s₂ := ⟨_, rfl⟩
  rw [scanFrom_token (joins_of_spells hx) hafter, hadd, hdir] at hrest
  obtain ⟨rest, hrev', -, -⟩ := exists_steps_written hrest
  refine ⟨done, rest, ?_, hcount⟩
  rw [hrev', Scan.reversed_addDirective hdir, hrev]
  simp

/-! ## The text of a format -/

variable {source : String} {f : Format}

lemma exists_scan (h : compile source = .ok f) :
    ∃ s, scanFrom {} source.toList = .ok s ∧ s.reversed = f.steps.reverse ∧
      s.argCount = f.argCount := by
  cases hs : scanFrom {} source.toList with
  | error e => simp [compile_eq, hs, bind, Except.bind] at h
  | ok s =>
    rw [compile_eq, hs] at h
    have hfinish : s.finish source = .ok f := h
    unfold Scan.finish at hfinish
    split_ifs at hfinish
    obtain rfl := Except.ok.inj hfinish
    exact ⟨s, rfl, by simp, rfl⟩

/-- The scalars that a format keeps are those that are written in its text, and where one is
written reading has counted the arguments of the steps in front of it. -/
lemma writes_iff (h : compile source = .ok f) {taken : Nat} {code : Char} {x : Scalar} :
    Writes {} source.toList taken code x ↔
      ∃ done rest, f.steps = done ++ ⟨code, .scalar x⟩ :: rest ∧ taken = argsOf done := by
  obtain ⟨s, hscan, hrev, -⟩ := exists_scan h
  constructor
  · intro hw
    obtain ⟨done, rest, hsteps, htaken⟩ := hw.exists_step hscan
    refine ⟨done, rest, ?_, by simpa using htaken⟩
    rw [hrev, List.append_nil] at hsteps
    exact List.reverse_inj.mp hsteps
  · rintro ⟨done, rest, hsplit, rfl⟩
    obtain ⟨steps, hrev', -, hwrites⟩ := exists_steps_written hscan
    obtain rfl : f.steps = steps := by
      rw [hrev, List.append_nil] at hrev'
      exact List.reverse_inj.mp hrev'
    simpa using hwrites done code x rest hsplit

lemma argCount_eq_argsOf (h : compile source = .ok f) : f.argCount = argsOf f.steps := by
  obtain ⟨ts, -, rfl⟩ := (compile_eq_ok_iff source f).mp h
  rfl

/-! ## What a text asks for -/

/-- What a directive asks for: the argument that its scalar is made of, or a length. -/
inductive Need where
  | value (x : Scalar)
  | length
  deriving DecidableEq, Repr

/-- With `taken` arguments in front of it, a scalar wants the one behind them, and the next one for
a length if it takes one. -/
inductive Wants (x : Scalar) (taken : Nat) : Nat → Need → Prop where
  | value : Wants x taken (taken + 1) (.value x)
  | length (hs : x.isSized = true) : Wants x taken (taken + 2) .length

/-- In the text `cs` the directive that is written by `code` asks for the argument at `position`.
Positions count arguments from 1. -/
def Asks (cs : List Char) (position : Nat) (code : Char) (need : Need) : Prop :=
  ∃ taken x, Writes {} cs taken code x ∧ Wants x taken position need

lemma Wants.bounds {x : Scalar} {taken position : Nat} {need : Need}
    (h : Wants x taken position need) :
    taken < position ∧ position ≤ taken + x.argCount := by
  unfold Scalar.argCount
  cases h with
  | value =>
    split <;> omega
  | length hs =>
    rw [if_pos hs]
    omega

lemma Wants.unique {x : Scalar} {taken position : Nat} {need need' : Need}
    (h : Wants x taken position need) (h' : Wants x taken position need') : need = need' := by
  generalize hp : position = p at h'
  cases h with
  | value =>
    cases h' with
    | value => rfl
    | length => omega
  | length =>
    cases h' with
    | value => omega
    | length => rfl

lemma exists_wants {x : Scalar} {taken position : Nat} (hlt : taken < position)
    (hle : position ≤ taken + x.argCount) : ∃ need, Wants x taken position need := by
  unfold Scalar.argCount at hle
  split_ifs at hle with hs
  · obtain rfl | rfl : position = taken + 1 ∨ position = taken + 2 := by omega
    · exact ⟨_, .value⟩
    · exact ⟨_, .length hs⟩
  · obtain rfl : position = taken + 1 := by omega
    exact ⟨_, .value⟩

/-- Steps that ask for an argument contain the scalar that asks for it. -/
lemma exists_scalar {steps : List Step} {position : Nat} (hpos : 0 < position)
    (hle : position ≤ argsOf steps) :
    ∃ done code x rest, steps = done ++ ⟨code, .scalar x⟩ :: rest ∧ argsOf done < position ∧
      position ≤ argsOf done + x.argCount := by
  have hzero : argsOf [] = 0 := rfl
  induction steps generalizing position with
  | nil => omega
  | cons st steps ih =>
    rw [← List.singleton_append, Draft.argsOf_append] at hle
    by_cases hfirst : position ≤ argsOf [st]
    · obtain ⟨code, d⟩ := st
      cases d with
      | scalar x =>
        rw [Draft.argsOf_scalar] at hfirst
        exact ⟨[], code, x, steps, rfl, by omega, by omega⟩
      | opening kind =>
        rw [Draft.argsOf_opening] at hfirst
        omega
      | closing kind =>
        rw [Draft.argsOf_closing] at hfirst
        omega
    · have hpos' : 0 < position - argsOf [st] := by omega
      obtain ⟨done, code, x, rest, rfl, hlt, hle'⟩ := ih hpos' (by omega)
      refine ⟨st :: done, code, x, rest, rfl, ?_⟩
      rw [← List.singleton_append, Draft.argsOf_append]
      omega

/-- If a scalar stands in front of a step, its arguments are counted in front of the step. -/
lemma nil_or_counted {code : Char} {x : Scalar} {st : Step} {rest rest' more : List Step}
    (h : ⟨code, .scalar x⟩ :: rest = more ++ st :: rest') :
    more = [] ∨ x.argCount ≤ argsOf more := by
  cases more with
  | nil => exact .inl rfl
  | cons first more =>
    obtain ⟨rfl, -⟩ := List.cons.inj h
    rw [← List.singleton_append, Draft.argsOf_append, Draft.argsOf_scalar]
    exact .inr (by omega)

/-- Every argument is asked for once: for each position up to the number of arguments that a
format takes, there is just one character of its text that asks for the argument, and one thing
that it asks for. -/
lemma asks_unique (h : compile source = .ok f) {position : Nat} (hpos : 0 < position)
    (hle : position ≤ f.argCount) :
    ∃ code need, Asks source.toList position code need ∧
      ∀ code' need', Asks source.toList position code' need' → code' = code ∧ need' = need := by
  rw [argCount_eq_argsOf h] at hle
  obtain ⟨done, code, x, rest, hsteps, hlt, hle'⟩ := exists_scalar hpos hle
  obtain ⟨need, hneed⟩ := exists_wants hlt hle'
  refine ⟨code, need, ⟨_, x, (writes_iff h).mpr ⟨done, rest, hsteps, rfl⟩, hneed⟩, ?_⟩
  rintro code' need' ⟨taken, x', hw, hneed'⟩
  obtain ⟨done', rest', hsteps', rfl⟩ := (writes_iff h).mp hw
  have hbounds := hneed.bounds
  have hbounds' := hneed'.bounds
  have hsplit := hsteps.symm.trans hsteps'
  -- Of two places with steps for the same number one stands in front of the other, and the scalar
  -- there would have been counted before the second.
  rcases List.append_eq_append_iff.mp hsplit with ⟨more, rfl, hmore⟩ | ⟨more, rfl, hmore⟩
  · rw [Draft.argsOf_append] at hbounds'
    obtain rfl | hcount := nil_or_counted hmore
    · simp only [List.nil_append, List.cons.injEq, Step.mk.injEq, Directive.scalar.injEq] at hmore
      obtain ⟨⟨rfl, rfl⟩, -⟩ := hmore
      rw [List.append_nil] at hneed'
      exact ⟨rfl, hneed'.unique hneed⟩
    · omega
  · rw [Draft.argsOf_append] at hbounds
    obtain rfl | hcount := nil_or_counted hmore
    · simp only [List.nil_append, List.cons.injEq, Step.mk.injEq, Directive.scalar.injEq] at hmore
      obtain ⟨⟨rfl, rfl⟩, -⟩ := hmore
      rw [List.append_nil] at hneed
      exact ⟨rfl, hneed'.unique hneed⟩
    · omega

end NativeCall.Format
