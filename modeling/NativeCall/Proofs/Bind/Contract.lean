import Mathlib.Algebra.Group.Nat.Defs
import Mathlib.Data.List.Nodup
import Mathlib.Tactic.Lemma
import NativeCall.Bind.Basic

/-!
# What binding a call promises

A declaration says which calls it accepts and which argument each parameter gets. This is stated
here without the algorithm. All that matters of the keywords is the text of each, if it is a string,
and its value, in the order of the call (`Keywords.given`). How they were passed, which objects
their names are and where these stand in a dict makes no difference.

## Accepted calls and faults

`Call.Accepts` says which calls are accepted, and `Call.argument?` what the parameter at an index
gets. Neither of them has an order, while an answer to a call that is not accepted names one error
of many that apply. `Call.Fault` lists everything that can be wrong with a call, each fault with its
stage and a place within the stage, and the fault that is to be reported is the first one
(`Call.FirstFault`): the counts of arguments come before the parameters that are missing, these
before the ones that are given twice, and the keywords that name no parameter come last, in the
order of the call. The stages are those in which the binder looks for faults, and the order is part
of the promise, as a caller sees it in the message. A stage and a place have one fault
(`Call.Fault.unique`), so the first one is determined (`Call.FirstFault.unique`).

`Call.Promised` puts the two together. What makes them one statement is `Call.accepts_iff`: a call
is accepted if and only if nothing is wrong with it.

## The count

One direction of that is not obvious. The first fault is a count, more arguments than parameters,
and acceptance does not mention it. That it never applies to an accepted call takes a count of the
keywords (`countP_given`): keywords of different texts that all name free parameters are no more
than there are free parameters. Here the names of the declaration have to differ, and the texts of
the keywords; with a name that is declared twice one keyword can serve for two parameters, and the
count and acceptance come apart.

The sum in an arity is an index, and stands for what it says only if it is a word, which is part of
`Arity.Fits`.
-/

namespace NativeCall

/-! ## Keywords by text -/

/-- A keyword: its text, if it is a string, and its value. -/
abbrev Given := Option String × Ref

/-- The keywords as a declaration sees them. -/
def Keywords.given (h : Heap) : Keywords → List Given
  | none => []
  | dict d => d.entries.map (fun e => (h.text? e.keyRef, e.value))
  | pairs ps => ps.map (fun p => (h.text? p.1, p.2))

/-- No two keywords have the same text. -/
def Unambiguous (kw : List Given) : Prop :=
  (kw.filterMap (·.1)).Nodup

/-- The value of the keyword of a name. -/
def valueOf (kw : List Given) (name : String) : Option Ref :=
  kw.lookup (some name)

/-! ## The declared call -/

/-- The arity of a function is in line with its declared parameters, and the index behind its last
required keyword is a word. -/
structure Arity.Fits (a : Arity) (l : Layout) : Prop where
  positionalOnly_le : l.positionalOnly ≤ a.maxPositional
  minPositional_le : a.minPositional ≤ a.maxPositional
  maxPositional_le : a.maxPositional ≤ l.maxArgs
  add_lt : a.maxPositional + a.minKeyword < 2 ^ 64

namespace Call

/-- The argument of the parameter at index `i`. -/
def argument? (c : Call) (l : Layout) (kw : List Given) (i : Nat) : Option Ref :=
  if i < c.args.length then c.args[i]?
  else if i < l.positionalOnly then none
  else (l.keywordNames[i - l.positionalOnly]?).bind (valueOf kw)

/-- The parameter at index `i` must be given. -/
def Required (c : Call) (l : Layout) (i : Nat) : Prop :=
  i < l.maxArgs ∧ (i < c.arity.minPositional ∨
    (0 < c.arity.minKeyword ∧ c.arity.maxPositional ≤ i ∧
      i < c.arity.maxPositional + c.arity.minKeyword))

/-- The call is in order. -/
structure Accepts (c : Call) (l : Layout) (kw : List Given) : Prop where
  positional : c.args.length ≤ c.arity.maxPositional
  /-- Every keyword names a parameter that is not given by position. -/
  keyword : ∀ g ∈ kw, ∃ s j, g.1 = some s ∧ l.keywordNames[j]? = some s ∧
    c.args.length ≤ l.positionalOnly + j
  required : ∀ i, c.Required l i → (c.argument? l kw i).isSome

/-- `c.Fault l kw stage place e`: the error `e` applies to the call. -/
inductive Fault (c : Call) (l : Layout) (kw : List Given) : Nat → Nat → BindError → Prop where
  | tooManyArguments (h : l.maxArgs < c.args.length + kw.length) :
      Fault c l kw 0 0 (.tooManyArguments c.spec.fname l.maxArgs (c.args.length + kw.length)
        (c.args.length = 0))
  | tooManyPositional (h : c.arity.maxPositional < c.args.length) :
      Fault c l kw 1 0 (.tooManyPositional c.spec.fname c.arity.maxPositional
        (c.arity.maxPositional ≤ c.arity.minPositional) c.args.length)
  | tooFewPositional (h : c.args.length < min l.positionalOnly c.arity.minPositional) :
      Fault c l kw 2 0 (.tooFewPositional c.spec.fname
        (min l.positionalOnly c.arity.minPositional)
        (c.arity.maxPositional ≤ min l.positionalOnly c.arity.minPositional) c.args.length)
  | missingRequired {i : Nat} {name : String} (hr : c.Required l i)
      (hi : l.positionalOnly ≤ i) (hn : l.keywordNames[i - l.positionalOnly]? = some name)
      (h : c.argument? l kw i = none) :
      Fault c l kw 3 i (.missingRequired c.spec.fname name (i + 1))
  | duplicateArgument {i : Nat} {name : String} (hi : l.positionalOnly ≤ i)
      (hn : l.keywordNames[i - l.positionalOnly]? = some name) (ha : i < c.args.length)
      (h : (valueOf kw name).isSome) :
      Fault c l kw 4 i (.duplicateArgument c.spec.fname name (i + 1))
  | nonStringKeyword {i : Nat} {g : Given} (hg : kw[i]? = some g) (h : g.1 = none) :
      Fault c l kw 5 i .nonStringKeyword
  | unexpectedKeyword {i : Nat} {g : Given} {s : String} (hg : kw[i]? = some g)
      (hs : g.1 = some s) (h : s ∉ l.keywordNames) :
      Fault c l kw 5 i (.unexpectedKeyword c.spec.fname s)

/-- The error `e` applies to the call, and none that applies too comes before it. -/
def FirstFault (c : Call) (l : Layout) (kw : List Given) (e : BindError) : Prop :=
  ∃ stage place, c.Fault l kw stage place e ∧
    ∀ stage' place' e', c.Fault l kw stage' place' e' →
      stage < stage' ∨ (stage = stage' ∧ place ≤ place')

/-- An answer is the one that the declaration promises. -/
structure Promised (c : Call) (l : Layout) (kw : List Given)
    (answer : Except BindError BoundArgs) : Prop where
  succeeds : (∃ bound, answer = .ok bound) ↔ c.Accepts l kw
  argument : ∀ bound, answer = .ok bound → ∀ i, bound.get? i = c.argument? l kw i
  fault : ∀ e, answer = .error e → c.FirstFault l kw e

end Call

/-! ## Counting keywords -/

section Counting

variable {kw : List Given} {names : List String}

lemma isSome_valueOf {name : String} : (valueOf kw name).isSome ↔ ∃ g ∈ kw, g.1 = some name := by
  rw [valueOf, List.lookup_isSome_iff]
  refine exists_congr (fun g => and_congr_right (fun _ => ?_))
  rw [beq_iff_eq, eq_comm]

lemma valueOf_eq_none {name : String} : valueOf kw name = none ↔ ∀ g ∈ kw, g.1 ≠ some name := by
  rw [← Option.not_isSome_iff_eq_none, isSome_valueOf]
  simp only [not_exists, not_and, ne_eq]

/-- At most one keyword has a given text. -/
lemma countP_text (hkw : Unambiguous kw) (name : String) :
    kw.countP (fun g => g.1 = some name) = if (valueOf kw name).isSome then 1 else 0 := by
  -- The count along the keywords is the count of a text among all texts, and those differ.
  have hcount : kw.countP (fun g => g.1 = some name) = (kw.filterMap (·.1)).count name := by
    rw [List.count_filterMap]
    refine List.countP_congr (fun g _ => ?_)
    rw [decide_eq_true_iff, beq_iff_eq]
  have hle := List.nodup_iff_count_le_one.mp hkw name
  rw [← hcount] at hle
  by_cases hv : (valueOf kw name).isSome
  · rw [if_pos hv]
    obtain ⟨g, hg, hname⟩ := isSome_valueOf.mp hv
    have hpos : 0 < kw.countP (fun g => g.1 = some name) :=
      List.countP_pos_iff.mpr ⟨g, hg, decide_eq_true hname⟩
    omega
  · rw [if_neg hv, List.countP_eq_zero]
    intro g hg hname
    exact hv (isSome_valueOf.mpr ⟨g, hg, of_decide_eq_true hname⟩)

/-- A keyword that names none of some parameters names one more parameter or none of all. -/
lemma countP_not_mem {name : String} (hn : name ∉ names) :
    kw.countP (fun g => g.1 ∉ names.map some) =
      kw.countP (fun g => g.1 = some name) +
        kw.countP (fun g => g.1 ∉ (name :: names).map some) := by
  induction kw with
  | nil => rfl
  | cons g kw ih =>
    simp only [List.countP_cons, ih, List.map_cons, List.mem_cons, not_or, decide_eq_true_iff]
    by_cases hg : g.1 = some name
    · have hmem : g.1 ∉ names.map some := by
        rw [hg]
        simpa using hn
      rw [if_pos hmem, if_pos hg, if_neg (fun h => h.1 hg)]
      omega
    · by_cases hmem : g.1 ∈ names.map some
      · rw [if_neg (not_not.mpr hmem), if_neg hg, if_neg (fun h => h.2 hmem)]
        omega
      · rw [if_pos hmem, if_neg hg, if_pos ⟨hg, hmem⟩]
        omega

/-- Every keyword is the value of one of some parameters or names none of them. -/
lemma countP_given (hkw : Unambiguous kw) (hn : names.Nodup) :
    names.countP (fun n => (valueOf kw n).isSome) +
      kw.countP (fun g => g.1 ∉ names.map some) = kw.length := by
  induction names with
  | nil => simp
  | cons name names ih =>
    obtain ⟨hname, hn⟩ := List.nodup_cons.mp hn
    rw [← ih hn, countP_not_mem hname, countP_text hkw, List.countP_cons]
    omega

end Counting

/-! ## Accepted calls -/

namespace Call

variable {c : Call} {l : Layout} {kw : List Given} {i : Nat} {s name : String}

/-- The names of the parameters that are not given by position. -/
def freeNames (c : Call) (l : Layout) : List String :=
  l.keywordNames.drop (c.args.length - l.positionalOnly)

lemma mem_freeNames : s ∈ c.freeNames l ↔
    ∃ j, l.keywordNames[j]? = some s ∧ c.args.length ≤ l.positionalOnly + j := by
  rw [freeNames, List.mem_iff_getElem?]
  constructor
  · rintro ⟨j, hj⟩
    rw [List.getElem?_drop] at hj
    exact ⟨_, hj, by omega⟩
  · rintro ⟨j, hj, hle⟩
    refine ⟨j - (c.args.length - l.positionalOnly), ?_⟩
    rw [List.getElem?_drop, ← hj]
    congr 1
    omega

lemma argument?_of_lt (hi : i < c.args.length) : c.argument? l kw i = c.args[i]? :=
  if_pos hi

lemma argument?_of_name (hi : c.args.length ≤ i) (hp : l.positionalOnly ≤ i)
    (hn : l.keywordNames[i - l.positionalOnly]? = some name) :
    c.argument? l kw i = valueOf kw name := by
  rw [argument?, if_neg (Nat.not_lt.mpr hi), if_neg (Nat.not_lt.mpr hp), hn]
  rfl

/-- What is given by position cannot be missing. -/
lemma le_of_argument?_eq_none (h : c.argument? l kw i = none) : c.args.length ≤ i := by
  refine Nat.le_of_not_lt (fun hi => ?_)
  rw [argument?_of_lt hi, List.getElem?_eq_getElem hi] at h
  cases h

/-- In a call with nothing wrong, there is a place for every argument. -/
lemma length_add_length_le (ha : c.Accepts l kw) (hfit : c.arity.Fits l)
    (hn : l.keywordNames.Nodup) (hkw : Unambiguous kw) :
    c.args.length + kw.length ≤ l.maxArgs := by
  have hfree : (c.freeNames l).Nodup := hn.sublist (List.drop_sublist _ _)
  have hcount := countP_given hkw hfree
  -- Every keyword names a free parameter, so none is left over when the free names are gone
  -- through.
  have hnone : kw.countP (fun g => g.1 ∉ (c.freeNames l).map some) = 0 := by
    rw [List.countP_eq_zero]
    intro g hg hnot
    obtain ⟨s, j, hs, hj, hle⟩ := ha.keyword g hg
    refine of_decide_eq_true hnot ?_
    rw [hs]
    exact List.mem_map_of_mem (mem_freeNames.mpr ⟨j, hj, hle⟩)
  have hle := List.countP_le_length (p := fun n => (valueOf kw n).isSome) (l := c.freeNames l)
  have hlength : (c.freeNames l).length =
      l.keywordNames.length - (c.args.length - l.positionalOnly) := List.length_drop
  have hpos := ha.positional
  have hmax := hfit.maxPositional_le
  rw [Layout.maxArgs] at hmax ⊢
  omega

/-- A keyword that names a free parameter is not at fault. -/
lemma stage_lt_of_named (hn : l.keywordNames.Nodup)
    (hnamed : ∀ g ∈ kw, ∃ s j, g.1 = some s ∧ l.keywordNames[j]? = some s ∧
      c.args.length ≤ l.positionalOnly + j)
    {stage place : Nat} {e : BindError} (hf : c.Fault l kw stage place e) : stage < 4 := by
  cases hf with
  | duplicateArgument hi hname hlt h =>
    obtain ⟨g, hg, htext⟩ := isSome_valueOf.mp h
    obtain ⟨s, j, hs, hj, hle⟩ := hnamed g hg
    obtain rfl := Option.some.inj (htext.symm.trans hs)
    -- A keyword that names a free parameter names no other, since the names differ.
    have hsame : place - l.positionalOnly = j :=
      (List.getElem?_inj (List.getElem?_eq_some_iff.mp hname).1 hn).mp (hname.trans hj.symm)
    omega
  | nonStringKeyword hg h =>
    obtain ⟨s, j, hs, -, -⟩ := hnamed _ (List.mem_of_getElem? hg)
    cases h.symm.trans hs
  | unexpectedKeyword hg hs h =>
    obtain ⟨t, j, ht, hj, -⟩ := hnamed _ (List.mem_of_getElem? hg)
    obtain rfl := Option.some.inj (hs.symm.trans ht)
    exact absurd (List.mem_of_getElem? hj) h
  | _ => omega

/-- Nothing is wrong with an accepted call. -/
lemma not_fault_of_accepts (ha : c.Accepts l kw) (hfit : c.arity.Fits l)
    (hn : l.keywordNames.Nodup) (hkw : Unambiguous kw) {stage place : Nat} {e : BindError} :
    ¬ c.Fault l kw stage place e := by
  intro hf
  have hstage := stage_lt_of_named hn ha.keyword hf
  cases hf with
  | tooManyArguments h => exact absurd (length_add_length_le ha hfit hn hkw) (Nat.not_le.mpr h)
  | tooManyPositional h => exact absurd ha.positional (Nat.not_le.mpr h)
  | tooFewPositional h =>
    obtain ⟨hp, hmin⟩ := Nat.lt_min.mp h
    -- The first parameter that is not given is one without a name, and no keyword can give it.
    have hr : c.Required l c.args.length := by
      refine ⟨?_, .inl hmin⟩
      rw [Layout.maxArgs]
      omega
    have hsome := ha.required _ hr
    rw [argument?, if_neg (Nat.lt_irrefl _), if_pos hp] at hsome
    cases hsome
  | missingRequired hr hi hname h =>
    have hsome := ha.required _ hr
    rw [h] at hsome
    cases hsome
  | _ => omega

/-- A call with nothing wrong is accepted. -/
lemma accepts_of_not_fault (hfit : c.arity.Fits l)
    (h : ∀ stage place e, ¬ c.Fault l kw stage place e) : c.Accepts l kw := by
  refine ⟨Nat.le_of_not_lt (fun hlt => h _ _ _ (.tooManyPositional hlt)), fun g hg => ?_,
    fun i hr => ?_⟩
  · obtain ⟨i, hi⟩ := List.mem_iff_getElem?.mp hg
    cases hs : g.1 with
    | none => exact absurd (.nonStringKeyword hi hs) (h _ _ _)
    | some s =>
      by_cases hmem : s ∈ l.keywordNames
      · obtain ⟨j, hj⟩ := List.mem_iff_getElem?.mp hmem
        refine ⟨s, j, rfl, hj, Nat.le_of_not_lt (fun hlt => ?_)⟩
        refine h _ _ _ (.duplicateArgument (Nat.le_add_right l.positionalOnly j) ?_ hlt
          (isSome_valueOf.mpr ⟨g, hg, hs⟩))
        rwa [Nat.add_sub_cancel_left]
      · exact absurd (.unexpectedKeyword hi hs hmem) (h _ _ _)
  · refine Option.isSome_iff_ne_none.mpr (fun hnone => ?_)
    have hle := le_of_argument?_eq_none hnone
    rcases Nat.lt_or_ge i l.positionalOnly with hlt | hp
    · -- A parameter without a name is missing only if too few are given by position.
      rcases hr.2 with hmin | ⟨-, hmax, -⟩
      · exact h _ _ _ (.tooFewPositional (Nat.lt_min.mpr ⟨by omega, by omega⟩))
      · have := hfit.positionalOnly_le
        omega
    · have hlt : i - l.positionalOnly < l.keywordNames.length := by
        have := hr.1
        rw [Layout.maxArgs] at this
        omega
      exact h _ _ _ (.missingRequired hr hp (List.getElem?_eq_getElem hlt) hnone)

/-- **Accepted calls.** A call is accepted if and only if nothing is wrong with it. -/
theorem accepts_iff (hfit : c.arity.Fits l) (hn : l.keywordNames.Nodup) (hkw : Unambiguous kw) :
    c.Accepts l kw ↔ ∀ stage place e, ¬ c.Fault l kw stage place e :=
  ⟨fun ha _ _ _ => not_fault_of_accepts ha hfit hn hkw, accepts_of_not_fault hfit⟩

/-- A stage and a place within it have one error at most. -/
lemma Fault.unique {stage place : Nat} {e e' : BindError} (hf : c.Fault l kw stage place e)
    (hf' : c.Fault l kw stage place e') : e = e' := by
  cases hf with
  | tooManyArguments _ | tooManyPositional _ | tooFewPositional _ =>
    cases hf'
    rfl
  | missingRequired _ _ hn _ =>
    cases hf' with
    | missingRequired _ _ hn' _ => rw [Option.some.inj (hn.symm.trans hn')]
  | duplicateArgument _ hn _ _ =>
    cases hf' with
    | duplicateArgument _ hn' _ _ => rw [Option.some.inj (hn.symm.trans hn')]
  | nonStringKeyword hg h =>
    cases hf' with
    | nonStringKeyword _ _ => rfl
    | unexpectedKeyword hg' hs _ =>
      obtain rfl := Option.some.inj (hg.symm.trans hg')
      cases h.symm.trans hs
  | unexpectedKeyword hg hs _ =>
    cases hf' with
    | nonStringKeyword hg' h =>
      obtain rfl := Option.some.inj (hg.symm.trans hg')
      cases h.symm.trans hs
    | unexpectedKeyword hg' hs' _ =>
      obtain rfl := Option.some.inj (hg.symm.trans hg')
      rw [Option.some.inj (hs.symm.trans hs')]

/-- Only one error can be the first. -/
lemma FirstFault.unique {e e' : BindError} (hf : c.FirstFault l kw e)
    (hf' : c.FirstFault l kw e') : e = e' := by
  obtain ⟨stage, place, he, hfirst⟩ := hf
  obtain ⟨stage', place', he', hfirst'⟩ := hf'
  have hle := hfirst stage' place' e' he'
  have hle' := hfirst' stage place e he
  obtain rfl : stage = stage' := by omega
  obtain rfl : place = place' := by omega
  exact he.unique he'

/-! ## Promised answers -/

lemma promised_ok {bound : BoundArgs} (ha : c.Accepts l kw)
    (hargs : ∀ i, bound.get? i = c.argument? l kw i) : c.Promised l kw (.ok bound) := by
  refine ⟨⟨fun _ => ha, fun _ => ⟨bound, rfl⟩⟩, fun bound' hb => ?_, fun e he => ?_⟩
  · cases hb
    exact hargs
  · cases he

lemma promised_error {e : BindError} (hfit : c.arity.Fits l) (hn : l.keywordNames.Nodup)
    (hkw : Unambiguous kw) (hf : c.FirstFault l kw e) : c.Promised l kw (.error e) := by
  refine ⟨⟨fun hb => ?_, fun ha => ?_⟩, fun bound hb => ?_, fun e' he => ?_⟩
  · obtain ⟨bound, hb⟩ := hb
    cases hb
  · obtain ⟨stage, place, hfault, -⟩ := hf
    exact absurd hfault (not_fault_of_accepts ha hfit hn hkw)
  · cases hb
  · cases he
    exact hf

end Call

end NativeCall
