import NativeCall.Proofs.Bind.Matching

/-!
# The long way of binding a call

Counts are checked, then slots are filled, and keywords that filled none are explained. This is the
order of the stages of faults, so each check reports the first fault, since those before it found
none: `firstFault_of_countError?`, `firstFault_of_missing`, `firstFault_of_leftover`. The main
result, `slots_spec`, puts them together: once the counts are right, matching reports the first
fault, or nothing is wrong and every parameter has its argument.

## What matching sees

`Sees` is all that is used of the heap and of the keywords: that there are as many keywords as were
counted, which texts they have, that there is an interned name for each declared one, and that
looking a declared name up finds the keyword of its text. It is a hypothesis here. A reachable
runtime provides it, in whichever way the keywords were passed.

## Indices

Faults speak of parameters by index, the loop of the free ones by their place. `firstFree` is where
the two meet, and it is a maximum: if fewer arguments are given by position than there are
parameters without a name, the loop starts behind the latter, and nothing fills the slots in
between. The index of the `j`-th free parameter is `firstFree + j`, and that of its name `firstFree
+ j - positionalOnly` (`getElem?_free`). `missing_iff` and `exists_missing` translate between faults
and places, and no other lemma has to.

## What is left over

The keywords that fill no slot are the ones that name no free parameter. There are as many of them
as the loop has left (`length_eq`), so if none is left there is nothing to explain, and if one is
left an explanation is found (`leftoverError?_spec`). The explanation need not be about the keywords
that are left over: the search for parameters given twice goes in the order of the parameters, and
that for undeclared names in the order of the call. For the first fault this makes no difference, as
all keywords with one of these two faults are left over.
-/

namespace NativeCall

namespace Call

variable {c : Call} {h : Heap} {k : Keywords} {kw : List Given} {l : Layout}

/-! ## Stages -/

lemma requires_iff {i : Nat} (hi : i < l.maxArgs) : c.arity.requires i = true ↔ c.Required l i := by
  rw [Required, Arity.requires, Arity.requiredEnd, Bool.or_eq_true, Bool.and_eq_true,
    decide_eq_true_iff, decide_eq_true_iff, decide_eq_true_iff, and_iff_right hi]
  by_cases hkey : 0 < c.arity.minKeyword
  · rw [if_pos hkey, and_iff_right hkey]
  · rw [if_neg hkey]
    omega

/-- A count that is wrong is the first fault. -/
lemma firstFault_of_countError? {e : BindError} (he : c.countError? l kw.length = some e) :
    c.FirstFault l kw e := by
  rw [countError?] at he
  split at he
  case isTrue h =>
    cases he
    exact ⟨0, 0, .tooManyArguments h, fun stage' place' e' _ => by omega⟩
  case isFalse h0 =>
    split at he
    case isTrue h =>
      cases he
      refine ⟨1, 0, .tooManyPositional h, fun stage' place' e' hf => ?_⟩
      cases hf with
      | tooManyArguments h' => exact absurd h' h0
      | _ => omega
    case isFalse h1 =>
      split at he
      case isTrue h =>
        cases he
        refine ⟨2, 0, .tooFewPositional h, fun stage' place' e' hf => ?_⟩
        cases hf with
        | tooManyArguments h' => exact absurd h' h0
        | tooManyPositional h' => exact absurd h' h1
        | _ => omega
      case isFalse h2 => cases he

/-- If no count is wrong, only parameters and keywords can be. -/
lemma stage_ge_of_countError? (hc : c.countError? l kw.length = none) {stage place : Nat}
    {e : BindError} (hf : c.Fault l kw stage place e) : 3 ≤ stage := by
  rw [countError?] at hc
  split at hc
  case isTrue => cases hc
  case isFalse h0 =>
    split at hc
    case isTrue => cases hc
    case isFalse h1 =>
      split at hc
      case isTrue => cases hc
      case isFalse h2 =>
        cases hf with
        | tooManyArguments h => exact absurd h h0
        | tooManyPositional h => exact absurd h h1
        | tooFewPositional h => exact absurd h h2
        | _ => omega

/-- What the long way has before it: the keywords `kw`, and the interned names of the parameters. -/
structure Sees (h : Heap) (l : Layout) (k : Keywords) (kw : List Given) (names : List Ref) :
    Prop where
  count : k.count = kw.length
  texts : k.supplied.map h.text? = kw.map (·.1)
  length : names.length = l.keywordNames.length
  looks : Looks h k kw (names.zip l.keywordNames)

/-- The index of the first parameter that is free, if there is one. -/
def firstFree (c : Call) (l : Layout) : Nat :=
  max c.args.length l.positionalOnly

/-- The free parameters. -/
def free (c : Call) (l : Layout) (names : List Ref) : List (Ref × String) :=
  (names.zip l.keywordNames).drop (c.args.length - l.positionalOnly)

section Free

variable {names : List Ref} {j : Nat} {n : String}

lemma map_snd_free (hlen : names.length = l.keywordNames.length) :
    (c.free l names).map (·.2) = c.freeNames l := by
  rw [free, List.map_drop, List.map_snd_zip (Nat.le_of_eq hlen.symm)]
  rfl

lemma getElem?_free (hlen : names.length = l.keywordNames.length) :
    (∃ r, (c.free l names)[j]? = some (r, n)) ↔
      l.keywordNames[c.firstFree l + j - l.positionalOnly]? = some n := by
  -- Dropping the names of parameters given by position amounts to starting at the first free index.
  have hindex : c.args.length - l.positionalOnly + j = c.firstFree l + j - l.positionalOnly := by
    rw [firstFree]
    omega
  rw [free, List.getElem?_drop, hindex]
  constructor
  · rintro ⟨r, hr⟩
    exact (List.getElem?_zip_eq_some.mp hr).2
  · intro hn
    have hlt := (List.getElem?_eq_some_iff.mp hn).1
    rw [← hlen] at hlt
    exact ⟨_, List.getElem?_zip_eq_some.mpr ⟨List.getElem?_eq_getElem hlt, hn⟩⟩

/-- A free parameter that is missing is a fault of its stage. -/
lemma missing_iff (hlen : names.length = l.keywordNames.length) :
    c.Missing kw (c.firstFree l) (c.free l names) j n ↔
      c.Fault l kw 3 (c.firstFree l + j)
        (.missingRequired c.spec.fname n (c.firstFree l + j + 1)) := by
  have hargs : c.args.length ≤ c.firstFree l + j := by
    rw [firstFree]
    omega
  have hpos : l.positionalOnly ≤ c.firstFree l + j := by
    rw [firstFree]
    omega
  constructor
  · rintro ⟨r, hj, hv, hr⟩
    have hn := (getElem?_free hlen).mp ⟨r, hj⟩
    have hlt : c.firstFree l + j < l.maxArgs := by
      have := (List.getElem?_eq_some_iff.mp hn).1
      rw [Layout.maxArgs]
      omega
    refine .missingRequired ((requires_iff hlt).mp hr) hpos hn ?_
    rw [argument?_of_name hargs hpos hn]
    exact hv
  · intro hf
    cases hf with
    | missingRequired hr hi hn ha =>
      obtain ⟨r, hj⟩ := (getElem?_free hlen).mpr hn
      rw [argument?_of_name hargs hpos hn] at ha
      exact ⟨r, hj, ha, (requires_iff hr.1).mpr hr⟩

/-- Every fault of that stage is a free parameter that is missing. -/
lemma exists_missing (hlen : names.length = l.keywordNames.length) {place : Nat} {e : BindError}
    (hf : c.Fault l kw 3 place e) :
    ∃ j n, place = c.firstFree l + j ∧ c.Missing kw (c.firstFree l) (c.free l names) j n := by
  have hplace : c.firstFree l ≤ place := by
    cases hf with
    | missingRequired hr hi hn ha =>
      have := le_of_argument?_eq_none ha
      rw [firstFree]
      omega
  obtain ⟨j, rfl⟩ := Nat.exists_eq_add_of_le hplace
  cases hf with
  | missingRequired hr hi hn ha =>
    exact ⟨j, _, rfl, (missing_iff hlen).mpr (.missingRequired hr hi hn ha)⟩

end Free

/-! ## What is reported -/

section Reports

variable {names : List Ref}

/-- The keywords that name no free parameter. -/
def leftover (c : Call) (l : Layout) (kw : List Given) : Nat :=
  kw.countP (fun g => g.1 ∉ (c.freeNames l).map some)

/-- Every keyword is the value of a free parameter or is left over. -/
lemma length_eq (hn : l.keywordNames.Nodup) (hkw : Unambiguous kw)
    (hlen : names.length = l.keywordNames.length) :
    kw.length = (c.free l names).countP (fun p => (valueOf kw p.2).isSome) + c.leftover l kw := by
  have hfree : (c.freeNames l).Nodup := hn.sublist (List.drop_sublist _ _)
  rw [← countP_given hkw hfree, ← map_snd_free hlen, List.countP_map, leftover, map_snd_free hlen]
  rfl

/-- Filling the slots of the free parameters uses every keyword but those that are left over. -/
lemma fill_free (hn : l.keywordNames.Nodup) (hkw : Unambiguous kw) (hs : Sees h l k kw names) :
    c.Fills kw (c.firstFree l) (c.free l names) (c.leftover l kw)
      (c.fill h k (c.firstFree l) k.count (c.free l names)) := by
  have hlook : Looks h k kw (c.free l names) := fun p hp => hs.looks p (List.mem_of_mem_drop hp)
  rw [hs.count, length_eq hn hkw hs.length]
  exact fill_spec hlook (c.firstFree l) (c.leftover l kw)

/-- A missing parameter is the first fault, if no count is wrong and none before it is missing. -/
lemma firstFault_of_missing (hlen : names.length = l.keywordNames.length)
    (hc : c.countError? l kw.length = none) {j : Nat} {n : String}
    (hm : c.Missing kw (c.firstFree l) (c.free l names) j n)
    (hfirst : ∀ j' < j, ∀ n, ¬ c.Missing kw (c.firstFree l) (c.free l names) j' n) :
    c.FirstFault l kw (.missingRequired c.spec.fname n (c.firstFree l + j + 1)) := by
  refine ⟨3, _, (missing_iff hlen).mp hm, fun stage place e hf => ?_⟩
  have hstage := stage_ge_of_countError? hc hf
  rcases Nat.lt_or_eq_of_le hstage with hlt | rfl
  · exact .inl hlt
  · obtain ⟨j', n', rfl, hm'⟩ := exists_missing hlen hf
    refine .inr ⟨rfl, Nat.add_le_add_left (Nat.le_of_not_lt (fun hj => ?_)) _⟩
    exact hfirst j' hj n' hm'

/-- The parameters that are given by position. -/
lemma getElem?_take_names (hlen : names.length = l.keywordNames.length) {j : Nat} {n : String} :
    (∃ r, ((names.zip l.keywordNames).take (c.args.length - l.positionalOnly))[j]? =
        some (r, n)) ↔
      l.keywordNames[j]? = some n ∧ l.positionalOnly + j < c.args.length := by
  rw [List.getElem?_take]
  by_cases hj : j < c.args.length - l.positionalOnly
  · rw [if_pos hj]
    constructor
    · rintro ⟨r, hr⟩
      exact ⟨(List.getElem?_zip_eq_some.mp hr).2, by omega⟩
    · rintro ⟨hn, -⟩
      have hlt := (List.getElem?_eq_some_iff.mp hn).1
      rw [← hlen] at hlt
      exact ⟨_, List.getElem?_zip_eq_some.mpr ⟨List.getElem?_eq_getElem hlt, hn⟩⟩
  · rw [if_neg hj]
    constructor
    · rintro ⟨r, hr⟩
      cases hr
    · rintro ⟨-, hlt⟩
      omega

/-- A keyword that is left over names a parameter given by position, or is an offence. -/
lemma offence?_of_leftover {g : Given} (hg : g.1 ∉ (c.freeNames l).map some) :
    (∃ j n, g.1 = some n ∧ l.keywordNames[j]? = some n ∧ l.positionalOnly + j < c.args.length) ∨
      ∃ e, c.offence? l.keywordNames g.1 = some e := by
  cases hs : g.1 with
  | none => exact .inr ⟨_, rfl⟩
  | some s =>
    by_cases hmem : s ∈ l.keywordNames
    · obtain ⟨j, hj⟩ := List.mem_iff_getElem?.mp hmem
      refine .inl ⟨j, s, rfl, hj, Nat.lt_of_not_le (fun hle => hg ?_)⟩
      rw [hs]
      exact List.mem_map_of_mem (mem_freeNames.mpr ⟨j, hj, hle⟩)
    · exact .inr ⟨_, if_neg hmem⟩

/-- The first offence is the first fault, if nothing else is wrong. -/
lemma firstFault_of_offence (hstage : ∀ stage place e, c.Fault l kw stage place e → 5 ≤ stage)
    {e : BindError} (he : kw.findSome? (fun g => c.offence? l.keywordNames g.1) = some e) :
    c.FirstFault l kw e := by
  obtain ⟨before, g, after, hkw, hoff, hbefore⟩ := List.findSome?_eq_some_iff.mp he
  have hat : kw[before.length]? = some g := by
    rw [hkw, List.getElem?_append_right (Nat.le_refl _), Nat.sub_self]
    rfl
  refine ⟨5, before.length, fault_iff_offence?.mpr ⟨g, hat, hoff⟩, fun stage place e' hf => ?_⟩
  rcases Nat.lt_or_eq_of_le (hstage stage place e' hf) with hlt | rfl
  · exact .inl hlt
  · obtain ⟨g', hg', hoff'⟩ := fault_iff_offence?.mp hf
    refine .inr ⟨rfl, Nat.le_of_not_lt (fun hlt => ?_)⟩
    rw [hkw, List.getElem?_append_left hlt] at hg'
    rw [hbefore g' (List.mem_of_getElem? hg')] at hoff'
    cases hoff'

/-- The first parameter that is given twice is the first fault, if no earlier stage fails. -/
lemma firstFault_of_duplicate (hstage : ∀ stage place e, c.Fault l kw stage place e → 4 ≤ stage)
    {j : Nat} {n : String} (hn : l.keywordNames[j]? = some n)
    (hlt : l.positionalOnly + j < c.args.length) (hsome : (valueOf kw n).isSome)
    (hfirst : ∀ j' < j, ∀ n', l.keywordNames[j']? = some n' → valueOf kw n' = none) :
    c.FirstFault l kw (.duplicateArgument c.spec.fname n (l.positionalOnly + j + 1)) := by
  have hat : l.keywordNames[l.positionalOnly + j - l.positionalOnly]? = some n := by
    rwa [Nat.add_sub_cancel_left]
  refine ⟨4, l.positionalOnly + j, .duplicateArgument (Nat.le_add_right _ _) hat hlt hsome,
    fun stage place e hf => ?_⟩
  rcases Nat.lt_or_eq_of_le (hstage stage place e hf) with hlt' | rfl
  · exact .inl hlt'
  · cases hf with
    | duplicateArgument hi hn' ha hv =>
      refine .inr ⟨rfl, Nat.le_of_not_lt (fun hplace => ?_)⟩
      rw [hfirst (place - l.positionalOnly) (by omega) _ hn'] at hv
      cases hv

/-- If a keyword is left over and no parameter is given twice, one is an offence. -/
lemma exists_offence (hleft : c.leftover l kw ≠ 0)
    (hnone : ∀ j n, l.keywordNames[j]? = some n → l.positionalOnly + j < c.args.length →
      valueOf kw n = none) :
    ∃ e, kw.findSome? (fun g => c.offence? l.keywordNames g.1) = some e := by
  -- Some keyword is left over. It names no parameter that is given by position, so it is an
  -- offence, and there is a first one.
  obtain ⟨g, hg, hfree⟩ := List.countP_pos_iff.mp (Nat.pos_of_ne_zero hleft)
  have hoffence : ∃ e, c.offence? l.keywordNames g.1 = some e := by
    rcases offence?_of_leftover (of_decide_eq_true hfree) with ⟨j, n, htext, hn, hlt⟩ | hoff
    · exact absurd htext (valueOf_eq_none.mp (hnone j n hn hlt) g hg)
    · exact hoff
  obtain ⟨e, he⟩ := hoffence
  refine Option.isSome_iff_exists.mp (List.findSome?_isSome_iff.mpr ⟨g, hg, ?_⟩)
  rw [he]
  rfl

/-- What explains the keywords that are left: the first parameter that is given twice, or else the
first offence. -/
lemma leftoverError?_spec (hs : Sees h l k kw names) (hleft : c.leftover l kw ≠ 0) :
    (∃ j n, l.keywordNames[j]? = some n ∧ l.positionalOnly + j < c.args.length ∧
        (valueOf kw n).isSome ∧
        (∀ j' < j, ∀ n', l.keywordNames[j']? = some n' → valueOf kw n' = none) ∧
        c.leftoverError? h l k (names.zip l.keywordNames) =
          some (.duplicateArgument c.spec.fname n (l.positionalOnly + j + 1))) ∨
      (∀ j n, l.keywordNames[j]? = some n → l.positionalOnly + j < c.args.length →
        valueOf kw n = none) ∧
        ∃ e, kw.findSome? (fun g => c.offence? l.keywordNames g.1) = some e ∧
          c.leftoverError? h l k (names.zip l.keywordNames) = some e := by
  have hlook : Looks h k kw
      ((names.zip l.keywordNames).take (c.args.length - l.positionalOnly)) :=
    fun p hp => hs.looks p (List.mem_of_mem_take hp)
  rcases duplicate?_spec (c := c) hlook l.positionalOnly with
    ⟨hrun, hall⟩ | ⟨j, ⟨r, n⟩, hj, hsome, hfirst, hrun⟩
  · have hnone : ∀ j n, l.keywordNames[j]? = some n → l.positionalOnly + j < c.args.length →
        valueOf kw n = none := by
      intro j n hn hlt
      obtain ⟨r, hj⟩ := (getElem?_take_names hs.length).mpr ⟨hn, hlt⟩
      exact hall j (r, n) hj
    obtain ⟨e, he⟩ := exists_offence hleft hnone
    refine .inr ⟨hnone, e, he, ?_⟩
    rw [leftoverError?, hrun, Option.none_or, findSome?_unexpected? hs.texts, he]
  · obtain ⟨hn, hlt⟩ := (getElem?_take_names hs.length).mp ⟨r, hj⟩
    refine .inl ⟨j, n, hn, hlt, hsome, fun j' hj' n' hn' => ?_, ?_⟩
    · obtain ⟨r', hat⟩ := (getElem?_take_names (c := c) hs.length).mpr ⟨hn', by omega⟩
      exact hfirst j' hj' (r', n') hat
    · rw [leftoverError?, hrun, Option.some_or]

/-- If a keyword is left over, the first fault is found. -/
lemma firstFault_of_leftover (hs : Sees h l k kw names)
    (hstage : ∀ stage place e, c.Fault l kw stage place e → 4 ≤ stage)
    (hleft : c.leftover l kw ≠ 0) :
    ∃ e, c.leftoverError? h l k (names.zip l.keywordNames) = some e ∧ c.FirstFault l kw e := by
  rcases leftoverError?_spec hs hleft with
    ⟨j, n, hn, hlt, hsome, hfirst, he⟩ | ⟨hnone, e, hoff, he⟩
  · exact ⟨_, he, firstFault_of_duplicate hstage hn hlt hsome hfirst⟩
  · refine ⟨e, he, firstFault_of_offence (fun stage place e hf => ?_) hoff⟩
    rcases Nat.lt_or_eq_of_le (hstage stage place e hf) with hlt | rfl
    · exact hlt
    · cases hf with
      | duplicateArgument hi hn ha hv =>
        rw [hnone _ _ hn (by omega)] at hv
        cases hv

/-- If no keyword is left over, each names a free parameter. -/
lemma named_of_leftover (hleft : c.leftover l kw = 0) :
    ∀ g ∈ kw, ∃ s j, g.1 = some s ∧ l.keywordNames[j]? = some s ∧
      c.args.length ≤ l.positionalOnly + j := by
  intro g hg
  have hmem := List.countP_eq_zero.mp hleft g hg
  rw [decide_eq_true_iff, not_not] at hmem
  obtain ⟨s, hfree, hname⟩ := List.mem_map.mp hmem
  obtain ⟨j, hj, hle⟩ := mem_freeNames.mp hfree
  exact ⟨s, j, hname.symm, hj, hle⟩

end Reports

/-! ## The slots -/

section Slots

variable {names : List Ref}

/-- The arguments by position, the parameters without a name that are not given, and the values of
the free parameters are the arguments of all parameters. -/
lemma join_getElem?_slots (hlen : names.length = l.keywordNames.length) (i : Nat) :
    (c.args.map some ++ List.replicate (l.positionalOnly - c.args.length) none ++
      (c.free l names).map (fun p => valueOf kw p.2))[i]?.join = c.argument? l kw i := by
  have hlength : (c.args.map some ++
      List.replicate (l.positionalOnly - c.args.length) (none : Option Ref)).length =
      c.firstFree l := by
    rw [List.length_append, List.length_map, List.length_replicate, firstFree]
    omega
  -- In front of the first free parameter stand the arguments by position, and then the empty slots
  -- of parameters without a name.
  rcases Nat.lt_or_ge i (c.firstFree l) with hlt | hge
  · rw [List.getElem?_append_left (by rw [hlength]; exact hlt)]
    rcases Nat.lt_or_ge i c.args.length with hi | hi
    · rw [List.getElem?_append_left (by rw [List.length_map]; exact hi), argument?_of_lt hi,
        List.getElem?_map, List.getElem?_eq_getElem hi]
      rfl
    · have hp : i < l.positionalOnly := by
        rw [firstFree] at hlt
        omega
      rw [List.getElem?_append_right (by rw [List.length_map]; exact hi), List.length_map,
        List.getElem?_replicate, if_pos (by omega), argument?, if_neg (Nat.not_lt.mpr hi),
        if_pos hp]
      rfl
  · obtain ⟨j, rfl⟩ := Nat.exists_eq_add_of_le hge
    have hargs : c.args.length ≤ c.firstFree l + j := by
      rw [firstFree]
      omega
    have hp : l.positionalOnly ≤ c.firstFree l + j := by
      rw [firstFree]
      omega
    rw [List.getElem?_append_right (by rw [hlength]; exact hge), hlength,
      Nat.add_sub_cancel_left, List.getElem?_map]
    cases hj : (c.free l names)[j]? with
    | some p =>
      have hn := (getElem?_free hlen).mp ⟨p.1, hj⟩
      rw [argument?_of_name hargs hp hn]
      rfl
    | none =>
      have hn : l.keywordNames[c.firstFree l + j - l.positionalOnly]? = none := by
        refine Option.eq_none_iff_forall_ne_some.mpr (fun n hn => ?_)
        obtain ⟨r, hr⟩ := (getElem?_free (c := c) hlen).mpr hn
        cases hj.symm.trans hr
      rw [argument?, if_neg (Nat.not_lt.mpr hargs), if_neg (Nat.not_lt.mpr hp), hn]
      rfl

/-- **The long way.** If no count is wrong, matching reports the first fault, or nothing is wrong
and every parameter has its argument. -/
theorem slots_spec (hfit : c.arity.Fits l) (hn : l.keywordNames.Nodup) (hkw : Unambiguous kw)
    (hs : Sees h l k kw names) (hc : c.countError? l kw.length = none) :
    (∃ slots, c.slots h l k names = .ok slots ∧
        (∀ stage place e, ¬ c.Fault l kw stage place e) ∧
        ∀ i : Nat, slots[i]?.join = c.argument? l kw i) ∨
      ∃ e, c.slots h l k names = .error e ∧ c.FirstFault l kw e := by
  have hfill := fill_free (c := c) hn hkw hs
  generalize hresult : c.fill h k (c.firstFree l) k.count (c.free l names) = result at hfill
  have hrun : c.fill h k (max c.args.length l.positionalOnly) k.count
      ((names.zip l.keywordNames).drop (c.args.length - l.positionalOnly)) = result := hresult
  rw [slots, hrun]
  cases hfill with
  | missing hm hfirst =>
    refine .inr ⟨_, rfl, ?_⟩
    exact firstFault_of_missing hs.length hc hm hfirst
  | filled hnone =>
    -- The counts are right and nothing is missing, so any fault is of the stages that are looked at
    -- last.
    have hstage : ∀ stage place e, c.Fault l kw stage place e → 4 ≤ stage := by
      intro stage place e hf
      rcases Nat.lt_or_eq_of_le (stage_ge_of_countError? hc hf) with hlt | rfl
      · exact hlt
      · obtain ⟨j, n, -, hm⟩ := exists_missing hs.length hf
        exact absurd hm (hnone hfit.minPositional_le j n)
    by_cases hleft : c.leftover l kw = 0
    · refine .inl ⟨_, if_pos hleft, fun stage place e hf => ?_, join_getElem?_slots hs.length⟩
      have hge := hstage stage place e hf
      have hlt := stage_lt_of_named hn (named_of_leftover hleft) hf
      omega
    · obtain ⟨e, he, hfirst⟩ := firstFault_of_leftover hs hstage hleft
      refine .inr ⟨e, ?_, hfirst⟩
      refine (if_neg hleft).trans ?_
      split
      case h_1 e' he' =>
        cases he.symm.trans he'
        rfl
      case h_2 he' => cases he.symm.trans he'

end Slots

end Call

end NativeCall
