import NativeCall.Proofs.Bind.Contract

/-!
# Matching arguments with parameters

The long way of binding a call fills the slots of the free parameters in order and counts how many
keywords are left. Here every lookup is taken to be right (`Looks`): it finds the value of the
keyword that has the name of the parameter. That it is right on a heap with interned names is
another matter, and has a place of its own (`Keywords.lookup_eq_valueOf`).

## The counter

The loop keeps a number and not the keywords themselves, and decides by this number when to stop
looking. What carries it is that the number is right: the keywords that are not used yet are those
of the parameters to come that have a value, and some that fill no slot at all. `fill_spec` says so,
with `extra` for the second kind. It is the invariant, stated for the loop from any parameter on:
whoever enters with as many keywords left as there are parameters to come with a value, and `extra`
more, comes out with `extra` left.

So when none is left, no parameter to come has a value, and stopping early leaves empty what would
be empty anyway (`Fills.stopped`). When the loop is through, the count is that of the keywords that
fill no slot, which is what decides whether there is something to explain.

What a loop can lead to is an inductive of two cases (`Fills`), the first missing parameter and a
value for each. In the second case none is missing, but only if no more arguments must be given by
position than may be. Otherwise the loop can stop in front of a parameter that is required, since it
compares its index with the end of one of the two required ranges only.

## Explanations

`duplicate?_spec` and `fault_iff_offence?` relate the two searches of an explanation to the faults
of the last two stages: the first parameter given twice, and the first keyword that names none.
-/

namespace NativeCall

namespace Call

variable {c : Call} {h : Heap} {k : Keywords} {kw : List Given} {l : Layout}

/-- Looking a parameter up finds the keyword of its name. -/
def Looks (h : Heap) (k : Keywords) (kw : List Given) (params : List (Ref × String)) : Prop :=
  ∀ p ∈ params, k.lookup h p.1 p.2 = valueOf kw p.2

/-! ## Filling slots -/

/-- The parameter at place `j` of those from index `i` on is required and has no value. -/
def Missing (c : Call) (kw : List Given) (i : Nat) (params : List (Ref × String)) (j : Nat)
    (name : String) : Prop :=
  ∃ r, params[j]? = some (r, name) ∧ valueOf kw name = none ∧ c.arity.requires (i + j) = true

section Missing

variable {i j : Nat} {p : Ref × String} {params : List (Ref × String)} {n : String}

lemma missing_zero : c.Missing kw i (p :: params) 0 n ↔
    n = p.2 ∧ valueOf kw p.2 = none ∧ c.arity.requires i = true := by
  constructor
  · rintro ⟨r, hp, hv, hr⟩
    obtain rfl : p = (r, n) := Option.some.inj hp
    exact ⟨rfl, hv, hr⟩
  · rintro ⟨rfl, hv, hr⟩
    exact ⟨p.1, rfl, hv, hr⟩

lemma missing_succ :
    c.Missing kw i (p :: params) (j + 1) n ↔ c.Missing kw (i + 1) params j n := by
  rw [Missing, Missing, List.getElem?_cons_succ, Nat.add_right_comm i 1 j, Nat.add_assoc i j 1]

end Missing

lemma minPositional_le_requiredEnd (hmin : c.arity.minPositional ≤ c.arity.maxPositional) :
    c.arity.minPositional ≤ c.arity.requiredEnd := by
  rw [Arity.requiredEnd]
  split
  · exact Nat.le_trans hmin (Nat.le_add_right _ _)
  · exact Nat.le_refl _

lemma requires_of_requiredEnd_le (hmin : c.arity.minPositional ≤ c.arity.maxPositional) {i : Nat}
    (hi : c.arity.requiredEnd ≤ i) : c.arity.requires i = false := by
  have hle := minPositional_le_requiredEnd hmin
  rw [Arity.requires, decide_eq_false (show ¬ i < c.arity.minPositional by omega),
    decide_eq_false (show ¬ i < c.arity.requiredEnd by omega)]
  simp

/-- What filling the slots of the parameters from index `i` on can lead to, if `extra` keywords
fill no slot: the first one that is missing is reported, or every parameter gets its value. In the
second case none is missing, unless more arguments must be given by position than may be: then
filling can stop before a parameter that is required. -/
inductive Fills (c : Call) (kw : List Given) (i : Nat) (params : List (Ref × String))
    (extra : Nat) : Except BindError (List (Option Ref) × Nat) → Prop where
  | missing {j : Nat} {name : String} (hm : c.Missing kw i params j name)
      (hfirst : ∀ j' < j, ∀ n, ¬ c.Missing kw i params j' n) :
      Fills c kw i params extra (.error (.missingRequired c.spec.fname name (i + j + 1)))
  | filled (hnone : c.arity.minPositional ≤ c.arity.maxPositional →
        ∀ j n, ¬ c.Missing kw i params j n) :
      Fills c kw i params extra (.ok (params.map (fun p => valueOf kw p.2), extra))

/-- A parameter that is not missing in front of the others. -/
lemma Fills.cons {i extra : Nat} {p : Ref × String} {params : List (Ref × String)}
    {result : Except BindError (List (Option Ref) × Nat)}
    (h0 : ¬ (valueOf kw p.2 = none ∧ c.arity.requires i = true))
    (hf : c.Fills kw (i + 1) params extra result) :
    c.Fills kw i (p :: params) extra
      (do let filled ← result; .ok (valueOf kw p.2 :: filled.1, filled.2)) := by
  have hzero : ∀ n, ¬ c.Missing kw i (p :: params) 0 n := by
    intro n
    rw [missing_zero]
    exact fun hm => h0 hm.2
  cases hf with
  | @missing j name hm hfirst =>
    -- A place in the rest is one further on in the whole, and the index it has is the same.
    have hindex : i + 1 + j + 1 = i + (j + 1) + 1 := by omega
    rw [hindex]
    refine .missing (missing_succ.mpr hm) (fun j' hj' n => ?_)
    cases j' with
    | zero => exact hzero n
    | succ j' =>
      rw [missing_succ]
      exact hfirst j' (Nat.lt_of_succ_lt_succ hj') n
  | filled hnone =>
    refine .filled (fun hmin j n => ?_)
    cases j with
    | zero => exact hzero n
    | succ j =>
      rw [missing_succ]
      exact hnone hmin j n

/-- Behind the last required parameter nothing is missing, so the rest may stay empty if no keyword
is left for it. -/
lemma Fills.stopped {i extra : Nat} (hend : c.arity.requiredEnd ≤ i)
    {params : List (Ref × String)}
    (hnone : ∀ p ∈ params, valueOf kw p.2 = none) :
    c.Fills kw i params extra (.ok (params.map (fun _ => none), extra)) := by
  rw [List.map_congr_left (fun p hp => (hnone p hp).symm)]
  refine .filled ?_
  rintro hmin j n ⟨r, -, -, hr⟩
  rw [requires_of_requiredEnd_le hmin (Nat.le_trans hend (Nat.le_add_right i j))] at hr
  cases hr

/-- A parameter need not be looked up if no keyword is left. -/
lemma lookup_of_remaining {p : Ref × String} {remaining : Nat}
    (hlook : k.lookup h p.1 p.2 = valueOf kw p.2)
    (hleft : (valueOf kw p.2).isSome → 0 < remaining) :
    (if 0 < remaining then k.lookup h p.1 p.2 else none) = valueOf kw p.2 := by
  split
  · exact hlook
  · rename_i hzero
    have hnone : ¬ (valueOf kw p.2).isSome := fun hsome => hzero (hleft hsome)
    exact (Option.not_isSome_iff_eq_none.mp hnone).symm

lemma fill_spec {params : List (Ref × String)} (hlook : Looks h k kw params) (i extra : Nat) :
    c.Fills kw i params extra
      (c.fill h k i (params.countP (fun p => (valueOf kw p.2).isSome) + extra) params) := by
  induction params generalizing i with
  | nil =>
    rw [fill, List.countP_nil, Nat.zero_add]
    refine .filled ?_
    rintro - j n ⟨r, hj, -⟩
    cases hj
  | cons p params ih =>
    obtain ⟨interned, name⟩ := p
    have hrest : Looks h k kw params := fun q hq => hlook q (List.mem_cons_of_mem _ hq)
    -- The counter as a variable: the goal speaks of it in three places, and each case computes it
    -- in its own way.
    generalize hremaining :
      ((interned, name) :: params).countP (fun p => (valueOf kw p.2).isSome) + extra = remaining
    have hcount := hremaining
    rw [List.countP_cons] at hcount
    rw [fill]
    by_cases hbreak : remaining = 0 ∧ c.arity.requiredEnd ≤ i
    · -- No keyword is left, so no parameter to come has a value.
      obtain ⟨hzero, hend⟩ := hbreak
      have hnone : ∀ q ∈ (interned, name) :: params, valueOf kw q.2 = none := by
        intro q hq
        have hcountP : ((interned, name) :: params).countP
            (fun p => (valueOf kw p.2).isSome) = 0 := by omega
        exact Option.not_isSome_iff_eq_none.mp (List.countP_eq_zero.mp hcountP q hq)
      have hextra : remaining = extra := by omega
      rw [if_pos ⟨hzero, hend⟩, hextra]
      exact .stopped hend hnone
    · have hcurrent :
          (if 0 < remaining then k.lookup h interned name else none) = valueOf kw name := by
        refine lookup_of_remaining (hlook (interned, name) List.mem_cons_self) (fun hsome => ?_)
        rw [if_pos hsome] at hcount
        omega
      rw [if_neg hbreak, hcurrent]
      cases hv : valueOf kw name with
      | some r =>
        have hsub : remaining - 1 = params.countP (fun p => (valueOf kw p.2).isSome) + extra := by
          rw [hv, Option.isSome_some, if_pos rfl] at hcount
          omega
        simp only [hsub]
        rw [← hv]
        refine (ih hrest (i + 1)).cons (fun h0 => ?_)
        cases hv.symm.trans h0.1
      | none =>
        by_cases hreq : c.arity.requires i = true
        · simp only [if_pos hreq]
          refine .missing (j := 0) (missing_zero.mpr ⟨rfl, hv, hreq⟩) (fun j' hj' => ?_)
          cases hj'
        -- This parameter is none of those that have a value, so the count for the others is the
        -- same.
        · have hsame : remaining = params.countP (fun p => (valueOf kw p.2).isSome) + extra := by
            rw [hv, Option.isSome_none, if_neg Bool.false_ne_true] at hcount
            omega
          simp only [if_neg hreq, hsame]
          rw [← hv]
          exact (ih hrest (i + 1)).cons (fun h0 => hreq h0.2)

/-! ## Explaining what is left -/

/-- The first parameter given by position that has a keyword too is reported. -/
lemma duplicate?_spec {params : List (Ref × String)} (hlook : Looks h k kw params) (i : Nat) :
    (c.duplicate? h k i params = none ∧
        ∀ (j : Nat) (p : Ref × String), params[j]? = some p → valueOf kw p.2 = none) ∨
      ∃ (j : Nat) (p : Ref × String), params[j]? = some p ∧ (valueOf kw p.2).isSome ∧
        (∀ j' < j, ∀ q : Ref × String, params[j']? = some q → valueOf kw q.2 = none) ∧
        c.duplicate? h k i params = some (.duplicateArgument c.spec.fname p.2 (i + j + 1)) := by
  induction params generalizing i with
  | nil =>
    refine .inl ⟨rfl, fun j p hp => ?_⟩
    cases hp
  | cons p params ih =>
    obtain ⟨interned, name⟩ := p
    have hrest : Looks h k kw params := fun q hq => hlook q (List.mem_cons_of_mem _ hq)
    have hhead : k.lookup h interned name = valueOf kw name :=
      hlook (interned, name) List.mem_cons_self
    rw [duplicate?, hhead]
    by_cases hv : (valueOf kw name).isSome
    · rw [if_pos hv]
      refine .inr ⟨0, (interned, name), rfl, hv, fun j' hj' => ?_, rfl⟩
      cases hj'
    · rw [if_neg hv]
      have hnone : valueOf kw name = none := Option.not_isSome_iff_eq_none.mp hv
      rcases ih hrest (i + 1) with ⟨hrun, hall⟩ | ⟨j, q, hq, hsome, hfirst, hrun⟩
      · refine .inl ⟨hrun, fun j q hq => ?_⟩
        cases j with
        | zero =>
          cases hq
          exact hnone
        | succ j => exact hall j q hq
      · have hindex : i + 1 + j + 1 = i + (j + 1) + 1 := by omega
        rw [hindex] at hrun
        refine .inr ⟨j + 1, q, hq, hsome, fun j' hj' q' hq' => ?_, hrun⟩
        cases j' with
        | zero =>
          cases hq'
          exact hnone
        | succ j' => exact hfirst j' (Nat.lt_of_succ_lt_succ hj') q' hq'

/-- What is wrong with a keyword of some text. -/
def offence? (c : Call) (names : List String) : Option String → Option BindError
  | none => some .nonStringKeyword
  | some s => if s ∈ names then none else some (.unexpectedKeyword c.spec.fname s)

lemma unexpected?_eq (names : List String) (key : Ref) :
    c.unexpected? h names key = c.offence? names (h.text? key) := by
  rw [unexpected?]
  cases h.text? key <;> rfl

/-- Only the texts of keywords are looked at. -/
lemma findSome?_unexpected? (hk : k.supplied.map h.text? = kw.map (·.1)) (names : List String) :
    k.supplied.findSome? (c.unexpected? h names) =
      kw.findSome? (fun g => c.offence? names g.1) := by
  calc k.supplied.findSome? (c.unexpected? h names)
    _ = k.supplied.findSome? (c.offence? names ∘ h.text?) := by
      rw [show c.unexpected? h names = c.offence? names ∘ h.text? from
        funext (unexpected?_eq names)]
    _ = (k.supplied.map h.text?).findSome? (c.offence? names) := List.findSome?_map.symm
    _ = (kw.map (·.1)).findSome? (c.offence? names) := by rw [hk]
    _ = kw.findSome? (fun g => c.offence? names g.1) := List.findSome?_map

/-- An offence is a fault of the last stage. -/
lemma fault_iff_offence? {place : Nat} {e : BindError} : c.Fault l kw 5 place e ↔
    ∃ g, kw[place]? = some g ∧ c.offence? l.keywordNames g.1 = some e := by
  constructor
  · intro hf
    cases hf with
    | nonStringKeyword hg h => exact ⟨_, hg, by rw [h]; rfl⟩
    | unexpectedKeyword hg hs h => exact ⟨_, hg, by rw [hs, offence?, if_neg h]⟩
  · rintro ⟨g, hg, hoff⟩
    cases hs : g.1 with
    | none =>
      rw [hs] at hoff
      cases hoff
      exact .nonStringKeyword hg hs
    | some s =>
      rw [hs, offence?] at hoff
      by_cases hmem : s ∈ l.keywordNames
      · rw [if_pos hmem] at hoff
        cases hoff
      · rw [if_neg hmem] at hoff
        cases hoff
        exact .unexpectedKeyword hg hs hmem

end Call

end NativeCall
