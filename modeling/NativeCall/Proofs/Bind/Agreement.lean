import NativeCall.Proofs.Bind.Placement
import NativeCall.Proofs.Heap.ExactCounts
import NativeCall.Proofs.Heap.Keys

/-!
# Ways of binding that agree

A call can go the short way or the long way, and its keywords can come in a dict or beside a tuple
of names. Neither makes a difference to the answer.

## Short and long

A call with no keywords, none that is required, and a number of arguments by position that the arity
allows is answered at once, with the arguments as they came. The long way has nothing to complain of
such a call: the counts are right (`countError?_of_isFast`), and filling stops before the first free
parameter since no keyword is left and the last required parameter was given by position
(`fill_nothing`). It answers with slots and so with another kind of arguments, which is why
`bindSlow_of_isFast` compares what each parameter gets and not the two answers. It also interns
names, and may be refused one; that it is not is a premise.

## Dict and tuple

A dict is looked into by text, a tuple of names by identity and then by text. Matching uses no more
of the keywords than their number, their texts in order, and what the declared names find (`Sees`),
and a dict made of pairs and a tuple of their names agree in all three (`slots_passing`). All the
more general lemmas say this of any two ways of passing keywords with the same names and values
(`bindUntraced_passing`); that the way does not matter includes the counts, the interning and the
order in which faults are found.

`bind_dict_eq_bind_names` is the case that a caller meets, and there only the keys have to differ.
They may be any objects. A key that is no string is an error both ways, and strings that are not
interned are found by their text both ways.
-/

namespace NativeCall

namespace Call

variable {declared : Set ParamSpec} {c c' : Context} {s : Holdings} {call : Call} {l : Layout}
  {k : Keywords} {names : List Ref} {h : Heap}

/-! ## The short way and the long way -/

lemma countError?_of_isFast {n : Nat} (hmax : call.arity.maxPositional ≤ l.maxArgs)
    (hfast : call.isFast n = true) : call.countError? l n = none := by
  simp only [isFast, Bool.and_eq_true, decide_eq_true_iff] at hfast
  obtain ⟨⟨⟨rfl, -⟩, hmin⟩, hmost⟩ := hfast
  simp only [countError?]
  rw [if_neg (by omega), if_neg (by omega), if_neg (by omega)]

lemma requiredEnd_of_isFast {n : Nat} (hfast : call.isFast n = true) :
    call.arity.requiredEnd ≤ call.args.length := by
  simp only [isFast, Bool.and_eq_true, decide_eq_true_iff] at hfast
  obtain ⟨⟨⟨-, hkey⟩, hmin⟩, -⟩ := hfast
  rw [Arity.requiredEnd, if_neg (by omega)]
  exact hmin

/-- Without keywords nothing is filled behind the last required parameter. -/
lemma fill_nothing {i : Nat} (hend : call.arity.requiredEnd ≤ i) (params : List (Ref × String)) :
    call.fill h k i 0 params = .ok (params.map (fun _ => none), 0) := by
  cases params with
  | nil => rfl
  | cons p params => rw [fill, if_pos ⟨rfl, hend⟩]

/-- Matching a call that needs no matching leaves the arguments in front and nothing behind them. -/
lemma slots_of_isFast (h : Heap) (l : Layout) (names : List Ref)
    (hfast : call.isFast k.count = true) :
    ∃ n, call.slots h l k names = .ok (call.args.map some ++ List.replicate n none) := by
  have hzero : k.count = 0 := by
    simp only [isFast, Bool.and_eq_true, decide_eq_true_iff] at hfast
    exact hfast.1.1.1
  have hend : call.arity.requiredEnd ≤ max call.args.length l.positionalOnly :=
    Nat.le_trans (requiredEnd_of_isFast hfast) (Nat.le_max_left _ _)
  -- The empty slots are those of parameters without a name and those of all that have one.
  refine ⟨l.positionalOnly - call.args.length +
    ((names.zip l.keywordNames).drop (call.args.length - l.positionalOnly)).length, ?_⟩
  rw [slots, hzero]
  simp only [fill_nothing hend]
  rw [List.map_const', List.replicate_add, ← List.append_assoc]
  rfl

lemma get?_filled_replicate (args : List Ref) (n i : Nat) :
    (BoundArgs.filled (args.map some ++ List.replicate n none)).get? i =
      (BoundArgs.borrowed args).get? i := by
  show (args.map some ++ List.replicate n none)[i]?.join = args[i]?
  rw [List.getElem?_append, List.length_map]
  split
  · rw [List.getElem?_map]
    cases args[i]? <;> rfl
  · rename_i hi
    rw [List.getElem?_eq_none (Nat.le_of_not_lt hi), List.getElem?_replicate]
    split <;> rfl

/-- **The short way is the long way.** Let the names of a declaration get interned. A call that
needs no matching is answered with its own arguments; the long way accepts it too, and answers with
slots that have the same argument for every parameter. -/
theorem bindSlow_of_isFast (hl : call.spec.layout = .ok l)
    (hmax : call.arity.maxPositional ≤ l.maxArgs)
    (hk : Keywords.resolve c.heap call.keywords = .ok k) (hfast : call.isFast k.count = true)
    (hnames : (internNames call.spec).run c = .ok (.ok names) c') :
    ∃ t slots, call.bind.run c = .ok (.ok (.borrowed call.args)) { c with tracer := t } ∧
      (call.bindSlow l k).run c = .ok (.ok (.filled slots)) c' ∧
      ∀ i, (BoundArgs.filled slots).get? i = (BoundArgs.borrowed call.args).get? i := by
  obtain ⟨t, hshort⟩ := bind_run (bindUntraced_run_fast hl hk hfast)
  have hlong := bindSlow_run (countError?_of_isFast hmax hfast) hnames
  obtain ⟨n, hslots⟩ := slots_of_isFast c'.heap l names hfast
  rw [hslots] at hlong
  exact ⟨t, _, hshort, hlong, get?_filled_replicate call.args n⟩

/-- Without keywords, which are passed as an empty tuple here, an optional parameter is left empty
either way. -/
theorem bindSlow_of_isFast_optional : ∃ (f : Call) (c : Context) (t : Tracer) (slots : _) (c' : _),
    f = ⟨⟨0, ["", "y"], some "f"⟩, [Heap.trueRef], .names Heap.emptyTupleRef [], ⟨0, 2, 0⟩⟩ ∧
    f.bind.run c = .ok (.ok (.borrowed [Heap.trueRef])) { c with tracer := t } ∧
      (f.bindSlow ⟨1, ["y"]⟩ (.pairs [])).run c = .ok (.ok (.filled slots)) c' ∧
      (BoundArgs.filled slots).get? 0 = some Heap.trueRef ∧
      (BoundArgs.filled slots).get? 1 = none := by
  let f : Call :=
    ⟨⟨0, ["", "y"], some "f"⟩, [Heap.trueRef], .names Heap.emptyTupleRef [], ⟨0, 2, 0⟩⟩
  let c : Context := .fresh none .silent
  have hl : f.spec.layout = .ok ⟨1, ["y"]⟩ := rfl
  have hk : Keywords.resolve c.heap f.keywords = .ok (.pairs []) := rfl
  have hnames : (internNames f.spec).run c = .ok (.ok [⟨4⟩]) _ := rfl
  obtain ⟨t, slots, hshort, hlong, hget⟩ :=
    bindSlow_of_isFast hl (by decide) hk (by decide) hnames
  exact ⟨f, c, t, slots, _, rfl, hshort, hlong, hget 0, hget 1⟩

/-! ## Keywords passed in another way -/

/-- The call with its keywords passed in another way. -/
def passing (call : Call) (source : KeywordSource) : Call :=
  { call with keywords := source }

section Passing

@[simp] lemma passing_spec (call : Call) (source : KeywordSource) :
    (call.passing source).spec = call.spec := rfl

@[simp] lemma passing_args (call : Call) (source : KeywordSource) :
    (call.passing source).args = call.args := rfl

@[simp] lemma passing_arity (call : Call) (source : KeywordSource) :
    (call.passing source).arity = call.arity := rfl

variable {source : KeywordSource} {k' : Keywords} {kw : List Given}

/-- Filling slots looks at keywords by the declared names only. -/
lemma fill_passing {params : List (Ref × String)}
    (hlook : ∀ p ∈ params, k'.lookup h p.1 p.2 = k.lookup h p.1 p.2) (i remaining : Nat) :
    (call.passing source).fill h k' i remaining params = call.fill h k i remaining params := by
  induction params generalizing i remaining with
  | nil => rfl
  | cons p params ih =>
    obtain ⟨interned, name⟩ := p
    have hhead : k'.lookup h interned name = k.lookup h interned name :=
      hlook (interned, name) List.mem_cons_self
    have hrest := ih (fun p hp => hlook p (List.mem_cons_of_mem _ hp))
    simp only [fill, hhead, hrest, passing_spec, passing_arity]

lemma duplicate?_passing {params : List (Ref × String)}
    (hlook : ∀ p ∈ params, k'.lookup h p.1 p.2 = k.lookup h p.1 p.2) (i : Nat) :
    (call.passing source).duplicate? h k' i params = call.duplicate? h k i params := by
  induction params generalizing i with
  | nil => rfl
  | cons p params ih =>
    obtain ⟨interned, name⟩ := p
    have hhead : k'.lookup h interned name = k.lookup h interned name :=
      hlook (interned, name) List.mem_cons_self
    have hrest := ih (fun p hp => hlook p (List.mem_cons_of_mem _ hp))
    simp only [duplicate?, hhead, hrest, passing_spec]

/-- Matching depends on what it sees of the keywords, and not on how they were passed. -/
lemma slots_passing (hs : Sees h l k kw names) (hs' : Sees h l k' kw names) :
    (call.passing source).slots h l k' names = call.slots h l k names := by
  have hlook : ∀ p ∈ names.zip l.keywordNames, k'.lookup h p.1 p.2 = k.lookup h p.1 p.2 :=
    fun p hp => (hs'.looks p hp).trans (hs.looks p hp).symm
  have hfill : (call.passing source).fill h k' (max call.args.length l.positionalOnly) kw.length
      ((names.zip l.keywordNames).drop (call.args.length - l.positionalOnly)) =
        call.fill h k (max call.args.length l.positionalOnly) kw.length
          ((names.zip l.keywordNames).drop (call.args.length - l.positionalOnly)) :=
    fill_passing (fun p hp => hlook p (List.mem_of_mem_drop hp)) _ _
  have hduplicate : (call.passing source).duplicate? h k' l.positionalOnly
      ((names.zip l.keywordNames).take (call.args.length - l.positionalOnly)) =
        call.duplicate? h k l.positionalOnly
          ((names.zip l.keywordNames).take (call.args.length - l.positionalOnly)) :=
    duplicate?_passing (fun p hp => hlook p (List.mem_of_mem_take hp)) _
  have hunexpected : k'.supplied.findSome? ((call.passing source).unexpected? h l.keywordNames) =
      k.supplied.findSome? (call.unexpected? h l.keywordNames) := by
    rw [findSome?_unexpected? hs.texts, findSome?_unexpected? hs'.texts]
    rfl
  simp only [slots, leftoverError?, passing_args, hs.count, hs'.count, hfill, hduplicate,
    hunexpected]

/-- The long way depends on the keywords that were given, and not on how they were passed. -/
lemma bindSlow_passing (hr : Reachable declared c s) (hspec : call.spec ∈ declared)
    (hl : call.spec.layout = .ok l) (hk : Keywords.resolve c.heap call.keywords = .ok k)
    (hk' : Keywords.resolve c.heap source = .ok k') (hgiven : k'.given c.heap = k.given c.heap)
    (hkw : Unambiguous (k.given c.heap)) :
    ∃ answer c', (call.bindSlow l k).run c = .ok answer c' ∧
      ((call.passing source).bindSlow l k').run c = .ok answer c' := by
  have hcount : (call.passing source).countError? l k'.count = call.countError? l k.count := by
    rw [k'.count_eq c.heap, hgiven, ← k.count_eq c.heap]
    rfl
  cases hc : call.countError? l k.count with
  | some e =>
    exact ⟨_, _, bindSlow_run_of_countError? hc, bindSlow_run_of_countError? (hcount.trans hc)⟩
  | none =>
    obtain ⟨outcome, c', hnames, -⟩ := internNames_run hr.sound hspec
    cases outcome with
    | error e =>
      exact ⟨_, _, bindSlow_run_refused hc hnames, bindSlow_run_refused (hcount.trans hc) hnames⟩
    | ok names =>
      have hsees := sees_of_internNames hr hspec hl hk hkw hnames
      have hsees' := sees_of_internNames hr hspec hl hk' (by rwa [hgiven]) hnames
      rw [hgiven] at hsees'
      refine ⟨_, _, bindSlow_run hc hnames, ?_⟩
      rw [bindSlow_run (hcount.trans hc) hnames, slots_passing hsees hsees']

/-- Binding depends on the keywords that were given, and not on how they were passed. -/
lemma bindUntraced_passing (hr : Reachable declared c s) (hspec : call.spec ∈ declared)
    (hk : Keywords.resolve c.heap call.keywords = .ok k)
    (hk' : Keywords.resolve c.heap source = .ok k') (hgiven : k'.given c.heap = k.given c.heap)
    (hkw : Unambiguous (k.given c.heap)) :
    ∃ outcome c', call.bindUntraced.run c = .ok outcome c' ∧
      (call.passing source).bindUntraced.run c = .ok outcome c' := by
  have hcount : k'.count = k.count := by rw [k'.count_eq c.heap, hgiven, ← k.count_eq c.heap]
  cases hl : call.spec.layout with
  | error e => exact ⟨_, _, bindUntraced_run_invalid hl hk, bindUntraced_run_invalid hl hk'⟩
  | ok l =>
    by_cases hfast : call.isFast k.count = true
    · have hfast' : (call.passing source).isFast k'.count = true := by rwa [hcount]
      exact ⟨_, _, bindUntraced_run_fast hl hk hfast, bindUntraced_run_fast hl hk' hfast'⟩
    · have hfast' : ¬ (call.passing source).isFast k'.count = true := by rwa [hcount]
      obtain ⟨answer, c', hrun, hrun'⟩ := bindSlow_passing hr hspec hl hk hk' hgiven hkw
      have hslow' : (call.passing source).bindUntraced.run c =
          .ok (answer.map (fun bound => (bound, k'.count))) c' :=
        bindUntraced_run_slow hl hk' hfast' hrun'
      rw [hcount] at hslow'
      exact ⟨_, c', bindUntraced_run_slow hl hk hfast hrun, hslow'⟩

lemma bind_passing (hr : Reachable declared c s) (hspec : call.spec ∈ declared)
    (hk : Keywords.resolve c.heap call.keywords = .ok k)
    (hk' : Keywords.resolve c.heap source = .ok k') (hgiven : k'.given c.heap = k.given c.heap)
    (hkw : Unambiguous (k.given c.heap)) :
    ∃ answer c', call.bind.run c = .ok answer c' ∧
      (call.passing source).bind.run c = .ok answer c' := by
  obtain ⟨outcome, c', hrun, hrun'⟩ := bindUntraced_passing hr hspec hk hk' hgiven hkw
  cases outcome with
  | ok bound => exact ⟨_, _, bind_ok hrun, bind_ok hrun'⟩
  | error e => exact ⟨_, _, bind_ok hrun, bind_ok hrun'⟩

end Passing

/-! ## Keywords in a dict and beside a tuple -/

/-- **The two conventions agree.** Let some pairs have keys that are pairwise distinct, whatever
objects they are. Binding a call with the dict that is made of the pairs, and binding it with a
tuple of their keys beside their values, has the same outcome in every reachable runtime: the same
arguments, or the same error, and the same runtime afterwards. -/
theorem bind_dict_eq_bind_names {spec : ParamSpec} {args : List Ref} {arity : Arity}
    {pairs : List (Ref × Ref)} {h h' : Heap} {d : Dict} {dict names : Ref}
    (hr : Reachable declared c s) (hspec : spec ∈ declared) (hp : h.DistinctKeys pairs)
    (hd : (Heap.dictOfPairs (pairs.flatMap (fun p => [p.1, p.2]))).run h = .ok (.ok d) h')
    (hdict : c.heap.dict? dict = some d)
    (hnames : c.heap.tupleItems? names = some (pairs.map (·.1))) :
    ∃ answer c', (bind ⟨spec, args, .dict dict, arity⟩).run c = .ok answer c' ∧
      (bind ⟨spec, args, .names names (pairs.map (·.2)), arity⟩).run c = .ok answer c' := by
  obtain ⟨d', hrun, hitems⟩ := Heap.dictOfPairs_run hp
  cases hrun.symm.trans hd
  -- Both are read off the same pairs: the dict has them as entries, in order, since their keys
  -- differ.
  have hk : Keywords.resolve c.heap (.dict dict) = .ok (.dict d) := by
    rw [Keywords.resolve, hdict]
  have hk' : Keywords.resolve c.heap (.names names (pairs.map (·.2))) = .ok (.pairs pairs) := by
    simp only [Keywords.resolve, hnames, List.length_map, if_true]
    rw [List.zip_map', List.map_id']
  have hgiven : (Keywords.pairs pairs).given c.heap = (Keywords.dict d).given c.heap := by
    rw [Keywords.given, Keywords.given, ← hitems, List.map_map]
    rfl
  have hfiled := hr.sound.heap.filed d (.inl ⟨dict, hdict⟩)
  exact bind_passing hr hspec hk hk' hgiven (Keywords.unambiguous_of_filed hfiled)

/-- A runtime with some objects behind those that are always there. -/
def runtimeWith (objects : List Entry) : Context :=
  { Context.fresh none .silent with heap := Heap.freshWith .unlimited objects }

/-- Two keywords that are not given in the order of the parameters, in a dict, and beside a tuple of
their names. -/
theorem bind_dict_eq_bind_names_two : ∃ declared c s, Reachable declared c s ∧ ∃ bound c',
    (bind ⟨⟨0, ["", "y", "z"], some "f"⟩, [], .dict ⟨7⟩, ⟨0, 3, 0⟩⟩).run c = .ok (.ok bound) c' ∧
      (bind ⟨⟨0, ["", "y", "z"], some "f"⟩, [], .names ⟨6⟩ [Heap.trueRef, Heap.falseRef],
        ⟨0, 3, 0⟩⟩).run c = .ok (.ok bound) c' ∧
      bound.toList = [none, some Heap.falseRef, some Heap.trueRef] := by
  let f : ParamSpec := ⟨0, ["", "y", "z"], some "f"⟩
  let y (refs : Nat) : Entry := ⟨refs, false, .str "y"⟩
  let z (refs : Nat) : Entry := ⟨refs, false, .str "z"⟩
  let tuple : Entry := ⟨1, false, .tuple [⟨5⟩, ⟨4⟩]⟩
  let d : Dict := ⟨[⟨.str "z", ⟨5⟩, Heap.trueRef⟩, ⟨.str "y", ⟨4⟩, Heap.falseRef⟩]⟩
  let made : Context := runtimeWith [y 2, z 2, tuple]
  let c : Context := runtimeWith [y 2, z 2, tuple, ⟨1, false, .dict d⟩]
  have hdeclared : Reachable {f} (runtimeWith []) .empty := by
    rw [← insert_empty_eq]
    exact (Reachable.fresh none .silent).declare (fun q hq => absurd hq (Set.notMem_empty q))
  have hy : Reachable {f} (runtimeWith [y 1]) ⟨⟨4⟩ ::ₘ 0, 0⟩ :=
    hdeclared.heap (@Heap.Step.allocate _ _ 0 0 (.str "y") ⟨4⟩ rfl rfl)
  have hz : Reachable {f} (runtimeWith [y 1, z 1]) ⟨⟨5⟩ ::ₘ ⟨4⟩ ::ₘ 0, 0⟩ :=
    hy.heap (@Heap.Step.allocate _ _ (⟨4⟩ ::ₘ 0) 0 (.str "z") ⟨5⟩ rfl rfl)
  have hshared : Reachable {f} (runtimeWith [y 2, z 2])
      ⟨⟨5⟩ ::ₘ ⟨4⟩ ::ₘ ⟨5⟩ ::ₘ ⟨4⟩ ::ₘ 0, 0⟩ :=
    (hz.heap (@Heap.Step.retain _ (runtimeWith [y 2, z 1]).heap _ _ ⟨4⟩ rfl)).heap (.retain rfl)
  have htuple : Reachable {f} made ⟨⟨6⟩ ::ₘ ⟨5⟩ ::ₘ ⟨4⟩ ::ₘ 0, 0⟩ :=
    hshared.heap (@Heap.Step.allocate _ _ (⟨5⟩ ::ₘ ⟨4⟩ ::ₘ 0) 0 (.tuple [⟨5⟩, ⟨4⟩]) ⟨6⟩ rfl rfl)
  have hcopied : Reachable {f} made
      ⟨Heap.falseRef ::ₘ Heap.trueRef ::ₘ ⟨6⟩ ::ₘ ⟨5⟩ ::ₘ ⟨4⟩ ::ₘ 0, 0⟩ :=
    (htuple.heap (@Heap.Step.retain _ made.heap _ _ Heap.trueRef rfl)).heap
      (@Heap.Step.retain _ made.heap _ _ Heap.falseRef rfl)
  have hvalues : Reachable {f} made
      ⟨Heap.falseRef ::ₘ Heap.trueRef ::ₘ ⟨6⟩ ::ₘ ⟨5⟩ ::ₘ ⟨4⟩ ::ₘ 0, .empty ::ₘ 0⟩ :=
    hcopied.heap .newDict
  have hordered : (Heap.falseRef ::ₘ Heap.trueRef ::ₘ ⟨6⟩ ::ₘ ⟨5⟩ ::ₘ ⟨4⟩ ::ₘ 0 : Multiset Ref) =
      ⟨5⟩ ::ₘ Heap.trueRef ::ₘ ⟨4⟩ ::ₘ Heap.falseRef ::ₘ ⟨6⟩ ::ₘ 0 := by decide
  rw [hordered] at hvalues
  have hfilled : Reachable {f} made ⟨⟨6⟩ ::ₘ 0, d ::ₘ 0⟩ :=
    (hvalues.heap (.setItem rfl)).heap (.setItem rfl)
  have hreachable : Reachable {f} c ⟨⟨7⟩ ::ₘ ⟨6⟩ ::ₘ 0, 0⟩ := hfilled.heap (.finishDict rfl)
  have hdict : c.heap.dict? ⟨7⟩ = some d := rfl
  have hnames : c.heap.tupleItems? ⟨6⟩ = some [⟨5⟩, ⟨4⟩] := rfl
  have hp : made.heap.DistinctKeys [(⟨5⟩, Heap.trueRef), (⟨4⟩, Heap.falseRef)] :=
    ⟨[.str "z", .str "y"], .cons ⟨_, rfl⟩ (.cons ⟨_, rfl⟩ .nil), by decide⟩
  have hmade : (Heap.dictOfPairs [⟨5⟩, Heap.trueRef, ⟨4⟩, Heap.falseRef]).run made.heap =
      .ok (.ok d) made.heap := rfl
  obtain ⟨answer, c', hrun, hrun'⟩ := bind_dict_eq_bind_names hreachable rfl hp hmade hdict hnames
  obtain ⟨bound, c'', hbound, hslots⟩ : ∃ bound c'',
      (bind ⟨f, [], .dict ⟨7⟩, ⟨0, 3, 0⟩⟩).run c = .ok (.ok bound) c'' ∧
        bound.toList = [none, some Heap.falseRef, some Heap.trueRef] := ⟨_, _, rfl, rfl⟩
  cases hbound.symm.trans hrun
  exact ⟨_, c, _, hreachable, bound, c', hrun, hrun', hslots⟩

end Call

end NativeCall
