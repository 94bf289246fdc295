import NativeCall.Proofs.Bind.Binding

/-!
# A place for every argument

When binding a call fills slots, each argument should have one of its own, and the value of a
keyword the one of the parameter it names (`Call.Places`). This takes no more than names that are
distinct, on both sides: the declared ones, and in a tuple of keywords the given ones
(`Call.places_of_filled`). What the arity asks for does not matter, even if more arguments must be
given by position than may be.

## The argument

With distinct names, matching succeeds only if no keyword is left over (`Call.slots_ok`). The values
of free parameters are then as many as there are keywords, and each keyword names a free parameter,
so its value is where the parameter looks for it. The keywords of a dict always differ, since a
filed dict has no two entries of one text (`Keywords.unambiguous_of_filed`); only those beside a
tuple of names can be the same.

## Repeated names

If names are repeated, the count goes wrong, and nothing else tells. Binding never compares the
keywords that were passed with those that were used. It counts them, takes one off for every slot
that is filled, and looks for a keyword that is undeclared or given twice only if some remain. So

* a keyword that is declared twice fills two slots, and with the second a keyword that is not
  declared seems to be used up;
* of two keywords with the same name, the loop finds one, the other is left over, and nothing is
  found wrong with it, as its name is declared and not given by position.

Both are shown on calls that a caller can make (`Call.not_places_of_repeated`), in a runtime in
which three strings and a tuple have been made. They are the reason for the two conditions, and
neither of the conditions follows from the other.
-/

namespace NativeCall

/-- No two entries of a filed dict have the same text. -/
lemma Keywords.unambiguous_of_filed {h : Heap} {d : Dict} (hd : d.Filed h) :
    Unambiguous ((dict d).given h) := by
  -- Two entries of the same text would have the same key, and the keys of a dict differ.
  have hkeys : d.entries.Pairwise (fun e e' => e.key ≠ e'.key) := List.pairwise_map.mp hd.distinct
  rw [Unambiguous, given, List.filterMap_map]
  refine List.pairwise_filterMap.mpr (hkeys.imp_of_mem (fun he he' hne s hs s' hs' => ?_))
  rintro rfl
  exact hne (((hd.text _ he s).mpr hs).trans ((hd.text _ he' s).mpr hs').symm)

/-- The value of a name is that of the one keyword that has the name. -/
lemma valueOf_of_mem {kw : List Given} (hkw : Unambiguous kw) {name : String} {r : Ref}
    (hg : (some name, r) ∈ kw) : valueOf kw name = some r := by
  obtain ⟨before, after, rfl⟩ := List.append_of_mem hg
  rw [Unambiguous, List.filterMap_append] at hkw
  have hafter : name ∈ ((some name, r) :: after).filterMap (·.1) :=
    List.mem_filterMap.mpr ⟨_, List.mem_cons_self, rfl⟩
  refine List.lookup_eq_some_iff.mpr ⟨before, after, rfl, fun g hbefore => ?_⟩
  rw [bne_iff_ne]
  intro htext
  have hmem : name ∈ before.filterMap (·.1) := List.mem_filterMap.mpr ⟨g, hbefore, htext.symm⟩
  exact (List.nodup_append.mp hkw).2.2 name hmem name hafter rfl

namespace Call

variable {declared : Set ParamSpec} {c c' : Context} {s : Holdings} {call : Call} {h : Heap}
  {k : Keywords} {kw : List Given} {l : Layout} {names : List Ref} {slots : List (Option Ref)}

/-- There are as many filled slots as arguments, and each keyword names a declared parameter and
its value is in the slot of that parameter. -/
structure Places (call : Call) (l : Layout) (kw : List Given) (slots : List (Option Ref)) :
    Prop where
  filled : slots.countP Option.isSome = call.args.length + kw.length
  named : ∀ g ∈ kw, ∃ (name : String) (j : Nat), g.1 = some name ∧
    l.keywordNames[j]? = some name ∧ slots[l.positionalOnly + j]?.join = some g.2

/-- In a reachable runtime, binding the declared call with these keywords fills slots. -/
structure Filled (call : Call) (c : Context) (l : Layout) (k : Keywords)
    (slots : List (Option Ref)) : Prop where
  reachable : ∃ declared s, Reachable declared c s ∧ call.spec ∈ declared
  layout : call.spec.layout = .ok l
  keywords : Keywords.resolve c.heap call.keywords = .ok k
  run : ∃ c', call.bind.run c = .ok (.ok (.filled slots)) c'

/-! ## The matching that succeeds -/

/-- If matching succeeds, no keyword is left over, and every free parameter has its value. -/
lemma slots_ok (hn : l.keywordNames.Nodup) (hkw : Unambiguous kw) (hs : Sees h l k kw names)
    (hslots : call.slots h l k names = .ok slots) :
    call.leftover l kw = 0 ∧ slots = call.args.map some ++
      List.replicate (l.positionalOnly - call.args.length) none ++
      (call.free l names).map (fun p => valueOf kw p.2) := by
  have hfill := fill_free (c := call) hn hkw hs
  generalize hresult : call.fill h k (call.firstFree l) k.count (call.free l names) = result
    at hfill
  have hrun : call.fill h k (max call.args.length l.positionalOnly) k.count
      ((names.zip l.keywordNames).drop (call.args.length - l.positionalOnly)) = result := hresult
  rw [Call.slots, hrun] at hslots
  cases hfill with
  | missing hm hfirst => cases hslots
  | filled hnone =>
    by_cases hleft : call.leftover l kw = 0
    · refine ⟨hleft, ?_⟩
      cases (if_pos hleft).symm.trans hslots
      rfl
    · -- A keyword that is left over is explained, so matching fails.
      have herror : ∃ e, call.leftoverError? h l k (names.zip l.keywordNames) = some e := by
        rcases leftoverError?_spec hs hleft with ⟨j, n, -, -, -, -, he⟩ | ⟨-, e, -, he⟩
        · exact ⟨_, he⟩
        · exact ⟨e, he⟩
      obtain ⟨e, he⟩ := herror
      have hthrown := (if_neg hleft).symm.trans hslots
      simp only [he] at hthrown
      cases hthrown

/-- What successful matching leaves in the slots places every argument. -/
lemma places_of_slots (hn : l.keywordNames.Nodup) (hkw : Unambiguous kw)
    (hs : Sees h l k kw names) (hslots : call.slots h l k names = .ok slots) :
    call.Places l kw slots := by
  obtain ⟨hleft, rfl⟩ := slots_ok hn hkw hs hslots
  refine ⟨?_, fun g hg => ?_⟩
  · have hlength := length_eq (c := call) hn hkw hs.length
    rw [hleft, Nat.add_zero] at hlength
    -- The filled slots are the arguments by position and the values of free parameters; those in
    -- between are empty.
    rw [hlength, List.countP_append, List.countP_append, List.countP_map, List.countP_map,
      List.countP_replicate, if_neg (by simp), Nat.add_zero]
    congr 1
    exact List.countP_eq_length.mpr (fun _ _ => rfl)
  · obtain ⟨name, j, htext, hj, hle⟩ := named_of_leftover hleft g hg
    refine ⟨name, j, htext, hj, ?_⟩
    have hname : l.keywordNames[l.positionalOnly + j - l.positionalOnly]? = some name := by
      rwa [Nat.add_sub_cancel_left]
    rw [join_getElem?_slots hs.length, argument?_of_name hle (Nat.le_add_right _ _) hname]
    refine valueOf_of_mem hkw ?_
    rw [← htext]
    exact hg

/-! ## The call -/

/-- Keywords that can be told apart: those of a dict always can. -/
lemma unambiguous_of_reachable (hr : Reachable declared c s)
    (hk : Keywords.resolve c.heap call.keywords = .ok k)
    (hkw : ∀ ps, k = .pairs ps → Unambiguous (k.given c.heap)) : Unambiguous (k.given c.heap) := by
  rcases k.resolve_inv hk with rfl | ⟨r, d, hd, rfl⟩ | ⟨r, items, values, -, rfl⟩
  · exact List.nodup_nil
  · exact Keywords.unambiguous_of_filed (hr.sound.heap.filed d (.inl ⟨r, hd⟩))
  · exact hkw _ rfl

/-- The long way places every argument, or it raises. -/
lemma bindSlow_places (hr : Reachable declared c s) (hspec : call.spec ∈ declared)
    (hl : call.spec.layout = .ok l) (hn : l.keywordNames.Nodup)
    (hk : Keywords.resolve c.heap call.keywords = .ok k) (hkw : Unambiguous (k.given c.heap)) :
    ∃ answer c', (call.bindSlow l k).run c = .ok answer c' ∧
      ∀ slots, answer = .ok (.filled slots) → call.Places l (k.given c.heap) slots := by
  cases longWay hr hspec hl hk hkw with
  | miscounted e hc hrun =>
    refine ⟨_, c, hrun, fun slots hanswer => ?_⟩
    cases hanswer
  | refused e c' hnames hrun =>
    refine ⟨_, c', hrun, fun slots hanswer => ?_⟩
    cases hanswer
  | matched names c' hc hnames hsees hrun =>
    refine ⟨_, c', hrun, fun slots hanswer => ?_⟩
    cases hslots : call.slots c'.heap l k names with
    | error e =>
      rw [hslots] at hanswer
      cases hanswer
    | ok found =>
      rw [hslots] at hanswer
      cases hanswer
      exact places_of_slots hn hkw hsees hslots

/-- **No argument is lost.** If the declared names are pairwise distinct, and in a tuple of keywords
the given names too, then whenever binding a call in a reachable runtime fills slots, every argument
has one: as many are filled as there are arguments, and every keyword names a declared parameter,
which has its value. -/
theorem places_of_filled (hf : call.Filled c l k slots) (hn : l.keywordNames.Nodup)
    (hkw : ∀ ps, k = .pairs ps → Unambiguous (k.given c.heap)) :
    call.Places l (k.given c.heap) slots := by
  obtain ⟨⟨declared, s, hr, hspec⟩, hl, hk, c', hrun⟩ := hf
  by_cases hfast : call.isFast k.count = true
  · obtain ⟨t, hborrowed⟩ := bind_run (bindUntraced_run_fast hl hk hfast)
    cases hborrowed.symm.trans hrun
  · obtain ⟨answer, c₁, hslow, hplaces⟩ :=
      bindSlow_places hr hspec hl hn hk (unambiguous_of_reachable hr hk hkw)
    obtain ⟨t, hanswer⟩ := bind_run (bindUntraced_run_slow hl hk hfast hslow)
    refine hplaces slots ?_
    have hsame := hanswer.symm.trans hrun
    cases answer with
    | ok bound =>
      cases hsame
      rfl
    | error e => cases hsame

/-- A runtime where the texts of two names, and a tuple of the two, have been made. -/
def withNames (first second : String) : Context :=
  let c := Context.fresh none .silent
  { c with heap := { c.heap with slots := c.heap.slots ++ #[some ⟨1, false, .str second⟩,
      some ⟨1, false, .str first⟩, some ⟨1, false, .tuple [⟨5⟩, ⟨4⟩]⟩] } }

lemma reachable_withNames (p : ParamSpec) (first second : String) :
    Reachable {p} (withNames first second) ⟨{⟨6⟩}, 0⟩ := by
  have hdeclared : Reachable {p} (.fresh none .silent) .empty := by
    rw [← insert_empty_eq]
    exact (Reachable.fresh none .silent).declare (fun q hq => absurd hq (Set.notMem_empty q))
  have hsecond := hdeclared.heap (@Heap.Step.allocate _ _ 0 0 (.str second) ⟨4⟩ rfl rfl)
  have hfirst := hsecond.heap (@Heap.Step.allocate _ _ {⟨4⟩} 0 (.str first) ⟨5⟩ rfl rfl)
  exact hfirst.heap (@Heap.Step.allocate _ _ 0 0 (.tuple [⟨5⟩, ⟨4⟩]) ⟨6⟩ rfl rfl)

/-- A call with two keywords, a true one and a false one, of a function with two declared names. -/
def ofNames (declared : List String) : Call :=
  ⟨⟨0, declared, some "f"⟩, [], .names ⟨6⟩ [Heap.trueRef, Heap.falseRef], ⟨0, 2, 0⟩⟩

/-- Keywords in another order than the declared names are placed by name. -/
theorem places_of_filled_named : ∃ k,
    (ofNames ["a", "b"]).Filled (withNames "b" "a") ⟨0, ["a", "b"]⟩ k
      [some Heap.falseRef, some Heap.trueRef] ∧
    (ofNames ["a", "b"]).Places ⟨0, ["a", "b"]⟩ (k.given (withNames "b" "a").heap)
      [some Heap.falseRef, some Heap.trueRef] := by
  have hf : (ofNames ["a", "b"]).Filled (withNames "b" "a") ⟨0, ["a", "b"]⟩
      (.pairs [(⟨5⟩, Heap.trueRef), (⟨4⟩, Heap.falseRef)])
      [some Heap.falseRef, some Heap.trueRef] :=
    ⟨⟨_, _, reachable_withNames _ _ _, rfl⟩, rfl, rfl, _, rfl⟩
  refine ⟨_, hf, places_of_filled hf (by decide) (fun ps hps => ?_)⟩
  show ["b", "a"].Nodup
  decide

/-- **Repeated names.** Neither condition can be left out. Of two keywords for a name that is
declared twice, the one that is not declared is ignored and the other one used twice. Of two
keywords with the same name, one is dropped. -/
theorem not_places_of_repeated :
    (∃ k, (ofNames ["b", "b"]).Filled (withNames "b" "c") ⟨0, ["b", "b"]⟩ k
        [some Heap.trueRef, some Heap.trueRef] ∧
      Unambiguous (k.given (withNames "b" "c").heap) ∧
      (some "c", Heap.falseRef) ∈ k.given (withNames "b" "c").heap ∧
      ¬ (ofNames ["b", "b"]).Places ⟨0, ["b", "b"]⟩ (k.given (withNames "b" "c").heap)
        [some Heap.trueRef, some Heap.trueRef]) ∧
    ∃ k, (ofNames ["b", "c"]).Filled (withNames "b" "b") ⟨0, ["b", "c"]⟩ k
        [some Heap.trueRef, none] ∧
      ["b", "c"].Nodup ∧
      (some "b", Heap.falseRef) ∈ k.given (withNames "b" "b").heap ∧
      ¬ (ofNames ["b", "c"]).Places ⟨0, ["b", "c"]⟩ (k.given (withNames "b" "b").heap)
        [some Heap.trueRef, none] := by
  constructor
  · refine ⟨.pairs [(⟨5⟩, Heap.trueRef), (⟨4⟩, Heap.falseRef)],
      ⟨⟨_, _, reachable_withNames _ _ _, rfl⟩, rfl, rfl, _, rfl⟩, ?_, ?_, fun hplaces => ?_⟩
    · show ["b", "c"].Nodup
      decide
    · exact List.mem_cons_of_mem _ List.mem_cons_self
    · -- The keyword `c` names no declared parameter.
      obtain ⟨name, j, htext, hj, -⟩ :=
        hplaces.named (some "c", Heap.falseRef) (List.mem_cons_of_mem _ List.mem_cons_self)
      cases htext
      have hmem : "c" ∈ ["b", "b"] := List.mem_of_getElem? hj
      exact absurd hmem (by decide)
  · refine ⟨.pairs [(⟨5⟩, Heap.trueRef), (⟨4⟩, Heap.falseRef)],
      ⟨⟨_, _, reachable_withNames _ _ _, rfl⟩, rfl, rfl, _, rfl⟩, by decide, ?_,
      fun hplaces => ?_⟩
    · exact List.mem_cons_of_mem _ List.mem_cons_self
    · -- One slot is filled, by two arguments.
      have hcount : 1 = 2 := hplaces.filled
      exact absurd hcount (by decide)

end Call

end NativeCall
