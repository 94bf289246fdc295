import Mathlib.Data.List.Find
import NativeCall.Proofs.Bind.Slots
import NativeCall.Proofs.Reachable

/-!
# Binding keeps its promise

The statement about the long way (`Call.slots_spec`) takes lookups for right and names for interned.
Both hold in a reachable runtime. A dict is filed, so the entry under a text is the keyword of that
text; in a tuple of names, the identity of a name is tried before its text, and both lead to the one
keyword of the text (`Keywords.lookup_eq_valueOf`).

Interning the names of a declaration happens in the middle of binding, after the keywords were
counted and before they are matched. It fills empty slots only, so the keywords that the caller
passed are still what they were (`Keywords.given_of_extends`, `Keywords.filed_of_extends`). It can
also be refused, and this is the only way in which the long way can fail without a fault of the
call.

## The ways of a call

`bindUntraced` has four exits, with a lemma each (`bindUntraced_run_unread`, `…_invalid`, `…_fast`
and `…_slow`), and the long way three, which are the constructors of `Call.LongWay`: a count is
wrong, a name is refused, or the names are interned and matching sees the keywords of the caller.
Every statement about binding is a case distinction over these, and none of them opens the code
again.

The main result is `Call.bind_spec`, for declarations with names that differ and keywords of
different texts. What goes wrong without these conditions is said in `Call.not_places_of_repeated`,
and what holds all the same in `Call.bind_within_bounds`.
-/

namespace NativeCall

/-! ## Keywords on the heap -/

namespace Keywords

variable {h h' : Heap} {k : Keywords} {source : KeywordSource} {s : Holdings}

/-- The objects that a call's keywords are read from. -/
lemma resolve_inv (hk : resolve h source = .ok k) :
    k = .none ∨ (∃ r d, h.dict? r = some d ∧ k = .dict d) ∨
      ∃ r items values, h.tupleItems? r = some items ∧ k = .pairs (items.zip values) := by
  cases source with
  | none =>
    cases hk
    exact .inl rfl
  | dict r =>
    rw [resolve] at hk
    cases hd : h.dict? r with
    | none =>
      rw [hd] at hk
      cases hk
    | some d =>
      rw [hd] at hk
      cases hk
      exact .inr (.inl ⟨r, d, hd, rfl⟩)
  | names r values =>
    rw [resolve] at hk
    cases hi : h.tupleItems? r with
    | none =>
      rw [hi] at hk
      cases hk
    | some items =>
      simp only [hi] at hk
      split at hk
      · cases hk
        exact .inr (.inr ⟨r, items, values, hi, rfl⟩)
      · cases hk

lemma count_eq (h : Heap) (k : Keywords) : k.count = (k.given h).length := by
  cases k with
  | none => rfl
  | dict d => exact (List.length_map _).symm
  | pairs ps => exact (List.length_map _).symm

lemma map_text?_supplied (h : Heap) (k : Keywords) :
    k.supplied.map h.text? = (k.given h).map (·.1) := by
  cases k with
  | none => rfl
  | dict d =>
    rw [supplied, given, Dict.keyRefs, List.map_map, List.map_map]
    rfl
  | pairs ps =>
    rw [supplied, given, List.map_map, List.map_map]
    rfl

/-- The value of a name is that of the first item of its text. -/
lemma lookup_map {α : Type} (text : α → Option String) (value : α → Ref) (name : String)
    (items : List α) : valueOf (items.map (fun a => (text a, value a))) name =
      (items.find? (fun a => text a = some name)).map value := by
  induction items with
  | nil => rfl
  | cons a items ih =>
    rw [valueOf] at ih
    rw [valueOf, List.map_cons, List.lookup_cons, List.find?_cons]
    by_cases ha : text a = some name
    · rw [ha, beq_self_eq_true, decide_eq_true rfl]
      rfl
    · rw [beq_false_of_ne (Ne.symm ha), decide_eq_false ha]
      exact ih

/-- The entry of a text in a dict is the keyword of the text. -/
lemma get?_eq_valueOf {d : Dict} (hd : d.Filed h) (name : String) :
    d.get? (.str name) = valueOf ((dict d).given h) name := by
  rw [given, lookup_map, Dict.get?, Dict.find?]
  congr 1
  refine List.find?_congr (fun e he => ?_)
  rw [decide_eq_decide]
  exact hd.text e he name

/-- Only one item of a tuple of names has a given text. -/
lemma find?_of_text {ps : List (Ref × Ref)} (hkw : Unambiguous ((pairs ps).given h))
    {name : String} {p : Ref × Ref} (hp : p ∈ ps) (ht : h.text? p.1 = some name) :
    ps.find? (fun q => h.text? q.1 = some name) = some p := by
  induction ps with
  | nil => cases hp
  | cons q ps ih =>
    rw [Unambiguous, given, List.map_cons, List.filterMap_cons] at hkw
    rw [List.find?_cons]
    by_cases hq : h.text? q.1 = some name
    · rw [decide_eq_true hq]
      rcases List.mem_cons.mp hp with rfl | hp
      · rfl
      · simp only [hq] at hkw
        have hmem : name ∈ (ps.map (fun p => (h.text? p.1, p.2))).filterMap (·.1) :=
          List.mem_filterMap.mpr ⟨(h.text? p.1, p.2), List.mem_map.mpr ⟨p, hp, rfl⟩, ht⟩
        exact absurd hmem (List.nodup_cons.mp hkw).1
    · rw [decide_eq_false hq]
      have hmem : p ∈ ps := by
        rcases List.mem_cons.mp hp with rfl | hp
        · exact absurd ht hq
        · exact hp
      refine ih ?_ hmem
      cases htext : h.text? q.1 with
      | none =>
        simp only [htext] at hkw
        exact hkw
      | some t =>
        simp only [htext] at hkw
        exact (List.nodup_cons.mp hkw).2

lemma sameText_iff {r interned : Ref} {name : String} (ht : h.text? interned = some name) :
    h.sameText r interned = true ↔ h.text? r = some name := by
  rw [Heap.sameText, ht, Bool.or_eq_true, Bool.and_eq_true, decide_eq_true_iff, beq_iff_eq]
  constructor
  · rintro (rfl | ⟨-, hr⟩)
    · exact ht
    · exact hr
  · intro hr
    refine .inr ⟨?_, hr⟩
    rw [hr]
    rfl

/-- Looking a name up finds the keyword of its text. -/
lemma lookup_eq_valueOf (hfiled : ∀ d, k = .dict d → d.Filed h)
    (hkw : Unambiguous (k.given h)) {interned : Ref} {name : String}
    (ht : h.text? interned = some name) :
    k.lookup h interned name = valueOf (k.given h) name := by
  cases k with
  | none => rfl
  | dict d => exact get?_eq_valueOf (hfiled d rfl) name
  | pairs ps =>
    have htext : ps.find? (fun p => h.sameText p.1 interned) =
        ps.find? (fun p => h.text? p.1 = some name) := by
      refine List.find?_congr (fun p _ => ?_)
      rw [Bool.eq_iff_iff, sameText_iff ht, decide_eq_true_iff]
    rw [given, lookup_map, lookup, htext]
    congr 1
    -- An item found by identity has the text, and is the only one that does.
    cases hid : ps.find? (fun p => p.1 = interned) with
    | none => rfl
    | some p =>
      obtain ⟨hp, -⟩ := List.find?_eq_some_iff_append.mp hid
      rw [Option.some_or]
      refine (find?_of_text hkw (List.mem_of_find?_eq_some hid) ?_).symm
      rw [of_decide_eq_true hp]
      exact ht

/-- Keywords that were there are the same ones on a heap with more objects. -/
lemma given_of_extends (hs : h.Sound s) (hk : resolve h source = .ok k) (he : h.Extends h') :
    k.given h' = k.given h := by
  rcases resolve_inv hk with rfl | ⟨r, d, hd, rfl⟩ | ⟨r, items, values, hi, rfl⟩
  · rfl
  · refine List.map_congr_left (fun e hmem => ?_)
    rw [he.text? (hs.live (.inl ⟨r, hd⟩) _ (Dict.keyRef_mem_refs hmem))]
  · obtain ⟨e, hslot, ho⟩ := Heap.tupleItems?_eq_some.mp hi
    refine List.map_congr_left (fun p hmem => ?_)
    rw [he.text? (hs.counted.slot?_child hslot ?_)]
    rw [ho]
    exact (List.of_mem_zip hmem).1

/-- A dict of keywords is still filed on a heap with more objects. -/
lemma filed_of_extends (hs' : h'.Sound s) (hk : resolve h source = .ok k) (he : h.Extends h') :
    ∀ d, k = .dict d → d.Filed h' := by
  rintro d rfl
  rcases resolve_inv hk with hd | ⟨r, d', hd, heq⟩ | ⟨r, items, values, -, heq⟩
  · cases hd
  · cases heq
    obtain ⟨e, hslot, ho⟩ := Heap.dict?_eq_some.mp hd
    exact hs'.filed d (.inl ⟨r, Heap.dict?_eq_some.mpr ⟨e, he.slot r e hslot, ho⟩⟩)
  · cases heq

end Keywords

namespace Call

variable {declared : Set ParamSpec} {c c' : Context} {s : Holdings} {call : Call} {l : Layout}
  {k : Keywords}

/-- Where the names are interned, the long way has what it needs. -/
lemma sees_of_interned {h : Heap} {names : List Ref} (hs : h.Sound s)
    (hn : h.InternedAs names l.keywordNames) (hfiled : ∀ d, k = .dict d → d.Filed h)
    (hkw : Unambiguous (k.given h)) : Sees h l k (k.given h) names := by
  refine ⟨k.count_eq h, k.map_text?_supplied h, hn.length_eq, fun p hp => ?_⟩
  refine k.lookup_eq_valueOf hfiled hkw ?_
  have hi := List.forall₂_zip hn (a := p.1) (b := p.2) hp
  rw [Heap.text?_of_slot? (hs.interned p.2 p.1 hi)]
  rfl

/-- A call that needs no matching is accepted, and its arguments are where they were. -/
lemma fast_spec {kw : List Given} (hfast : call.isFast kw.length = true) :
    call.Accepts l kw ∧ ∀ i, (BoundArgs.borrowed call.args).get? i = call.argument? l kw i := by
  simp only [isFast, Bool.and_eq_true, decide_eq_true_iff] at hfast
  obtain ⟨⟨⟨hzero, hkey⟩, hmin⟩, hmax⟩ := hfast
  -- No keywords and no required ones, so what has to be given is given by position.
  obtain rfl := List.eq_nil_of_length_eq_zero hzero
  have hargument : ∀ i, call.argument? l [] i = call.args[i]? := by
    intro i
    rw [argument?]
    split
    · rfl
    · rename_i hi
      rw [List.getElem?_eq_none (Nat.le_of_not_lt hi)]
      split
      · rfl
      · cases l.keywordNames[i - l.positionalOnly]? <;> rfl
  refine ⟨⟨hmax, fun g hg => absurd hg List.not_mem_nil, fun i hr => ?_⟩,
    fun i => (hargument i).symm⟩
  rcases hr.2 with hi | ⟨hpos, -⟩
  · rw [hargument, List.getElem?_eq_getElem (Nat.lt_of_lt_of_le hi hmin)]
    rfl
  · omega

lemma bindSlow_run_of_countError? {e : BindError} (hc : call.countError? l k.count = some e) :
    (call.bindSlow l k).run c = .ok (.error e) c := by
  rw [bindSlow]
  simp only [hc]
  rfl

/-- The long way matches on the heap where the names are interned. -/
lemma bindSlow_run {names : List Ref} (hc : call.countError? l k.count = none)
    (hnames : (internNames call.spec).run c = .ok (.ok names) c') :
    (call.bindSlow l k).run c = .ok ((call.slots c'.heap l k names).map .filled) c' := by
  rw [bindSlow]
  simp only [hc]
  refine (run_bind_ok (run_adapt BindError.raised hnames)).trans ?_
  refine (run_bind_ok (run_getThe c')).trans ?_
  cases call.slots c'.heap l k names <;> rfl

lemma bindSlow_run_refused {e : RunError} (hc : call.countError? l k.count = none)
    (hnames : (internNames call.spec).run c = .ok (.error e) c') :
    (call.bindSlow l k).run c = .ok (.error (.raised e)) c' := by
  rw [bindSlow]
  simp only [hc]
  exact run_bind_raised (run_adapt BindError.raised hnames)

/-- Once the names are interned, matching sees the keywords that the caller passed. -/
lemma sees_of_internNames {names : List Ref} {source : KeywordSource}
    (hr : Reachable declared c s) (hspec : call.spec ∈ declared)
    (hl : call.spec.layout = .ok l) (hk : Keywords.resolve c.heap source = .ok k)
    (hkw : Unambiguous (k.given c.heap))
    (hnames : (internNames call.spec).run c = .ok (.ok names) c') :
    Sees c'.heap l k (k.given c.heap) names := by
  obtain ⟨outcome, c₁, hrun, hs₁, hext, hrefs⟩ := internNames_run hr.sound hspec
  cases hrun.symm.trans hnames
  obtain ⟨l', hl', hinterned⟩ := hrefs names rfl
  cases hl.symm.trans hl'
  have hgiven := k.given_of_extends hr.sound.heap hk hext
  have hsees := sees_of_interned (k := k) hs₁.heap hinterned
    (k.filed_of_extends hs₁.heap hk hext) (by rwa [hgiven])
  rwa [hgiven] at hsees

/-- What the long way can come to: a count is wrong, the tracker refuses a name, or the names are
interned and matching sees the keywords of the caller. -/
inductive LongWay (call : Call) (l : Layout) (k : Keywords) (c : Context) : Prop where
  | miscounted (e : BindError) (hc : call.countError? l (k.given c.heap).length = some e)
      (hrun : (call.bindSlow l k).run c = .ok (.error e) c)
  | refused (e : RunError) (c' : Context)
      (hnames : (internNames call.spec).run c = .ok (.error e) c')
      (hrun : (call.bindSlow l k).run c = .ok (.error (.raised e)) c')
  | matched (names : List Ref) (c' : Context)
      (hc : call.countError? l (k.given c.heap).length = none)
      (hnames : (internNames call.spec).run c = .ok (.ok names) c')
      (hsees : Sees c'.heap l k (k.given c.heap) names)
      (hrun : (call.bindSlow l k).run c = .ok ((call.slots c'.heap l k names).map .filled) c')

lemma longWay (hr : Reachable declared c s) (hspec : call.spec ∈ declared)
    (hl : call.spec.layout = .ok l) (hk : Keywords.resolve c.heap call.keywords = .ok k)
    (hkw : Unambiguous (k.given c.heap)) : call.LongWay l k c := by
  have hcount := k.count_eq c.heap
  cases hc : call.countError? l k.count with
  | some e => exact .miscounted e (by rwa [← hcount]) (bindSlow_run_of_countError? hc)
  | none =>
    obtain ⟨outcome, c', hnames, -⟩ := internNames_run hr.sound hspec
    cases outcome with
    | error e => exact .refused e c' hnames (bindSlow_run_refused hc hnames)
    | ok names =>
      have hsees := sees_of_internNames hr hspec hl hk hkw hnames
      exact .matched names c' (by rwa [← hcount]) hnames hsees (bindSlow_run hc hnames)

lemma bindUntraced_run_unread {e : BindError}
    (hk : Keywords.resolve c.heap call.keywords = .error e) :
    call.bindUntraced.run c = .ok (.error e) c := by
  rw [bindUntraced]
  refine (run_bind_ok (run_getThe c)).trans ?_
  rw [hk]
  exact run_bind_raised (e := e) rfl

lemma bindUntraced_run_invalid {e : SpecError} (hl : call.spec.layout = .error e)
    (hk : Keywords.resolve c.heap call.keywords = .ok k) :
    call.bindUntraced.run c = .ok (.error (.invalidSpec e)) c := by
  rw [bindUntraced]
  refine (run_bind_ok (run_getThe c)).trans ?_
  rw [hk, hl]
  exact (run_bind_ok (a := k) rfl).trans (run_bind_raised (e := BindError.invalidSpec e) rfl)

lemma bindUntraced_run_fast (hl : call.spec.layout = .ok l)
    (hk : Keywords.resolve c.heap call.keywords = .ok k) (hfast : call.isFast k.count = true) :
    call.bindUntraced.run c = .ok (.ok (.borrowed call.args, 0)) c := by
  rw [bindUntraced]
  refine (run_bind_ok (run_getThe c)).trans ?_
  rw [hk, hl]
  refine (run_bind_ok (a := k) rfl).trans ((run_bind_ok (a := l) rfl).trans ?_)
  rw [if_pos hfast]
  rfl

lemma bindUntraced_run_slow {outcome : Except BindError BoundArgs}
    (hl : call.spec.layout = .ok l) (hk : Keywords.resolve c.heap call.keywords = .ok k)
    (hfast : ¬ call.isFast k.count = true)
    (hslow : (call.bindSlow l k).run c = .ok outcome c') :
    call.bindUntraced.run c = .ok (outcome.map (fun bound => (bound, k.count))) c' := by
  rw [bindUntraced]
  refine (run_bind_ok (run_getThe c)).trans ?_
  rw [hk, hl]
  refine (run_bind_ok (a := k) rfl).trans ((run_bind_ok (a := l) rfl).trans ?_)
  rw [if_neg hfast]
  cases outcome with
  | ok bound => exact run_bind_ok hslow
  | error e => exact run_bind_raised hslow

/-- Binding reports an event and leaves everything else alone. -/
lemma bind_run {outcome : Except BindError (BoundArgs × Nat)}
    (hrun : call.bindUntraced.run c = .ok outcome c') :
    ∃ t, call.bind.run c = .ok (outcome.map (·.1)) { c' with tracer := t } := by
  cases outcome with
  | ok bound => exact ⟨_, bind_ok hrun⟩
  | error e => exact ⟨_, bind_ok hrun⟩

/-- The long way gives the promised answer. -/
lemma bindSlow_spec (hr : Reachable declared c s) (hspec : call.spec ∈ declared)
    (hl : call.spec.layout = .ok l) (hn : l.keywordNames.Nodup)
    (hfit : call.arity.Fits l) (hk : Keywords.resolve c.heap call.keywords = .ok k)
    (hkw : Unambiguous (k.given c.heap))
    (hintern : ∀ e c', (internNames call.spec).run c ≠ .ok (.error e) c') :
    ∃ answer c', (call.bindSlow l k).run c = .ok answer c' ∧ Reachable declared c' s ∧
      call.Promised l (k.given c.heap) answer := by
  cases longWay hr hspec hl hk hkw with
  | miscounted e hc hrun =>
    exact ⟨_, c, hrun, hr, promised_error hfit hn hkw (firstFault_of_countError? hc)⟩
  | refused e c' hnames hrun => exact absurd hnames (hintern e c')
  | matched names c' hc hnames hsees hrun =>
    refine ⟨_, c', hrun, hr.names hspec hnames, ?_⟩
    rcases slots_spec hfit hn hkw hsees hc with
      ⟨slots, hslots, hnone, hargs⟩ | ⟨e, hslots, hfirst⟩
    · rw [hslots]
      exact promised_ok (accepts_of_not_fault hfit hnone) hargs
    · rw [hslots]
      exact promised_error hfit hn hkw hfirst

/-- **Binding keeps its promise.** In every reachable runtime and for every declaration whose names
are pairwise distinct, binding a call with well-formed keywords succeeds if and only if the call is
accepted, and then every parameter has its argument. Otherwise the first fault is reported. The
arity has to be in line with the declaration; that its sum is below `2 ^ 64` is part of this, since
otherwise the index behind the last required keyword is not one that words can have. -/
theorem bind_spec (hr : Reachable declared c s) (hspec : call.spec ∈ declared)
    (hl : call.spec.layout = .ok l) (hn : l.keywordNames.Nodup)
    (hfit : call.arity.Fits l) (hk : Keywords.resolve c.heap call.keywords = .ok k)
    (hkw : Unambiguous (k.given c.heap))
    (hintern : ∀ e c', (internNames call.spec).run c ≠ .ok (.error e) c') :
    ∃ answer c', call.bind.run c = .ok answer c' ∧ Reachable declared c' s ∧
      call.Promised l (k.given c.heap) answer := by
  -- The short way answers with the arguments of the caller, and interns nothing.
  by_cases hfast : call.isFast k.count = true
  · obtain ⟨t, hrun⟩ := bind_run (bindUntraced_run_fast hl hk hfast)
    rw [k.count_eq c.heap] at hfast
    obtain ⟨haccepts, hargs⟩ := fast_spec (l := l) hfast
    exact ⟨_, _, hrun, hr.tracer t, promised_ok haccepts hargs⟩
  · obtain ⟨answer, c', hslow, hr', hpromised⟩ :=
      bindSlow_spec hr hspec hl hn hfit hk hkw hintern
    obtain ⟨t, hrun⟩ := bind_run (bindUntraced_run_slow hl hk hfast hslow)
    refine ⟨answer, _, ?_, hr'.tracer t, hpromised⟩
    rw [hrun]
    cases answer <;> rfl

/-- A parameter without a name is given by position, and one with a name by a tuple of names. -/
theorem bind_spec_named :
    ∃ declared c s, Reachable declared c s ∧ ∃ bound c',
      (bind ⟨⟨0, ["", "y"], some "f"⟩, [Heap.trueRef], .names ⟨5⟩ [Heap.falseRef], ⟨1, 2, 0⟩⟩).run
        c = .ok (.ok bound) c' ∧
      bound.get? 0 = some Heap.trueRef ∧ bound.get? 1 = some Heap.falseRef := by
  have hdeclared : Reachable {⟨0, ["", "y"], some "f"⟩} (.fresh none .silent) .empty := by
    rw [← insert_empty_eq]
    exact (Reachable.fresh none .silent).declare (fun q hq => absurd hq (Set.notMem_empty q))
  have hname := hdeclared.heap (@Heap.Step.allocate _ _ 0 0 (.str "y") ⟨4⟩ rfl rfl)
  have htuple := hname.heap (@Heap.Step.allocate _ _ 0 0 (.tuple [⟨4⟩]) ⟨5⟩ rfl rfl)
  refine ⟨_, _, _, htuple, ?_⟩
  have hkw : Unambiguous [(some "y", Heap.falseRef)] := List.nodup_singleton "y"
  let f : Call :=
    ⟨⟨0, ["", "y"], some "f"⟩, [Heap.trueRef], .names ⟨5⟩ [Heap.falseRef], ⟨1, 2, 0⟩⟩
  have hspec : f.spec ∈ ({⟨0, ["", "y"], some "f"⟩} : Set ParamSpec) := rfl
  have hl : f.spec.layout = .ok ⟨1, ["y"]⟩ := rfl
  have hfit : f.arity.Fits ⟨1, ["y"]⟩ := ⟨by decide, by decide, by decide, by decide⟩
  have haccepts : f.Accepts ⟨1, ["y"]⟩ [(some "y", Heap.falseRef)] := by
    refine ⟨by decide, fun g hg => ?_, fun i hi => ?_⟩
    · obtain rfl := List.mem_singleton.mp hg
      exact ⟨"y", 0, rfl, rfl, Nat.le_refl 1⟩
    · rcases hi.2 with hi | ⟨hi, -⟩
      · obtain rfl := Nat.lt_one_iff.mp hi
        rfl
      · cases hi
  obtain ⟨answer, c', hrun, -, hpromised⟩ := bind_spec (k := .pairs [(⟨4⟩, Heap.falseRef)])
    htuple hspec hl (List.nodup_singleton "y") hfit rfl hkw (fun e c' hrun => by cases hrun)
  obtain ⟨bound, rfl⟩ := hpromised.succeeds.mpr haccepts
  exact ⟨bound, c', hrun, hpromised.argument bound rfl 0, hpromised.argument bound rfl 1⟩

end Call

end NativeCall
