import NativeCall.Proofs.Heap.Pairs
import NativeCall.Proofs.Heap.Places

/-!
# How deep a key may be

Looking for the key of an object walks through the tuples in it, from left to right and each tuple
before its items, and charges every tuple that is entered to the depth budget. The walk ends at the
first place where there is a list or a dict, or a tuple that the budget does not reach.

`Refuses` says of a place whether the walk could get past it, without any walk: what stands there
and how much of the budget is left so deep are enough. What comes of the walk is `Settled` by that:
an error is the one of the first place that refuses, in the order of places, and there is a key only
if no place refuses (`projection_settled`). `Height` is how deep tuples are nested. So there is a
key just if no list or dict can be reached and the nesting is no deeper than the budget
(`projection_outcome`), and the budget is the same afterwards in every case.

## Places

A place is a list of numbers: the empty list is the object itself, and `i :: p` is the place `p` of
its item number `i`. The lexicographic order of lists is then the order of the walk, with a tuple in
front of its items because the empty list comes first. One object may stand at many places, at
different depths, and may refuse at one of them and not at another; so it is places and not objects
that refuse, and `First` is about places.

Refusing is local. A place that refuses may well be one that the walk never comes to, because an
earlier one refused, or because a tuple on the way to it was not entered. That does no harm: such a
tuple is itself a place that refuses, and comes before everything in it.

## How the walk is followed

The proof goes with the recursion of the walk. An item is walked through on a heap with one level
less and has the same places with one number less, so `refuses_tuple_iff` is the step downwards; and
`Settled.cons` is the step to the right, where an item that has its key hands over to the next and
an item that has none ends the walk. The fuel of the recursion is always more than the budget and
plays no part.
-/

namespace NativeCall

/-- Why the walk cannot get past an object, when `left` levels of the budget are left there. -/
def Object.refusal? (left : Nat) : Object → Option RunError
  | tuple _ => if left = 0 then some .recursionLimit else Option.none
  | o@(list _) | o@(dict _) => some (.unhashable o.typeName)
  | _ => Option.none

namespace Heap

variable {objects : Ref → Option Object} {h : Heap} {r q : Ref} {rs items : List Ref} {o : Object}
  {p p' : List Nat} {e e' : RunError} {i n m budget fuel : Nat}

/-! ## Height -/

mutual

/-- `Height objects r n`: tuples are nested `n` deep in the object at `r`. -/
inductive Height (objects : Ref → Option Object) : Ref → Nat → Prop where
  | plain {r : Ref} {o : Object} (ho : objects r = some o) (ht : ∀ items, o ≠ .tuple items) :
      Height objects r 0
  | tuple {r : Ref} {items : List Ref} {n : Nat} (ho : objects r = some (.tuple items))
      (hs : Heights objects items n) : Height objects r (n + 1)

/-- The largest of the heights of some objects is `n`. -/
inductive Heights (objects : Ref → Option Object) : List Ref → Nat → Prop where
  | nil : Heights objects [] 0
  | cons {r : Ref} {rs : List Ref} {m n : Nat} (h : Height objects r m)
      (hs : Heights objects rs n) : Heights objects (r :: rs) (max m n)

end

mutual

theorem Height.unique {r : Ref} {m n : Nat} : Height objects r m → Height objects r n → m = n
  | .plain _ _, .plain _ _ => rfl
  | .plain ho ht, .tuple ho' _ => absurd (Option.some.inj (ho.symm.trans ho')) (ht _)
  | .tuple ho _, .plain ho' ht => absurd (Option.some.inj (ho'.symm.trans ho)) (ht _)
  | .tuple ho hs, .tuple ho' hs' => by
    obtain rfl := Object.tuple.inj (Option.some.inj (ho.symm.trans ho'))
    rw [hs.unique hs']

theorem Heights.unique {rs : List Ref} {m n : Nat} : Heights objects rs m → Heights objects rs n →
    m = n
  | .nil, .nil => rfl
  | .cons h hs, .cons h' hs' => by rw [h.unique h', hs.unique hs']

end

/-- Where no tuple is inside itself, every object has a height. -/
lemma exists_height (hc : Closed h) (ha : Acyclic (itemsAt h.object?))
    (hr : ∃ o, h.object? r = some o) : ∃ n, Height h.object? r n := by
  refine inside_out (P := fun r => ∃ n, Height h.object? r n) ha (fun r hr hitems => ?_) hr
  obtain ⟨o, ho⟩ := hr
  by_cases ht : ∃ items, o = .tuple items
  · obtain ⟨items, rfl⟩ := ht
    rw [itemsAt_tuple ho] at hitems
    have hall : ∀ q ∈ items, ∃ n, Height h.object? q n := fun q hq => hitems q hq (hc r _ ho q hq)
    have hheights : ∀ rs ⊆ items, ∃ n, Heights h.object? rs n := by
      intro rs hrs
      induction rs with
      | nil => exact ⟨0, .nil⟩
      | cons q rs ih =>
        obtain ⟨hq, hrs⟩ := List.cons_subset.mp hrs
        obtain ⟨m, hm⟩ := hall q hq
        obtain ⟨n, hn⟩ := ih hrs
        exact ⟨max m n, .cons hm hn⟩
    obtain ⟨n, hn⟩ := hheights items (List.Subset.refl items)
    exact ⟨n + 1, .tuple ho hn⟩
  · exact ⟨0, .plain ho (not_exists.mp ht)⟩

/-! ## Places that refuse -/

/-- The walk cannot get past the place `p` of the object at `r`, because of `e`. -/
def Refuses (objects : Ref → Option Object) (budget : Nat) (r : Ref) (p : List Nat)
    (e : RunError) : Prop :=
  ∃ q o, follow (itemsAt objects) r p = some q ∧ objects q = some o ∧
    o.refusal? (budget - p.length) = some e

/-- The same of a place of one of several objects, the first number being that of the object. -/
def RefusesIn (objects : Ref → Option Object) (budget : Nat) (rs : List Ref) (p : List Nat)
    (e : RunError) : Prop :=
  ∃ i p' q, p = i :: p' ∧ rs[i]? = some q ∧ Refuses objects budget q p' e

lemma refuses_nil_iff (ho : objects r = some o) :
    Refuses objects budget r [] e ↔ o.refusal? budget = some e := by
  simp [Refuses, ho]

/-- An object other than a tuple has no place but its own. -/
lemma refuses_plain_iff (ho : objects r = some o) (ht : ∀ items, o ≠ .tuple items) :
    Refuses objects budget r p e ↔ p = [] ∧ o.refusal? budget = some e := by
  cases p with
  | nil => simp [refuses_nil_iff ho]
  | cons i p => simp [Refuses, follow_cons, itemsAt_of_not_tuple ho ht]

/-- A tuple that can be entered refuses only where one of its items does, one level deeper. -/
lemma refuses_tuple_iff (ho : objects r = some (.tuple items)) :
    Refuses objects (budget + 1) r p e ↔ RefusesIn objects budget items p e := by
  -- One level deeper there is one level less and one number less, so what is left there is the
  -- same.
  have hdeeper : ∀ p : List Nat, budget + 1 - (p.length + 1) = budget - p.length := by
    intro p
    omega
  cases p with
  | nil => simp [refuses_nil_iff ho, Object.refusal?, RefusesIn]
  | cons i p =>
    constructor
    · rintro ⟨q, o, hq, ho', he⟩
      rw [follow_cons, itemsAt_tuple ho, Option.bind_eq_some_iff] at hq
      obtain ⟨c, hc, hq⟩ := hq
      exact ⟨i, p, c, rfl, hc, q, o, hq, ho', by rwa [List.length_cons, hdeeper] at he⟩
    · rintro ⟨j, p', c, hsame, hc, q, o, hq, ho', he⟩
      obtain ⟨rfl, rfl⟩ := List.cons.inj hsame
      refine ⟨q, o, ?_, ho', by rwa [List.length_cons, hdeeper]⟩
      rw [follow_cons, itemsAt_tuple ho, hc]
      exact hq

lemma not_refusesIn_nil : ¬ RefusesIn objects budget [] p e := by
  simp [RefusesIn]

lemma refusesIn_cons_iff : RefusesIn objects budget (r :: rs) p e ↔
    (∃ p', p = 0 :: p' ∧ Refuses objects budget r p' e) ∨
      ∃ i p', p = (i + 1) :: p' ∧ RefusesIn objects budget rs (i :: p') e := by
  constructor
  · rintro ⟨i, p', q, rfl, hq, hp⟩
    cases i with
    | zero =>
      obtain rfl : r = q := by simpa using hq
      exact .inl ⟨p', rfl, hp⟩
    | succ i => exact .inr ⟨i, p', rfl, i, p', q, rfl, hq, hp⟩
  · rintro (⟨p', rfl, hp⟩ | ⟨i, p', rfl, j, p'', q, hsame, hq, hp⟩)
    · exact ⟨0, p', r, rfl, rfl, hp⟩
    · obtain ⟨rfl, rfl⟩ := List.cons.inj hsame
      exact ⟨i + 1, p', q, rfl, hq, hp⟩

lemma Refuses.unique (he : Refuses objects budget r p e) (he' : Refuses objects budget r p e') :
    e = e' := by
  obtain ⟨q, o, hq, ho, hsame⟩ := he
  obtain ⟨q', o', hq', ho', hsame'⟩ := he'
  obtain rfl := Option.some.inj (hq.symm.trans hq')
  obtain rfl := Option.some.inj (ho.symm.trans ho')
  exact Option.some.inj (hsame.symm.trans hsame')

/-! ## Objects without lists and dicts -/

/-- No list or dict can be reached from the object at `r` through items of tuples. -/
def Frozen (objects : Ref → Option Object) (r : Ref) : Prop :=
  ∀ p q o, follow (itemsAt objects) r p = some q → objects q = some o →
    o.kind ≠ .list ∧ o.kind ≠ .dict

lemma frozen_plain_iff (ho : objects r = some o) (ht : ∀ items, o ≠ .tuple items) :
    Frozen objects r ↔ o.kind ≠ .list ∧ o.kind ≠ .dict := by
  constructor
  · intro hf
    exact hf [] r o follow_nil ho
  · intro hkind p q o' hq ho'
    cases p with
    | nil =>
      obtain rfl := Option.some.inj hq
      obtain rfl := Option.some.inj (ho.symm.trans ho')
      exact hkind
    | cons i p => simp [follow_cons, itemsAt_of_not_tuple ho ht] at hq

lemma frozen_tuple_iff (ho : objects r = some (.tuple items)) :
    Frozen objects r ↔ ∀ q ∈ items, Frozen objects q := by
  constructor
  · intro hf q hmem p q' o' hq' ho'
    obtain ⟨i, hi⟩ := List.getElem?_of_mem hmem
    refine hf (i :: p) q' o' ?_ ho'
    rw [follow_cons, itemsAt_tuple ho, hi]
    exact hq'
  · intro hall p q o' hq ho'
    cases p with
    | nil =>
      obtain rfl := Option.some.inj hq
      obtain rfl := Option.some.inj (ho.symm.trans ho')
      simp [Object.kind]
    | cons i p =>
      rw [follow_cons, itemsAt_tuple ho, Option.bind_eq_some_iff] at hq
      obtain ⟨c, hc, hq⟩ := hq
      exact hall c (List.mem_of_getElem? hc) p q o' hq ho'

lemma refusal?_eq_none_iff (budget : Nat) (ht : ∀ items, o ≠ .tuple items) :
    (∀ e, o.refusal? budget ≠ some e) ↔ o.kind ≠ .list ∧ o.kind ≠ .dict := by
  cases o with
  | tuple items => exact absurd rfl (ht items)
  | _ => simp [Object.refusal?, Object.kind]

mutual

/-- No place refuses just if there is no list or dict and the budget is enough for the height. -/
theorem Height.not_refuses_iff {r : Ref} {n : Nat} : Height objects r n → ∀ budget,
    (∀ p e, ¬ Refuses objects budget r p e) ↔ n ≤ budget ∧ Frozen objects r
  | .plain ho ht, budget => by
    rw [frozen_plain_iff ho ht, ← refusal?_eq_none_iff budget ht]
    simp only [refuses_plain_iff ho ht, not_and]
    exact ⟨fun hnone => ⟨budget.zero_le, fun e => hnone [] e rfl⟩, fun hnone _ e _ => hnone.2 e⟩
  | .tuple ho _, 0 => by
    have hrefuses : Refuses objects 0 _ [] .recursionLimit := (refuses_nil_iff ho).mpr rfl
    simp only [Nat.le_zero_eq, Nat.add_one_ne_zero, false_and, iff_false, not_forall, not_not]
    exact ⟨[], .recursionLimit, hrefuses⟩
  | .tuple ho hs, budget + 1 => by
    simp only [refuses_tuple_iff ho, frozen_tuple_iff ho, Nat.add_le_add_iff_right]
    exact hs.not_refusesIn_iff budget

/-- The same of several objects. -/
theorem Heights.not_refusesIn_iff {rs : List Ref} {n : Nat} : Heights objects rs n → ∀ budget,
    (∀ p e, ¬ RefusesIn objects budget rs p e) ↔ n ≤ budget ∧ ∀ q ∈ rs, Frozen objects q
  | .nil, budget => by simp [not_refusesIn_nil]
  | @Heights.cons _ r rs _ _ h hs, budget => by
    have hfirst := h.not_refuses_iff budget
    have hothers := hs.not_refusesIn_iff budget
    have hsplit : (∀ p e, ¬ RefusesIn objects budget (r :: rs) p e) ↔
        (∀ p e, ¬ Refuses objects budget r p e) ∧ ∀ p e, ¬ RefusesIn objects budget rs p e := by
      constructor
      · intro hnone
        refine ⟨fun p e hp => hnone (0 :: p) e (refusesIn_cons_iff.mpr (.inl ⟨p, rfl, hp⟩)), ?_⟩
        rintro p e hp
        obtain ⟨i, p', -, rfl, -, -⟩ := id hp
        exact hnone _ e (refusesIn_cons_iff.mpr (.inr ⟨i, p', rfl, hp⟩))
      · rintro ⟨hr, hrs⟩ p e hp
        rcases refusesIn_cons_iff.mp hp with ⟨p', -, hp'⟩ | ⟨i, p', -, hp'⟩
        · exact hr p' e hp'
        · exact hrs _ e hp'
    rw [hsplit, hfirst, hothers, Nat.max_le, List.forall_mem_cons]
    tauto

end

/-! ## The first place that refuses -/

/-- The first place for which there is an error has the error `e`. -/
def First (refuses : List Nat → RunError → Prop) (e : RunError) : Prop :=
  ∃ p, refuses p e ∧ ∀ p' < p, ∀ e', ¬ refuses p' e'

/-- There is an error if a place refuses, and then that of the first one. -/
def Settled {α : Type} (refuses : List Nat → RunError → Prop) : Except RunError α → Prop
  | .ok _ => ∀ p e, ¬ refuses p e
  | .error e => First refuses e

lemma First.unique {refuses : List Nat → RunError → Prop}
    (huniq : ∀ p e e', refuses p e → refuses p e' → e = e') (he : First refuses e)
    (he' : First refuses e') : e = e' := by
  obtain ⟨p, hp, hfirst⟩ := he
  obtain ⟨p', hp', hfirst'⟩ := he'
  rcases lt_trichotomy p p' with hlt | rfl | hlt
  · exact absurd hp (hfirst' p hlt e)
  · exact huniq p e e' hp hp'
  · exact absurd hp' (hfirst p' hlt e')

lemma Settled.error_iff {α : Type} {outcome : Except RunError α}
    (hs : Settled (Refuses objects budget r) outcome) :
    outcome = .error e ↔ First (Refuses objects budget r) e := by
  constructor
  · rintro rfl
    exact hs
  · intro hfirst
    cases outcome with
    | ok a =>
      obtain ⟨p, hp, -⟩ := hfirst
      exact absurd hp (hs p e)
    | error e' => rw [First.unique (fun _ _ _ he he' => he.unique he') hfirst hs]

lemma Settled.ok_iff {α : Type} {refuses : List Nat → RunError → Prop}
    {outcome : Except RunError α} (hs : Settled refuses outcome) :
    (∃ a, outcome = .ok a) ↔ ∀ p e, ¬ refuses p e := by
  constructor
  · rintro ⟨a, rfl⟩
    exact hs
  · intro hnone
    cases outcome with
    | ok a => exact ⟨a, rfl⟩
    | error e =>
      obtain ⟨p, hp, -⟩ := hs
      exact absurd hp (hnone p e)

/-- Several objects are settled one after the other. -/
lemma Settled.cons {k : Key} {ks : Except RunError (List Key)}
    (hfirst : Settled (Refuses objects budget r) (.ok k : Except RunError Key))
    (hothers : Settled (RefusesIn objects budget rs) ks) :
    Settled (RefusesIn objects budget (r :: rs)) (ks.map (k :: ·)) := by
  cases ks with
  | ok ks =>
    intro p e hp
    rcases refusesIn_cons_iff.mp hp with ⟨p', -, hp'⟩ | ⟨i, p', -, hp'⟩
    · exact hfirst p' e hp'
    · exact hothers _ e hp'
  | error e =>
    -- The first item refuses nowhere, and the places of the others come in the same order with
    -- every first number one higher.
    obtain ⟨p, hp, hbefore⟩ := hothers
    obtain ⟨i, p, q, rfl, hq, hrefuses⟩ := id hp
    refine ⟨(i + 1) :: p, refusesIn_cons_iff.mpr (.inr ⟨i, p, rfl, hp⟩), ?_⟩
    intro p' hlt e' hp'
    rcases refusesIn_cons_iff.mp hp' with ⟨p'', -, hrefuses⟩ | ⟨j, p'', rfl, hrefuses⟩
    · exact hfirst p'' e' hrefuses
    · refine hbefore (j :: p'') ?_ e' hrefuses
      simpa [List.cons_lt_cons_iff] using hlt

lemma First.cons (hfirst : First (Refuses objects budget r) e) :
    First (RefusesIn objects budget (r :: rs)) e := by
  obtain ⟨p, hp, hbefore⟩ := hfirst
  refine ⟨0 :: p, refusesIn_cons_iff.mpr (.inl ⟨p, rfl, hp⟩), ?_⟩
  intro p' hlt e' hp'
  rcases refusesIn_cons_iff.mp hp' with ⟨p'', rfl, hrefuses⟩ | ⟨j, p'', rfl, -⟩
  · refine hbefore p'' ?_ e' hrefuses
    simpa [List.cons_lt_cons_iff] using hlt
  · simp [List.cons_lt_cons_iff] at hlt

/-- An object other than a tuple has a key unless it refuses. -/
lemma settled_plain (ho : objects r = some o) (ht : ∀ items, o ≠ .tuple items) :
    Settled (Refuses objects budget r)
      ((o.atom? r).elim (.error (.unhashable o.typeName)) .ok : Except RunError Key) := by
  have hrefuses : ∀ p e, Refuses objects budget r p e ↔ p = [] ∧ o.refusal? budget = some e :=
    fun _ _ => refuses_plain_iff ho ht
  cases o with
  | tuple items => exact absurd rfl (ht items)
  | list | dict =>
    refine ⟨[], (hrefuses _ _).mpr ⟨rfl, rfl⟩, fun p' hlt => ?_⟩
    exact absurd hlt (List.not_lt_nil p')
  | _ =>
    intro p e hp
    obtain ⟨-, he⟩ := (hrefuses p e).mp hp
    simp [Object.refusal?] at he

/-! ## The walk -/

lemma mapM_settled {f : Ref → RunM Key}
    (hf : ∀ q ∈ rs, ∃ outcome, (f q).run h = .ok outcome h ∧
      Settled (Refuses objects budget q) outcome) :
    ∃ outcome, (rs.mapM f).run h = .ok outcome h ∧ Settled (RefusesIn objects budget rs) outcome := by
  induction rs with
  | nil => exact ⟨.ok [], rfl, fun _ _ => not_refusesIn_nil⟩
  | cons q rs ih =>
    obtain ⟨first, hfirst, hs⟩ := hf q List.mem_cons_self
    cases first with
    | error e => exact ⟨.error e, run_mapM_raised hfirst rs, First.cons hs⟩
    | ok k =>
      obtain ⟨others, hothers, hs'⟩ := ih (fun q' hq' => hf q' (List.mem_cons_of_mem q hq'))
      exact ⟨others.map (k :: ·), run_mapM_cons hfirst hothers, hs.cons hs'⟩

lemma projectionWith_settled (hc : Closed h) (hr : ∃ o, h.object? r = some o)
    (hfuel : h.levels < fuel) : ∃ outcome, (projectionWith fuel r).run h = .ok outcome h ∧
      Settled (Refuses h.object? h.levels r) outcome := by
  induction fuel generalizing h r with
  | zero => exact absurd hfuel (Nat.not_lt_zero _)
  | succ fuel ih =>
    obtain ⟨o, ho⟩ := hr
    by_cases ht : ∃ items, o = .tuple items
    · obtain ⟨items, rfl⟩ := ht
      cases hn : h.levels with
      | zero =>
        refine ⟨_, projectionWith_tuple_zero fuel ho hn, [], (refuses_nil_iff ho).mpr rfl, ?_⟩
        intro p' hlt
        exact absurd hlt (List.not_lt_nil p')
      | succ n =>
        have hitems : ∀ q ∈ items, ∃ outcome, (projectionWith fuel q).run { h with levels := n } =
            .ok outcome { h with levels := n } ∧ Settled (Refuses h.object? n q) outcome := by
          intro q hq
          have hbelow : n < fuel := by omega
          exact ih (h := { h with levels := n }) hc (hc r _ ho q hq) hbelow
        obtain ⟨keys, hkeys, hs⟩ := mapM_settled hitems
        refine ⟨_, projectionWith_tuple_succ ho hn hkeys, ?_⟩
        have hsame : Refuses h.object? (n + 1) r = RefusesIn h.object? n items := by
          funext p e
          exact propext (refuses_tuple_iff ho)
        rw [hsame]
        cases keys <;> exact hs
    · have hplain := not_exists.mp ht
      exact ⟨_, projectionWith_run_atom ho hplain, settled_plain ho hplain⟩

lemma projection_settled (hc : Closed h) (hr : ∃ o, h.object? r = some o) :
    ∃ outcome, (projection r).run h = .ok outcome h ∧
      Settled (Refuses h.object? h.levels r) outcome := by
  obtain ⟨outcome, hrun, hs⟩ := projectionWith_settled hc hr (Nat.lt_succ_self h.levels)
  exact ⟨outcome, (run_bind_ok (run_getThe h)).trans hrun, hs⟩

/-- **Which objects have keys.** Let what objects hold be alive, and no tuple be inside itself. The
search for the key of a live object always comes to an end and leaves the heap as it was, the depth
budget with it. Tuples are nested to one definite height in the object. There is a key just if the
height is within the budget and no list or dict can be reached through items of tuples. Otherwise
the error is that of the first place, from left to right and each tuple before its items, at which
there is a list or a dict or the budget is used up for a tuple. -/
theorem projection_outcome (hc : Closed h) (ha : Acyclic (itemsAt h.object?))
    (hr : h.isLive r = true) :
    ∃ height outcome, (∀ n, Height h.object? r n ↔ n = height) ∧
      (projection r).run h = .ok outcome h ∧
      ((∃ k, outcome = .ok k) ↔ height ≤ h.levels ∧ Frozen h.object? r) ∧
      ∀ e, outcome = .error e ↔ First (Refuses h.object? h.levels r) e := by
  have hobject : ∃ o, h.object? r = some o := exists_object? (Option.isSome_iff_ne_none.mp hr)
  obtain ⟨height, hheight⟩ := exists_height hc ha hobject
  obtain ⟨outcome, hrun, hs⟩ := projection_settled hc hobject
  refine ⟨height, outcome, fun n => ⟨fun hn => hn.unique hheight, ?_⟩, hrun, ?_, fun e => ?_⟩
  · rintro rfl
    exact hheight
  · exact hs.ok_iff.trans (hheight.not_refuses_iff h.levels)
  · exact hs.error_iff

/-- The walk through `(True, ([],))` with one level left ends at the inner tuple, before it comes to
the list in it. -/
theorem projection_outcome_nested : ∃ h : Heap, h.levels = 1 ∧ Closed h ∧
    Acyclic (itemsAt h.object?) ∧ h.isLive ⟨6⟩ = true ∧
    h.object? ⟨6⟩ = some (.tuple [trueRef, ⟨5⟩]) ∧ h.object? ⟨5⟩ = some (.tuple [⟨4⟩]) ∧
    h.object? ⟨4⟩ = some (.list (.exact [])) ∧
    (projection ⟨6⟩).run h = .ok (.error .recursionLimit) h ∧
    First (Refuses h.object? 1 ⟨6⟩) .recursionLimit := by
  let h : Heap := { freshWith .unlimited
    [⟨1, false, .list (.exact [])⟩, ⟨1, false, .tuple [⟨4⟩]⟩, ⟨1, false, .tuple [trueRef, ⟨5⟩]⟩] with
    levels := 1 }
  have hfull : ∀ i < h.slots.size, (h.object? ⟨i⟩).isSome := by decide
  have hdown : ∀ i < h.slots.size, ∀ q ∈ partsAt h.object? ⟨i⟩, q.index < i := by decide
  have hc : Closed h := closed_of_descending hdown hfull
  have ha : Acyclic (itemsAt h.object?) := acyclic_of_descending hdown
  obtain ⟨height, outcome, -, hrun, -, herror⟩ :=
    projection_outcome (h := h) (r := ⟨6⟩) hc ha rfl
  have hstuck : (projection ⟨6⟩).run h = .ok (.error .recursionLimit) h := rfl
  obtain rfl : outcome = .error .recursionLimit := by
    simpa using hrun.symm.trans hstuck
  exact ⟨h, rfl, hc, ha, rfl, rfl, rfl, rfl, hrun, (herror _).mp rfl⟩

end Heap

end NativeCall
