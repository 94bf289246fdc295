import NativeCall.Heap.Repr
import NativeCall.Proofs.Heap.Places

/-!
# Objects as text, down to a depth

The text of an object is written from left to right with one budget that goes down at every object
that is entered and up again when it is left. What comes out has nothing to do with that order: it
is the text of the tree of places of the object (`follow`), cut off at a depth.

An `Outline` is such a tree, with dots where it was cut, and its text is put together from the
inside out with no budget (`Outline.text`). The text of an object is that of an outline which shows
the object of every place above the budget, has dots at every place just as deep as the budget, and
has nothing below (`repr_outlined`). An object that holds itself has places at every depth, and is
cut like any other.

`Rendered` is the text of an object without any cut. It need not exist, but where no place is as
deep as the budget it does, and is what `repr` writes.

## Why an outline and not the text

A statement about the text alone could hardly say where the dots are: the text of a string may have
three dots in it, and so may that of an extension object. So the statement is about a tree whose
text it is, and about the places of that tree, of which there is no doubt. The tree is not unique as
far as the theorem is concerned, but what it shows at each place is, and so is its text.

The budget enters once, as the number of levels of the outline. The other two ways to say the same
thing would be to follow the budget through the writing, where it is back at its old value after
each object, or to speak of the texts of parts under a smaller budget; both are steps of the proof
(`reprWith_run_succ`) and would be poor statements, since they say of the whole only what they say
of its parts.

Every object that is entered takes a level, one without parts too. So with no level left an integer
is rendered as dots, and a list of integers takes two levels to be shown.
-/

namespace NativeCall

open Heap (elided commaSeparated tupleText)

/-! ## Text of one object -/

/-- The texts of keys and values in turn, as a dict shows them. -/
def pairTexts : List String → List String
  | key :: value :: rest => (key ++ ": " ++ value) :: pairTexts rest
  | _ => []

/-- The text of an object made from the texts of all that it holds. -/
def Object.textWith : Object → List String → String
  | none, _ => "None"
  | bool b, _ => if b then "True" else "False"
  | int i, _ => toString i.toInt
  | bigInt i, _ => toString i
  | float x, _ => x.text
  | str s, _ => Quoted.literal s
  | bytes bs, _ => Quoted.bytesLiteral bs
  | tuple _, texts => tupleText texts
  | list _, texts => "[" ++ commaSeparated texts ++ "]"
  | dict _, texts => "\x7b" ++ commaSeparated (pairTexts texts) ++ "\x7d"
  | native o, _ => "<" ++ o.typeName ++ " object>"

/-! ## Outlines -/

/-- An object with all that it holds, down to where it was cut off. -/
inductive Outline where
  | dots
  | object (o : Object) (parts : List Outline)

namespace Outline

mutual

/-- The text of an outline. -/
def text : Outline → String
  | dots => elided
  | object o parts => o.textWith (texts parts)

/-- The texts of some outlines. -/
def texts : List Outline → List String
  | [] => []
  | t :: ts => text t :: texts ts

end

lemma texts_eq_map (ts : List Outline) : texts ts = ts.map text := by
  induction ts with
  | nil => rfl
  | cons t ts ih => rw [texts, ih, List.map_cons]

/-- What stands at a place of an outline. -/
def at? : Outline → List Nat → Option Outline
  | t, [] => some t
  | object _ parts, i :: p => parts[i]?.bind (fun t => t.at? p)
  | dots, _ :: _ => none

/-- The place `p` of an outline shows the object `o`. -/
def Shows (t : Outline) (p : List Nat) (o : Object) : Prop :=
  ∃ parts, t.at? p = some (object o parts)

/-- There are dots at the place `p` of an outline. -/
def HasDots (t : Outline) (p : List Nat) : Prop :=
  t.at? p = some dots

end Outline

namespace Heap

variable {objects : Ref → Option Object} {h : Heap} {r q : Ref} {rs : List Ref} {o : Object}
  {p : List Nat} {n fuel : Nat}

/-! ## Cutting an object off -/

/-- The object at `r` with `n` levels of what is in it. -/
def outline (objects : Ref → Option Object) : Nat → Ref → Outline
  | 0, _ => .dots
  | n + 1, r =>
    match objects r with
    | some o => .object o (o.children.map (outline objects n))
    | none => .dots

lemma outline_succ (ho : objects r = some o) :
    outline objects (n + 1) r = .object o (o.children.map (outline objects n)) := by
  rw [outline, ho]

lemma text_outline_succ (ho : objects r = some o) : (outline objects (n + 1) r).text =
    o.textWith (o.children.map (fun q => (outline objects n q).text)) := by
  rw [outline_succ ho, Outline.text, Outline.texts_eq_map, List.map_map]
  rfl

/-- Whatever is inside a live object is alive. -/
lemma exists_object?_of_follow (hc : Closed h) (hr : ∃ o, h.object? r = some o)
    (hp : follow (partsAt h.object?) r p = some q) : ∃ o, h.object? q = some o := by
  induction p generalizing r with
  | nil =>
    obtain rfl := Option.some.inj hp
    exact hr
  | cons i p ih =>
    obtain ⟨o, ho⟩ := hr
    rw [follow_cons, partsAt_eq ho, Option.bind_eq_some_iff] at hp
    obtain ⟨c, hmem, hp⟩ := hp
    exact ih (hc r o ho c (List.mem_of_getElem? hmem)) hp

/-- At a place of an outline is the outline of the object there, with as many levels as are left. -/
lemma at?_outline (hc : Closed h) (hr : ∃ o, h.object? r = some o) :
    (outline h.object? n r).at? p = (follow (partsAt h.object?) r p).bind
      (fun q => if p.length ≤ n then some (outline h.object? (n - p.length) q) else none) := by
  -- The induction is on the path: each number goes to a part, which was cut one level higher up.
  induction p generalizing n r with
  | nil => simp [Outline.at?]
  | cons i p ih =>
    obtain ⟨o, ho⟩ := hr
    cases n with
    | zero => simp [outline, Outline.at?]
    | succ n =>
      rw [outline_succ ho, Outline.at?, follow_cons, partsAt_eq ho, List.getElem?_map,
        Option.bind_map, Option.bind_assoc]
      refine Option.bind_congr (fun c hmem => ?_)
      have hlive := hc r o ho c (List.mem_of_getElem? hmem)
      simp only [Function.comp_apply, ih hlive, List.length_cons, Nat.add_le_add_iff_right,
        Nat.add_sub_add_right]

lemma shows_outline_iff (hc : Closed h) (hr : ∃ o, h.object? r = some o) :
    (outline h.object? n r).Shows p o ↔
      p.length < n ∧ ∃ q, follow (partsAt h.object?) r p = some q ∧ h.object? q = some o := by
  unfold Outline.Shows
  rw [at?_outline hc hr]
  cases hp : follow (partsAt h.object?) r p with
  | none => simp
  | some q =>
    obtain ⟨o', ho'⟩ := exists_object?_of_follow hc hr hp
    rcases Nat.lt_or_ge p.length n with hlt | hge
    · obtain ⟨m, hm⟩ := Nat.exists_eq_add_one_of_ne_zero (show n - p.length ≠ 0 by omega)
      simp [hlt, Nat.le_of_lt hlt, hm, outline_succ ho', ho']
    · have hzero : n - p.length = 0 := by omega
      simp [Nat.not_lt_of_ge hge, hzero, outline]

lemma hasDots_outline_iff (hc : Closed h) (hr : ∃ o, h.object? r = some o) :
    (outline h.object? n r).HasDots p ↔
      p.length = n ∧ ∃ q, follow (partsAt h.object?) r p = some q := by
  unfold Outline.HasDots
  rw [at?_outline hc hr]
  cases hp : follow (partsAt h.object?) r p with
  | none => simp
  | some q =>
    obtain ⟨o', ho'⟩ := exists_object?_of_follow hc hr hp
    rcases Nat.lt_or_ge p.length n with hlt | hge
    · obtain ⟨m, hm⟩ := Nat.exists_eq_add_one_of_ne_zero (show n - p.length ≠ 0 by omega)
      simp [Nat.ne_of_lt hlt, Nat.le_of_lt hlt, hm, outline_succ ho']
    · have hzero : n - p.length = 0 := by omega
      simp [hzero, outline]
      omega

/-! ## Text without a cut -/

mutual

/-- `Rendered objects r text`: this is the text of the object at `r` with all that is in it. -/
inductive Rendered (objects : Ref → Option Object) : Ref → String → Prop where
  | object {r : Ref} {o : Object} {texts : List String} (ho : objects r = some o)
      (hs : AllRendered objects o.children texts) : Rendered objects r (o.textWith texts)

/-- These are the texts of some objects, one after the other. -/
inductive AllRendered (objects : Ref → Option Object) : List Ref → List String → Prop where
  | nil : AllRendered objects [] []
  | cons {r : Ref} {rs : List Ref} {text : String} {texts : List String}
      (h : Rendered objects r text) (hs : AllRendered objects rs texts) :
      AllRendered objects (r :: rs) (text :: texts)

end

mutual

theorem Rendered.unique {r : Ref} {s t : String} : Rendered objects r s → Rendered objects r t → s = t
  | .object ho hs, .object ho' hs' => by
    obtain rfl := Option.some.inj (ho.symm.trans ho')
    rw [hs.unique hs']

theorem AllRendered.unique {rs : List Ref} {ss ts : List String} : AllRendered objects rs ss →
    AllRendered objects rs ts → ss = ts
  | .nil, .nil => rfl
  | .cons h hs, .cons h' hs' => by rw [h.unique h', hs.unique hs']

end

lemma allRendered_map {f : Ref → String} (hf : ∀ q ∈ rs, Rendered objects q (f q)) :
    AllRendered objects rs (rs.map f) := by
  induction rs with
  | nil => exact .nil
  | cons r rs ih =>
    exact .cons (hf r List.mem_cons_self) (ih (fun q hq => hf q (List.mem_cons_of_mem r hq)))

/-- An outline that reaches every place has the text without a cut. -/
lemma rendered_outline (hc : Closed h) (hr : ∃ o, h.object? r = some o)
    (hdeep : ∀ p q, follow (partsAt h.object?) r p = some q → p.length < n) :
    Rendered h.object? r (outline h.object? n r).text := by
  induction n generalizing r with
  | zero => exact absurd (hdeep [] r rfl) (Nat.not_lt_zero _)
  | succ n ih =>
    obtain ⟨o, ho⟩ := hr
    rw [text_outline_succ ho]
    refine .object ho (allRendered_map (fun q hq => ih (hc r o ho q hq) ?_))
    intro p q' hp
    obtain ⟨i, hi⟩ := List.getElem?_of_mem hq
    refine Nat.lt_of_succ_lt_succ (hdeep (i :: p) q' ?_)
    rw [follow_cons, partsAt_eq ho, hi]
    exact hp

/-! ## Writing -/

lemma mapM_run {α β : Type} {f : α → HeapM β} {g : α → β} {as : List α}
    (hf : ∀ a ∈ as, f a h = .ok (g a) h) : as.mapM f h = .ok (as.map g) h := by
  induction as with
  | nil => rfl
  | cons a as ih =>
    have hfirst := hf a List.mem_cons_self
    have hothers := ih (fun b hb => hf b (List.mem_cons_of_mem a hb))
    rw [List.mapM_cons, bind_ok hfirst, bind_ok hothers]
    rfl

/-- A dict is written entry by entry, which is two of its parts at a time. -/
lemma pairTexts_refs (entries : List DictEntry) (f : Ref → String) :
    pairTexts ((Dict.mk entries).refs.map f) =
      entries.map (fun e => f e.keyRef ++ ": " ++ f e.value) := by
  induction entries with
  | nil => rfl
  | cons e entries ih =>
    rw [List.map_cons, ← ih]
    rfl

/-- No object is entered when the budget is used up. -/
lemma reprWith_run_zero (fuel : Nat) (r : Ref) (hn : h.levels = 0) :
    reprWith (fuel + 1) r h = .ok elided h := by
  rw [reprWith, bind_ok (enterLevel_of_levels_zero hn)]
  rfl

/-- An object that is entered is written from the texts of its parts, which are written one level
deeper. -/
lemma reprWith_run_succ {f : Ref → String} (ho : h.object? r = some o) (hn : h.levels = n + 1)
    (hparts : ∀ q ∈ o.children, reprWith fuel q { h with levels := n } =
      .ok (f q) { h with levels := n }) :
    reprWith (fuel + 1) r h = .ok (o.textWith (o.children.map f)) h := by
  have henter : enterLevel h = .ok true { h with levels := n } := enterLevel_of_levels_succ hn
  have hget : get r { h with levels := n } = .ok o { h with levels := n } := get_of_object? ho
  have hexit : exitLevel { h with levels := n } = .ok () h := exitLevel_of_levels_succ hn
  -- However many of the parts are written, each is written on the same heap, since the budget is
  -- back where it was.
  have hitems : ∀ rs ⊆ o.children, rs.mapM (reprWith fuel) { h with levels := n } =
      .ok (rs.map f) { h with levels := n } := fun rs hrs => mapM_run (fun q hq => hparts q (hrs hq))
  rw [reprWith, bind_ok henter, if_pos rfl, bind_ok hget]
  cases o with
  | tuple items =>
    exact (bind_ok (hitems items (List.Subset.refl _))).trans ((bind_ok rfl).trans (bind_ok hexit))
  | list store =>
    exact (bind_ok (hitems store.items (List.Subset.refl _))).trans
      ((bind_ok rfl).trans (bind_ok hexit))
  | dict d =>
    -- An entry of a dict is two parts, and its text is made before that of the next entry.
    have hentry : ∀ e ∈ d.entries, (do
        let key ← reprWith fuel e.keyRef
        let value ← reprWith fuel e.value
        pure (key ++ ": " ++ value) : HeapM String) { h with levels := n } =
          .ok (f e.keyRef ++ ": " ++ f e.value) { h with levels := n } := by
      intro e he
      have hkey := hparts e.keyRef (List.mem_flatMap.mpr ⟨e, he, by simp⟩)
      have hvalue := hparts e.value (List.mem_flatMap.mpr ⟨e, he, by simp⟩)
      rw [bind_ok hkey, bind_ok hvalue]
      rfl
    have hentries := mapM_run hentry
    rw [← pairTexts_refs] at hentries
    exact (bind_ok hentries).trans ((bind_ok rfl).trans (bind_ok hexit))
  | _ => exact (bind_ok rfl).trans (bind_ok hexit)

/-- The text of an object that holds no others takes one level. -/
lemma repr_of_childless (ho : h.object? r = some o) (hnone : o.children = []) :
    repr r h = .ok (if h.levels = 0 then elided else o.textWith []) h := by
  show reprWith (h.levels + 1) r h = _
  cases hn : h.levels with
  | zero => exact reprWith_run_zero 0 r hn
  | succ n =>
    have hrun : reprWith (n + 1 + 1) r h = .ok (o.textWith (o.children.map fun _ => elided)) h :=
      reprWith_run_succ ho hn (by simp [hnone])
    rw [hnone] at hrun
    exact hrun

lemma reprWith_run (hc : Closed h) (hr : ∃ o, h.object? r = some o) (hfuel : h.levels < fuel) :
    reprWith fuel r h = .ok (outline h.object? h.levels r).text h := by
  induction fuel generalizing h r with
  | zero => exact absurd hfuel (Nat.not_lt_zero _)
  | succ fuel ih =>
    obtain ⟨o, ho⟩ := hr
    cases hn : h.levels with
    | zero => exact reprWith_run_zero fuel r hn
    | succ n =>
      rw [text_outline_succ ho]
      refine reprWith_run_succ ho hn (fun q hq => ?_)
      exact ih (h := { h with levels := n }) hc (hc r o ho q hq) (by show n < fuel; omega)

/-- **Texts of objects.** Let what objects hold be alive; lists and dicts may hold themselves. The
text of a live object comes to an end whatever the depth budget is, and leaves the heap as it was,
the budget with it. It is the text of an outline of the object: every place that is less deep than
the budget shows the object that stands there, and there are dots at every place that is just as
deep as the budget, and nowhere else. If no place is so deep, the text is that of the object with
all that is in it. -/
theorem repr_outlined (hc : Closed h) (hr : h.isLive r = true) :
    ∃ t : Outline, repr r h = .ok t.text h ∧
      (∀ p o, t.Shows p o ↔
        p.length < h.levels ∧ ∃ q, follow (partsAt h.object?) r p = some q ∧ h.object? q = some o) ∧
      (∀ p, t.HasDots p ↔
        p.length = h.levels ∧ ∃ q, follow (partsAt h.object?) r p = some q) ∧
      ((∀ p q, follow (partsAt h.object?) r p = some q → p.length < h.levels) →
        ∀ text, Rendered h.object? r text ↔ text = t.text) := by
  have hobject : ∃ o, h.object? r = some o := exists_object? (Option.isSome_iff_ne_none.mp hr)
  refine ⟨outline h.object? h.levels r, ?_, fun p o => shows_outline_iff hc hobject,
    fun p => hasDots_outline_iff hc hobject, fun hdeep text => ?_⟩
  · exact reprWith_run hc hobject (Nat.lt_succ_self h.levels)
  · have hwhole := rendered_outline hc hobject hdeep
    constructor
    · intro htext
      exact htext.unique hwhole
    · rintro rfl
      exact hwhole

/-- A list that holds itself and `None`, with a budget of two levels: where it stands in itself for
the second time there are dots. -/
theorem repr_outlined_cycle : ∃ h : Heap, h.levels = 2 ∧ Closed h ∧ h.isLive ⟨4⟩ = true ∧
    h.object? ⟨4⟩ = some (.list (.exact [⟨4⟩, noneRef])) ∧
    ∃ t : Outline, t.text = "[[..., ...], None]" ∧ repr ⟨4⟩ h = .ok t.text h ∧
      t.HasDots [0, 0] ∧ ¬ t.HasDots [1] := by
  let h : Heap := { freshWith .unlimited [⟨2, false, .list (.exact [⟨4⟩, noneRef])⟩] with
    levels := 2 }
  have hclosed : ∀ i < h.slots.size, ∀ q ∈ partsAt h.object? ⟨i⟩, (h.object? q).isSome := by decide
  have hc : Closed h := by
    intro r o ho q hq
    obtain ⟨e, he, -⟩ := object?_eq_some.mp ho
    rw [← partsAt_eq ho] at hq
    exact Option.isSome_iff_exists.mp (hclosed r.index (lt_size_of_slot? he) q hq)
  obtain ⟨t, hrun, -, hdots, -⟩ := repr_outlined (h := h) (r := ⟨4⟩) hc rfl
  have htext : repr ⟨4⟩ h = .ok "[[..., ...], None]" h := rfl
  refine ⟨h, rfl, hc, rfl, rfl, t, ?_, hrun, (hdots _).mpr ⟨rfl, ⟨4⟩, rfl⟩, ?_⟩
  · simpa using hrun.symm.trans htext
  · rw [hdots]
    rintro ⟨hdeep, -⟩
    exact absurd hdeep (by decide)

end Heap

end NativeCall
