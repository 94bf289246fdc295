import Mathlib.Algebra.Group.Nat.Even
import Mathlib.Tactic.Lemma
import NativeCall.Format.Basic

/-!
# The grammar of format strings

A format string describes items, and an item is a scalar or a group of items. `Tree` is an item as
data, and `Items` says which texts describe which items: a scalar is written by its code and perhaps
a suffix (`Spells`), a group stands between its opening and its closing character, and separators
may stand anywhere inside a group. A dict group has an even number of items.

Nothing here scans from left to right or counts: the relation only says what a text may be put
together from. What a format keeps of a text is the list of steps of its trees (`Tree.steps`), and
the steps lose nothing: `stepsOf_injective`.

The grammar is the specification that reading is compared with, so it is written for a reader who
knows the format language and nothing of the scanner. `Spells` is a table with one line for each
meaning of a code. `Items` has one constructor for each thing that can stand at a place, with the
flag `inside` for the one rule that depends on where that is. Validity and viability are then two
lines: a text is valid if it describes something, and viable if some text can be put behind it so
that the whole is valid.

Viability is a statement about all continuations and is not decidable by looking at it. That it is
decided by one scan is a theorem, and the reason why errors can be reported at the first character
that is to blame.
-/

namespace NativeCall

/-- The scalar of a step that is none of a group. -/
def Step.scalar? (s : Step) : Option Scalar :=
  match s.directive with
  | .scalar x => some x
  | _ => none

namespace Format

/-! ## Trees -/

/-- One item that a format string describes. A scalar is kept with the character that it is
written by. -/
inductive Tree where
  | scalar (code : Char) (s : Scalar)
  | group (kind : GroupKind) (items : List Tree)
  deriving Repr

mutual

/-- The steps that make an item. -/
def Tree.steps : Tree → List Step
  | .scalar code s => [⟨code, .scalar s⟩]
  | .group kind items =>
    ⟨kind.opener, .opening kind⟩ :: (stepsOf items ++ [⟨kind.closer, .closing kind⟩])

/-- The steps that make items one after the other. -/
def stepsOf : List Tree → List Step
  | [] => []
  | t :: ts => t.steps ++ stepsOf ts

end

/-- How many arguments steps take: one for each scalar and one for each length. -/
def argsOf (steps : List Step) : Nat :=
  (steps.filterMap Step.scalar?).length + (steps.filterMap Step.scalar?).countP Scalar.isSized

/-- The format that a text describes, if these are its items. -/
def ofTrees (source : String) (ts : List Tree) : Format :=
  ⟨source, stepsOf ts, argsOf (stepsOf ts), ts.length⟩

@[simp] lemma stepsOf_nil : stepsOf [] = [] := by
  simp only [stepsOf]

@[simp] lemma stepsOf_cons (t : Tree) (ts : List Tree) :
    stepsOf (t :: ts) = t.steps ++ stepsOf ts := by
  simp only [stepsOf]

@[simp] lemma steps_scalar (code : Char) (s : Scalar) :
    (Tree.scalar code s).steps = [⟨code, .scalar s⟩] := by
  simp only [Tree.steps]

@[simp] lemma steps_group (kind : GroupKind) (items : List Tree) :
    (Tree.group kind items).steps =
      ⟨kind.opener, .opening kind⟩ :: (stepsOf items ++ [⟨kind.closer, .closing kind⟩]) := by
  simp only [Tree.steps]

@[simp] lemma stepsOf_append (ts us : List Tree) :
    stepsOf (ts ++ us) = stepsOf ts ++ stepsOf us := by
  induction ts with
  | nil => simp
  | cons t ts ih => simp [ih]

/-! ## Dict groups

The grammar lets a dict group close only after an even number of items, so its items are keys and
values in turn. -/

mutual

/-- Every dict group in an item has an even number of items. -/
def Tree.Paired : Tree → Prop
  | .scalar _ _ => True
  | .group kind items => (kind = .dict → Even items.length) ∧ PairedAll items

/-- Every dict group in the items has an even number of items. -/
def PairedAll : List Tree → Prop
  | [] => True
  | t :: ts => t.Paired ∧ PairedAll ts

end

@[simp] lemma paired_scalar (code : Char) (s : Scalar) : (Tree.scalar code s).Paired := by
  simp only [Tree.Paired]

@[simp] lemma paired_group (kind : GroupKind) (items : List Tree) :
    (Tree.group kind items).Paired ↔ (kind = .dict → Even items.length) ∧ PairedAll items := by
  simp only [Tree.Paired]

@[simp] lemma pairedAll_nil : PairedAll [] := by
  simp only [PairedAll]

@[simp] lemma pairedAll_cons (t : Tree) (ts : List Tree) :
    PairedAll (t :: ts) ↔ t.Paired ∧ PairedAll ts := by
  simp only [PairedAll]

/-! ## Texts -/

/-- The characters that may stand between items. -/
def separators : List Char := [':', ',', ' ']

/-- How a scalar is written: a code and the suffix behind it. -/
inductive Spells : Char → List Char → Scalar → Prop where
  | text {c : Char} (hc : c ∈ ['s', 'z', 'U']) : Spells c [] (.text false)
  | sizedText {c : Char} (hc : c ∈ ['s', 'z', 'U']) : Spells c ['#'] (.text true)
  | bytes : Spells 'y' [] (.bytes false)
  | sizedBytes : Spells 'y' ['#'] (.bytes true)
  | wide : Spells 'u' [] (.wide false)
  | sizedWide : Spells 'u' ['#'] (.wide true)
  | int32 {c : Char} (hc : c ∈ ['i', 'b', 'h']) : Spells c [] .int32
  | int64 {c : Char} (hc : c ∈ ['l', 'L', 'n']) : Spells c [] .int64
  | uint32 {c : Char} (hc : c ∈ ['B', 'H', 'I']) : Spells c [] .uint32
  | uint64 {c : Char} (hc : c ∈ ['k', 'K']) : Spells c [] .uint64
  | byte : Spells 'c' [] .byte
  | codePoint : Spells 'C' [] .codePoint
  | float {c : Char} (hc : c ∈ ['d', 'f']) : Spells c [] .float
  | borrowed {c : Char} (hc : c ∈ ['O', 'S']) : Spells c [] .borrowed
  | converted : Spells 'O' ['&'] .converted
  | stolen : Spells 'N' [] .stolen

/-- `Items inside cs ts`: the text `cs` describes the items `ts`. Separators are for groups
only. -/
inductive Items : Bool → List Char → List Tree → Prop where
  | nil {inside : Bool} : Items inside [] []
  | separator {c : Char} {cs : List Char} {ts : List Tree} (hc : c ∈ separators)
      (h : Items true cs ts) : Items true (c :: cs) ts
  | scalar {inside : Bool} {c : Char} {suffix cs : List Char} {s : Scalar} {ts : List Tree}
      (hs : Spells c suffix s) (h : Items inside cs ts) :
      Items inside (c :: (suffix ++ cs)) (.scalar c s :: ts)
  | group {inside : Bool} {kind : GroupKind} {body cs : List Char} {items ts : List Tree}
      (hb : Items true body items) (he : kind = .dict → Even items.length)
      (h : Items inside cs ts) :
      Items inside (kind.opener :: (body ++ kind.closer :: cs)) (.group kind items :: ts)

/-- The text describes some items. -/
def Valid (cs : List Char) : Prop :=
  ∃ ts, Items false cs ts

/-- Some text behind `cs` makes the whole describe items. -/
def Viable (cs : List Char) : Prop :=
  ∃ rest, Valid (cs ++ rest)

lemma Valid.viable {cs : List Char} (h : Valid cs) : Viable cs :=
  ⟨[], by rwa [List.append_nil]⟩

lemma Viable.of_append {cs ds : List Char} (h : Viable (cs ++ ds)) : Viable cs := by
  obtain ⟨rest, hv⟩ := h
  exact ⟨ds ++ rest, by rwa [← List.append_assoc]⟩

namespace Items

variable {inside : Bool} {cs ds : List Char} {ts us : List Tree}

lemma append (hc : Items inside cs ts) (hd : Items inside ds us) :
    Items inside (cs ++ ds) (ts ++ us) := by
  induction hc generalizing us with
  | nil => exact hd
  | separator hc _ ih => exact .separator hc (ih hd)
  | @scalar inside c suffix cs s ts hs _ ih =>
    rw [List.cons_append, List.append_assoc, List.cons_append]
    exact .scalar hs (ih hd)
  | @group inside kind body cs items ts hb he _ _ ih =>
    rw [List.cons_append, List.append_assoc, List.cons_append, List.cons_append]
    exact .group hb he (ih hd)

lemma paired (h : Items inside cs ts) : PairedAll ts := by
  induction h with
  | nil => exact pairedAll_nil
  | separator _ _ ih => exact ih
  | scalar _ _ ih => exact (pairedAll_cons _ _).mpr ⟨paired_scalar _ _, ih⟩
  | group _ he _ ihb ih =>
    exact (pairedAll_cons _ _).mpr ⟨(paired_group _ _).mpr ⟨he, ihb⟩, ih⟩

lemma singleton_scalar {c : Char} {suffix : List Char} {s : Scalar} (hs : Spells c suffix s) :
    Items inside (c :: suffix) [.scalar c s] := by
  have h := Items.scalar hs (@Items.nil inside)
  rwa [List.append_nil] at h

lemma singleton_group {kind : GroupKind} (hb : Items true cs ts)
    (he : kind = .dict → Even ts.length) :
    Items inside (kind.opener :: (cs ++ [kind.closer])) [.group kind ts] :=
  .group hb he .nil

lemma singleton_separator {c : Char} (hc : c ∈ separators) : Items true [c] [] :=
  .separator hc .nil

end Items

/-! ## The steps determine the trees

Read from the left, the steps of a list of trees end where the first closing step stands that has
no opening one before it. -/

/-- No item starts with this step list: it is empty or goes on with a closing step. -/
def Stops (rest : List Step) : Prop :=
  ∀ s ∈ rest.head?, ∃ kind, s.directive = .closing kind

lemma stops_nil : Stops [] := by
  intro s hs
  simp at hs

lemma stops_closing (kind : GroupKind) (rest : List Step) :
    Stops (⟨kind.closer, .closing kind⟩ :: rest) := by
  intro s hs
  obtain rfl : (⟨kind.closer, .closing kind⟩ : Step) = s := by simpa using hs
  exact ⟨kind, rfl⟩

lemma not_stops_steps (t : Tree) (rest : List Step) : ¬ Stops (t.steps ++ rest) := by
  intro h
  cases t with
  | scalar code s =>
    obtain ⟨kind, hk⟩ := h ⟨code, .scalar s⟩ (by simp)
    cases hk
  | group kind items =>
    obtain ⟨kind', hk⟩ := h ⟨kind.opener, .opening kind⟩ (by simp)
    cases hk

mutual

lemma steps_append_inj {t u : Tree} {rest rest' : List Step}
    (h : t.steps ++ rest = u.steps ++ rest') : t = u ∧ rest = rest' := by
  match t, u with
  | .scalar code s, .scalar code' s' => simp_all
  | .scalar code s, .group kind items => simp at h
  | .group kind items, .scalar code s => simp at h
  | .group kind items, .group kind' items' =>
    simp only [steps_group, List.cons_append, List.append_assoc, List.cons.injEq,
      Step.mk.injEq, Directive.opening.injEq, List.nil_append] at h
    obtain ⟨⟨-, rfl⟩, h⟩ := h
    obtain ⟨rfl, hr⟩ := stepsOf_append_inj h (stops_closing kind rest) (stops_closing kind rest')
    exact ⟨rfl, (List.cons.inj hr).2⟩

lemma stepsOf_append_inj {ts us : List Tree} {rest rest' : List Step}
    (h : stepsOf ts ++ rest = stepsOf us ++ rest') (hr : Stops rest) (hr' : Stops rest') :
    ts = us ∧ rest = rest' := by
  match ts, us with
  | [], [] => exact ⟨rfl, by simpa using h⟩
  | [], u :: us =>
    rw [stepsOf_nil, List.nil_append, stepsOf_cons, List.append_assoc] at h
    exact absurd (h ▸ hr) (not_stops_steps u _)
  | t :: ts, [] =>
    rw [stepsOf_nil, List.nil_append, stepsOf_cons, List.append_assoc] at h
    exact absurd (h ▸ hr') (not_stops_steps t _)
  | t :: ts, u :: us =>
    simp only [stepsOf_cons, List.append_assoc] at h
    obtain ⟨rfl, htail⟩ := steps_append_inj h
    obtain ⟨rfl, hrest⟩ := stepsOf_append_inj htail hr hr'
    exact ⟨rfl, hrest⟩

end

/-- Different items are made by different steps. -/
theorem stepsOf_injective : Function.Injective stepsOf := by
  intro ts us h
  have happ : stepsOf ts ++ [] = stepsOf us ++ [] := by rw [h]
  exact (stepsOf_append_inj happ stops_nil stops_nil).1

end Format

end NativeCall
