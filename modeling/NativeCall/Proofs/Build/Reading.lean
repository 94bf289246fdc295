import NativeCall.Proofs.Build.Demands
import NativeCall.Proofs.Heap.Transfer

/-!
# Readings lose no reference

Reading a scalar takes arguments off the front of a list, and with some of them a reference that the
caller gave away. Nothing is lost on the way: the references that stood in the list in front of a
reading are those that it hands out and those that still stand in the list behind it
(`Scalar.stolen_read`), or, if it fails, those that it hands back to be released and those behind it
(`Scalar.stolen_read_error`). A reading makes nothing, so what it hands out is told by its product
(`Product.owned`).

A failing reading is the delicate case. It may have taken two arguments, and hands back what came
with the last one only. That is enough because what stands in front of it is a text, and texts come
without references.

## Conversions

Readings make nothing up either. Where every argument has a property, the conversion that a product
asks for comes from an argument that has it (`Product.Fits`), and so do the arguments to come
(`Machine.Awaits`). The property may be any; three that are used are that a conversion is neutral,
that it changes objects only where that is allowed, and that it is a program of the caller.

A conversion is foreign code, so what a build needs of it has to be assumed. For the ownership of
references that is `Conversion.Neutral`: it makes one new owned reference, or fails, and has no
other effect. `Conversion.neutral_iff` shows the definition, which is written to be read, to be the
same as a transfer of nothing to the result, which is what the rules for builds are about.

All of this is read off `Scalar.demands_read`, one constructor at a time.
-/

namespace NativeCall

/-- The references that a caller gives away with a list of arguments. -/
def stolen (args : List BuildArg) : Multiset Ref :=
  ↑(args.flatMap BuildArg.owned)

@[simp] lemma stolen_nil : stolen [] = 0 := rfl

@[simp] lemma stolen_cons (arg : BuildArg) (args : List BuildArg) :
    stolen (arg :: args) = ↑arg.owned + stolen args := by
  rw [stolen, List.flatMap_cons, ← Multiset.coe_add]
  rfl

lemma stolen_append (args args' : List BuildArg) :
    stolen (args ++ args') = stolen args + stolen args' := by
  rw [stolen, List.flatMap_append, ← Multiset.coe_add]
  rfl

lemma stolen_of_met {needs : List Format.Need} {args : List BuildArg}
    (hn : .value .stolen ∉ needs) (h : Format.Need.Met needs args) : stolen args = 0 :=
  congrArg Multiset.ofList (Format.Need.owned_of_met hn h)

/-- A conversion that makes one new owned reference or fails, and has no other effect on a heap on
which the references `kept` are owned. -/
def Conversion.Neutral (kept : Multiset Ref) (a : Conversion) : Prop :=
  ∀ c others, kept ≤ others → c.heap.Counted others →
    ∃ outcome c', a.run c = .ok outcome c' ∧
      match outcome with
      | .ok r => c'.heap.Counted (r ::ₘ others) ∧
          ∃ h, Heap.decRef r c'.heap = .ok () h ∧ h.view = c.heap.view
      | .error _ => c'.heap.Counted others ∧ c'.heap.view = c.heap.view

/-- A neutral conversion is one that transfers its result and nothing else. -/
lemma Conversion.neutral_iff {kept : Multiset Ref} {a : Conversion} :
    a.Neutral kept ↔ Heap.Transfers kept a.run 0 (Heap.ofOutcome (fun r => {r}) 0) := by
  constructor
  · intro ha c others hk hc
    rw [zero_add] at hc
    obtain ⟨outcome, c', hrun, hafter⟩ := ha c others hk hc
    refine ⟨outcome, c', hrun, ?_⟩
    cases outcome with
    | ok r =>
      obtain ⟨hc', h, hd, hv⟩ := hafter
      -- Releasing the result shows the heap as it was, and that determines every later run of
      -- releases.
      refine .of_settles hc' ?_
      rw [Heap.decRef_eq_decRefs] at hd
      have hs := Heap.settles_of_decRefs hd
      rwa [hv] at hs
    | error e =>
      obtain ⟨hc', hv⟩ := hafter
      refine .of_view_eq ?_ hv
      rw [zero_add]
      exact hc'
  · intro ha c others hk hc
    obtain ⟨outcome, c', hrun, ht⟩ := ha c others hk (by rwa [zero_add])
    refine ⟨outcome, c', hrun, ?_⟩
    have hafter := ht.settles 0 c.heap.view (by rw [add_zero]; exact .done _)
    rw [add_zero] at hafter
    cases outcome with
    | ok r =>
      refine ⟨ht.counted, ?_⟩
      rw [Heap.decRef_eq_decRefs]
      exact Heap.decRefs_of_settles hafter
    | error e =>
      have hc' := ht.counted
      rw [show Heap.ofOutcome (fun r => {r}) 0 (Except.error e : Except RunError Ref) = 0 from rfl,
        zero_add] at hc'
      exact ⟨hc', (Settles.done _).unique hafter⟩

/-- An argument is fit to be built from: its conversion, if it has one, is neutral. -/
def BuildArg.Neutral (kept : Multiset Ref) (arg : BuildArg) : Prop :=
  ∀ a, arg = .convert (some a) → a.Neutral kept

namespace Product

/-- The reference that a product was made of. -/
def owned : Product → Multiset Ref
  | taken r => {r}
  | _ => 0

/-- A new object holds nothing, and a conversion comes from an argument that is `ok`. -/
def Fits (ok : BuildArg → Prop) : Product → Prop
  | fresh o => o.children = []
  | converted a => ok (.convert (some a))
  | _ => True

end Product

/-! ## Reading a scalar -/

namespace Scalar

variable {code : Char} {x : Scalar} {cursor cursor' : ArgCursor} {p : Product} {e : ReadError}

/-- A scalar hands out the references that came with its arguments. -/
lemma Outcome.stolen_ok {position : Nat} {given : List BuildArg}
    (h : x.Outcome position given (.ok p)) (hmet : Format.Need.Met x.needs given) :
    NativeCall.stolen given = p.owned := by
  cases h with
  | none hx | fresh hx => exact stolen_of_met (stolen_not_mem_needs hx) hmet
  | retained | taken | converted => rfl
  | null hnull =>
    unfold isNull at hnull
    split at hnull
    case h_4 => cases hnull
    all_goals rfl

/-- A scalar that fails was given none. -/
lemma Outcome.stolen_error {position : Nat} {given : List BuildArg} {e : BuildError}
    (h : x.Outcome position given (.error e)) (hmet : Format.Need.Met x.needs given) :
    NativeCall.stolen given = 0 := by
  cases h with
  | raised hx | tooLong hx => exact stolen_of_met (stolen_not_mem_needs hx) hmet

/-- Reading a scalar hands out the references that it takes. -/
lemma stolen_read (h : x.read code cursor = .ok p cursor') :
    NativeCall.stolen cursor.args = p.owned + NativeCall.stolen cursor'.args := by
  have hread := demands_read code x cursor
  rw [h] at hread
  cases hread with
  | ok hargs _ hmet hq => rw [hargs, stolen_append, hq.stolen_ok hmet]

/-- A reading that fails hands back what it has taken. -/
lemma stolen_read_error (h : x.read code cursor = .error e cursor') :
    NativeCall.stolen cursor.args = ↑e.rejected + NativeCall.stolen cursor'.args := by
  have hread := demands_read code x cursor
  rw [h] at hread
  cases hread with
  | failed hargs _ hmet hq =>
    rw [hargs, stolen_append, hq.stolen_error hmet]
    rfl
  | missing before _ hneeds hargs _ hmet =>
    rw [hargs, stolen_of_met (stolen_not_mem hneeds) hmet]
    rfl
  | refused before given _ hneeds hargs _ hmet =>
    -- In front of the argument that goes back there is at most a text.
    rw [hargs, stolen_append, stolen_cons, stolen_of_met (stolen_not_mem hneeds) hmet, zero_add]

/-- The arguments that a reading leaves are some of those that there were. -/
lemma mem_of_read {arg : BuildArg} (harg : arg ∈ cursor'.args)
    (h : x.read code cursor = .ok p cursor') : arg ∈ cursor.args := by
  have hread := demands_read code x cursor
  rw [h] at hread
  cases hread with
  | ok hargs => simp [hargs, harg]

lemma mem_of_read_error {arg : BuildArg} (harg : arg ∈ cursor'.args)
    (h : x.read code cursor = .error e cursor') : arg ∈ cursor.args := by
  have hread := demands_read code x cursor
  rw [h] at hread
  cases hread with
  | failed hargs => simp [hargs, harg]
  | missing _ _ _ hargs => simp [hargs] at harg
  | refused _ _ _ _ hargs => simp [hargs, harg]

/-- What a reading asks for is fit to be made if its arguments are. -/
lemma fits_read {ok : BuildArg → Prop} (hok : ∀ arg ∈ cursor.args, ok arg)
    (h : x.read code cursor = .ok p cursor') : p.Fits ok := by
  have hread := demands_read code x cursor
  rw [h] at hread
  cases hread with
  | ok hargs _ _ hq =>
    cases hq with
    | fresh _ ho => exact ho
    | converted => exact hok _ (by simp [hargs])
    | _ => trivial

end Scalar

/-! ## The arguments to come -/

namespace Machine

variable {ok : BuildArg → Prop} {m m' : Machine}

/-- The arguments that a machine has not taken yet are `ok`. -/
def Awaits (ok : BuildArg → Prop) (m : Machine) : Prop :=
  ∀ arg ∈ m.cursor.args, ok arg

lemma Awaits.push (hm : m.Awaits ok) (r : Ref) : (m.push r).Awaits ok := by
  rw [Awaits, cursor_push]
  exact hm

/-- A step leaves the machine with arguments that it had before. -/
lemma Awaits.step (hm : m.Awaits ok) {s : Step} {c c' : Context}
    {outcome : Except BuildError Unit} (hrun : m.step s c = .ok (m', outcome) c') :
    m'.Awaits ok := by
  rcases step_cases hrun with
    ⟨-, -, hcursor, -⟩ | ⟨x, -, ⟨e, hread, -⟩ | ⟨p, made, hread, -, -⟩⟩
  · rw [Awaits, hcursor]
    exact hm
  · exact fun arg harg => hm arg (Scalar.mem_of_read_error harg hread)
  · exact fun arg harg => hm arg (Scalar.mem_of_read harg hread)

end Machine

end NativeCall
