import NativeCall.Resource.Tracker

/-!
# Limits in a configuration file

A host keeps the limits of a heap as a JSON value: an object with the members `max_allocations` and
`max_memory`, or an array of at most these two in this order. A limit is a natural number below `2 ^
64` or `null`, and a missing one is no limit.

Which texts are JSON is not decided here. `Limits.fromJson?` has the parser as a parameter and takes
over once there is a value. A number comes as it is written, since a fraction or an exponent makes
it no limit whatever its value is; and the name of a member may be no text at all, since JSON can
write half of a surrogate pair. Such a name spoils the members of an object, whatever its value is,
while inside the value of another member it is of no interest.

Where the members of an object stand makes no difference (`Limits.ofValue?_object`): a limit is the
value of its only member, and members of other names are passed over.
-/

namespace NativeCall

inductive JsonValue where
  | null
  | bool (b : Bool)
  /-- A number, as it is written. -/
  | number (digits : List Char)
  | string (s : Option String)
  | array (items : List JsonValue)
  | object (members : List (Option String × JsonValue))

namespace JsonValue

/-- The value of a run of digits, if it has 64 bits. Further digits make a number no smaller, so the
first value that is too large decides. -/
def word? (digits : List Char) : Option Nat :=
  digits.foldlM (fun n c =>
    let n := 10 * n + (c.toNat - '0'.toNat)
    if n < UInt64.size then some n else none) 0

def limit? : JsonValue → Option (Option Nat)
  | null => some none
  | number digits => if digits.all Char.isDigit then some <$> word? digits else none
  | _ => none

end JsonValue

namespace Limits

/-- The limits met so far; a member that has not been met is `none`. -/
structure Members where
  allocations : Option (Option Nat) := none
  memory : Option (Option Nat) := none

namespace Members

def toLimits (met : Members) : Limits :=
  ⟨met.allocations.getD none, met.memory.getD none⟩

def meet? (met : Members) : Option String × JsonValue → Option Members
  | (none, _) => none
  | (some name, value) =>
    if name = "max_allocations" then
      if met.allocations.isSome then none
      else value.limit?.map (fun limit => { met with allocations := some limit })
    else if name = "max_memory" then
      if met.memory.isSome then none
      else value.limit?.map (fun limit => { met with memory := some limit })
    else some met

end Members

def ofValue? : JsonValue → Option Limits
  | .object members => Members.toLimits <$> members.foldlM Members.meet? {}
  | .array [] => some {}
  | .array [allocations] => do return ⟨← allocations.limit?, none⟩
  | .array [allocations, memory] => do return ⟨← allocations.limit?, ← memory.limit?⟩
  | _ => none

/-- Reads limits from a text with a parser of JSON. -/
def fromJson? (parse : String → Option JsonValue) (text : String) : Option Limits := do
  ofValue? (← parse text)

/-! ## The members of an object -/

/-- The values of all members of a name. -/
def valuesOf (name : String) (members : List (Option String × JsonValue)) : List JsonValue :=
  members.filterMap (fun m => if m.1 = some name then some m.2 else none)

theorem valuesOf_cons (name : String) (m : Option String × JsonValue)
    (members : List (Option String × JsonValue)) : valuesOf name (m :: members) =
      if m.1 = some name then m.2 :: valuesOf name members else valuesOf name members := by
  unfold valuesOf
  split <;> rename_i h <;> simp [h]

/-- What the values of all members of one name come to, after a limit that was met before. None is
met twice. -/
inductive Meets : Option (Option Nat) → List JsonValue → Option (Option Nat) → Prop where
  | none (met : Option (Option Nat)) : Meets met [] met
  | one {value : JsonValue} {limit : Option Nat} (h : value.limit? = some limit) :
      Meets .none [value] (some limit)

theorem meets_cons_iff {met last : Option (Option Nat)} {value : JsonValue}
    {values : List JsonValue} : Meets met (value :: values) last ↔
      ∃ limit, met = none ∧ value.limit? = some limit ∧ Meets (some limit) values last := by
  constructor
  · rintro (_ | h)
    exact ⟨_, rfl, h, .none _⟩
  · rintro ⟨limit, rfl, h, hrest⟩
    cases hrest with
    | none => exact .one h

theorem foldlM_meet?_eq_some_iff {members : List (Option String × JsonValue)}
    {met last : Members} : members.foldlM Members.meet? met = some last ↔
      (∀ m ∈ members, m.1 ≠ none) ∧
        Meets met.allocations (valuesOf "max_allocations" members) last.allocations ∧
        Meets met.memory (valuesOf "max_memory" members) last.memory := by
  induction members generalizing met with
  | nil =>
    obtain ⟨allocations, memory⟩ := met
    obtain ⟨allocations', memory'⟩ := last
    constructor
    · rintro ⟨⟩
      exact ⟨by simp, .none _, .none _⟩
    · rintro ⟨-, ⟨⟩, ⟨⟩⟩
      rfl
  | cons m members ih =>
    obtain ⟨_ | name, value⟩ := m
    · simp [Members.meet?]
    -- The two names differ, so a member counts for one limit and is passed over for the other.
    by_cases ha : name = "max_allocations"
    · subst ha
      cases hmet : met.allocations <;> cases hvalue : value.limit? <;>
        simp [Members.meet?, valuesOf_cons, meets_cons_iff, hmet, hvalue, ih]
    · by_cases hm : name = "max_memory"
      · subst hm
        cases hmet : met.memory <;> cases hvalue : value.limit? <;>
          simp [Members.meet?, valuesOf_cons, meets_cons_iff, hmet, hvalue, ih]
      · simp [Members.meet?, valuesOf_cons, ha, hm, ih]

/-- The limits of an object are the values of its members of the two names, of which there is at
most one each, wherever they stand. -/
theorem ofValue?_object {members : List (Option String × JsonValue)} {l : Limits} :
    ofValue? (.object members) = some l ↔ (∀ m ∈ members, m.1 ≠ none) ∧
      ∃ allocations memory, Meets none (valuesOf "max_allocations" members) allocations ∧
        Meets none (valuesOf "max_memory" members) memory ∧
        l = ⟨allocations.getD none, memory.getD none⟩ := by
  simp only [ofValue?, Option.map_eq_map, Option.map_eq_some_iff, foldlM_meet?_eq_some_iff]
  constructor
  · rintro ⟨last, ⟨hnames, ha, hm⟩, rfl⟩
    exact ⟨hnames, _, _, ha, hm, rfl⟩
  · rintro ⟨hnames, allocations, memory, ha, hm, rfl⟩
    exact ⟨⟨allocations, memory⟩, ⟨hnames, ha, hm⟩, rfl⟩

end Limits

end NativeCall
