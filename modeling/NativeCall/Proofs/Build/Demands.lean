import Mathlib.Data.List.Forall2
import NativeCall.Proofs.Format.Written

/-!
# What readings ask for

Reading a scalar is the one part of a build that looks at arguments, and a good deal has to be known
of it: which references it hands back, where it leaves the cursor and what it blames, and when it
comes to a null handle. All of this follows from one description of what a reading can do.

## The description

A scalar has a short list of needs (`Scalar.needs`): the argument that it is made of and, behind it,
perhaps a length. A reading meets them one after the other. These are all the ways in which it can
end, and the constructors of `Demands`:

* the arguments run out before the needs do, and the position behind the last one is blamed;
* an argument is of another type than what is asked for, and goes back to the caller with the
  reference that came with it;
* all needs are met, and the reading ends or fails as the arguments that met them tell.

In the last case `Demands` leaves open what it is that they tell. That is the parameter `Q`, so that
the same rules serve for every reading, also for one that takes numbers or texts and makes nothing
of them yet.

## The rules

They follow the code: one need at a time in front (`Demands.first`), and something behind that takes
no argument any more (`Demands.bind`). A sequence of two readings that both take arguments does not
occur outside of the first rule, and is therefore not among them; it would have to say what happens
if the first one fails with all of its needs met and those of the second not yet asked for.

Readings that several scalars share have a lemma each, under the name of the reading: `nextSize`,
`nextSigned`, `nextUnsigned`, `nextLength`, `designated`, `readBytes` and `readUnits`. The last two
differ in the type of an element and in nothing else, and are cases of `Demands.text`.

For scalars, `Q` is `Scalar.Outcome`, and `Scalar.demands_read` is the description. It is the only
place where the cases of `Scalar.read` are gone through. `Machine.step_cases` then says where the
reading of a scalar stands in a step of a build.
-/

namespace NativeCall

open Format

/-! ## Arguments and needs -/

namespace BuildArg

def isText : BuildArg → Bool
  | text _ => true
  | _ => false

def isWide : BuildArg → Bool
  | wide _ => true
  | _ => false

def isWord : BuildArg → Bool
  | int _ | uint _ => true
  | _ => false

/-- The length that an argument gives. -/
def length? : BuildArg → Option Int64
  | size n | int n => some n
  | _ => none

/-- How many elements there are in the buffer of an argument. -/
def available? : BuildArg → Option Nat
  | text buffer => buffer.map List.length
  | wide buffer => buffer.map List.length
  | _ => none

/-- The buffer of a text argument, which may be null. -/
def bytes? : BuildArg → Option (Option (List UInt8))
  | text buffer => some buffer
  | _ => none

def units? : BuildArg → Option (Option (List UInt32))
  | wide buffer => some buffer
  | _ => none

end BuildArg

namespace Format.Need

/-- Whether an argument is of a type that can be what is asked for. -/
def accepts : Need → BuildArg → Bool
  | value (.text _), arg | value (.bytes _), arg => arg.isText
  | value (.wide _), arg => arg.isWide
  | value .float, .float _ | value .borrowed, .borrowed _ | value .stolen, .stolen _
  | value .converted, .convert _ => true
  | value .int32, arg | value .int64, arg | value .uint32, arg | value .uint64, arg
  | value .byte, arg | value .codePoint, arg => arg.isWord
  | length, arg => arg.length?.isSome
  | _, _ => false

/-- The arguments meet the needs one by one. -/
abbrev Met (needs : List Need) (given : List BuildArg) : Prop :=
  List.Forall₂ (fun need arg => need.accepts arg = true) needs given

/-- References come only with the arguments of one kind of scalar. -/
lemma owned_of_accepts {need : Need} {arg : BuildArg} (hn : need ≠ value .stolen)
    (h : need.accepts arg = true) : arg.owned = [] := by
  cases arg with
  | stolen w =>
    cases need with
    | length => cases h
    | value x =>
      cases x with
      | stolen => exact absurd rfl hn
      | _ => cases h
  | _ => rfl

lemma owned_of_met {needs : List Need} {given : List BuildArg} (hn : value .stolen ∉ needs)
    (h : Met needs given) : given.flatMap BuildArg.owned = [] := by
  induction h with
  | nil => rfl
  | cons hacc _ ih =>
    rw [List.mem_cons, not_or] at hn
    rw [List.flatMap_cons, owned_of_accepts (Ne.symm hn.1) hacc, ih hn.2, List.nil_append]

lemma getElem?_of_met {needs : List Need} {given : List BuildArg} {i : Nat} {need : Need}
    (h : Met needs given) (hi : needs[i]? = some need) :
    ∃ arg, given[i]? = some arg ∧ need.accepts arg = true := by
  induction h generalizing i with
  | nil => simp at hi
  | cons hacc _ ih =>
    cases i with
    | zero =>
      obtain rfl := Option.some.inj hi
      exact ⟨_, rfl, hacc⟩
    | succ i => exact ih hi

end Format.Need

namespace Scalar

/-- What a scalar asks for, in order. -/
def needs (x : Scalar) : List Need :=
  .value x :: if x.isSized then [.length] else []

lemma length_needs (x : Scalar) : x.needs.length = x.argCount := by
  unfold needs argCount
  split <;> rfl

lemma stolen_not_mem_needs {x : Scalar} (hx : x ≠ .stolen) : .value .stolen ∉ x.needs := by
  unfold needs
  split <;> simp [hx.symm]

lemma length_of_met {x : Scalar} {given : List BuildArg} (h : Need.Met x.needs given) :
    given.length = x.argCount :=
  h.length_eq.symm.trans x.length_needs

lemma wants_iff {x : Scalar} {taken position : Nat} {need : Need} :
    Wants x taken position need ↔
      ∃ i, position = taken + i + 1 ∧ x.needs[i]? = some need := by
  unfold needs
  constructor
  · intro h
    cases h with
    | value => exact ⟨0, rfl, rfl⟩
    | length hs => exact ⟨1, rfl, by simp [hs]⟩
  · rintro ⟨_ | _ | i, rfl, h⟩
    · obtain rfl := Option.some.inj h
      exact .value
    · split at h
      case isTrue hs =>
        obtain rfl := Option.some.inj h
        exact .length hs
      case isFalse => cases h
    · split at h <;> cases h

lemma wants_of_needs {x : Scalar} (taken : Nat) {before later : List Need} {need : Need}
    (h : x.needs = before ++ need :: later) : Wants x taken (taken + before.length + 1) need :=
  wants_iff.mpr ⟨before.length, rfl, by simp [h]⟩

/-- What stands in front of another need comes with no reference. -/
lemma stolen_not_mem {x : Scalar} {before later : List Need} {need : Need}
    (h : x.needs = before ++ need :: later) : .value .stolen ∉ before := by
  cases before with
  | nil => exact List.not_mem_nil
  | cons first before =>
    obtain ⟨rfl, hrest⟩ := List.cons.inj h
    split at hrest
    case isFalse => simp at hrest
    case isTrue hs =>
      obtain ⟨rfl, -⟩ : before = [] ∧ _ := by simpa [List.cons_eq_append_iff] using hrest
      intro hmem
      obtain rfl := Need.value.inj (List.mem_singleton.mp hmem)
      cases hs

/-- Whether an argument is a null handle of the type that a scalar takes. -/
def isNull : Scalar → BuildArg → Bool
  | borrowed, .borrowed none | stolen, .stolen none | converted, .convert none => true
  | _, _ => false

end Scalar

/-! ## Readings -/

/-- What can come of a reading at a cursor that asks for `needs`, where `Q given` is what can come
of it if the needs are met by the arguments `given`. -/
inductive Demands {α : Type} (code : Char) (needs : List Need) (cursor : ArgCursor)
    (Q : List BuildArg → Except BuildError α → Prop) :
    EStateM.Result ReadError ArgCursor α → Prop where
  | ok {given : List BuildArg} {a : α} {cursor' : ArgCursor}
      (hargs : cursor.args = given ++ cursor'.args)
      (hpos : cursor'.position = cursor.position + given.length)
      (hmet : Need.Met needs given) (hq : Q given (.ok a)) :
      Demands code needs cursor Q (.ok a cursor')
  | failed {given : List BuildArg} {e : BuildError} {cursor' : ArgCursor}
      (hargs : cursor.args = given ++ cursor'.args)
      (hpos : cursor'.position = cursor.position + given.length)
      (hmet : Need.Met needs given) (hq : Q given (.error e)) :
      Demands code needs cursor Q (.error ⟨e, []⟩ cursor')
  | missing (before : List Need) {later : List Need} {need : Need} (cursor' : ArgCursor)
      (hneeds : needs = before ++ need :: later) (hargs : cursor'.args = [])
      (hpos : cursor'.position = cursor.position + cursor.args.length + 1)
      (hmet : Need.Met before cursor.args) :
      Demands code needs cursor Q
        (.error ⟨.call (.missingArg cursor'.position code), []⟩ cursor')
  | refused (before : List Need) {later : List Need} {need : Need} (given : List BuildArg)
      {arg : BuildArg} (cursor' : ArgCursor) (hneeds : needs = before ++ need :: later)
      (hargs : cursor.args = given ++ arg :: cursor'.args)
      (hpos : cursor'.position = cursor.position + given.length + 1)
      (hmet : Need.Met before given) (harg : need.accepts arg = false) :
      Demands code needs cursor Q
        (.error ⟨.call (.argMismatch cursor'.position code), arg.owned⟩ cursor')

namespace Demands

variable {α β : Type} {code : Char} {need : Need} {needs : List Need} {cursor : ArgCursor}
  {Q : List BuildArg → Except BuildError α → Prop}
  {Q' : List BuildArg → Except BuildError β → Prop}

lemma ret {a : α} (hq : Q [] (.ok a)) : Demands code [] cursor Q ((pure a : ArgReader α) cursor) :=
  ok rfl rfl .nil hq

lemma fail {e : BuildError} (hq : Q [] (.error e)) :
    Demands code [] cursor Q ((ArgCursor.fail e : ArgReader α) cursor) :=
  failed rfl rfl .nil hq

/-- A need that is met in front of others. -/
lemma cons {arg : BuildArg} {rest : List BuildArg} {position : Nat}
    {result : EStateM.Result ReadError ArgCursor α} (hacc : need.accepts arg = true)
    (h : Demands code needs ⟨rest, position + 1⟩ (fun given => Q (arg :: given)) result) :
    Demands code (need :: needs) ⟨arg :: rest, position⟩ Q result := by
  cases h with
  | ok hargs hpos hmet hq =>
    refine ok (congrArg (arg :: ·) hargs) ?_ (.cons hacc hmet) hq
    rw [hpos, List.length_cons, Nat.add_right_comm, Nat.add_assoc]
  | failed hargs hpos hmet hq =>
    refine failed (congrArg (arg :: ·) hargs) ?_ (.cons hacc hmet) hq
    rw [hpos, List.length_cons, Nat.add_right_comm, Nat.add_assoc]
  | missing before cursor' hneeds hargs hpos hmet =>
    refine missing (need :: before) cursor' (congrArg (need :: ·) hneeds) hargs ?_ (.cons hacc hmet)
    rw [hpos, List.length_cons, Nat.add_right_comm position, Nat.add_assoc position]
  | refused before given cursor' hneeds hargs hpos hmet harg =>
    refine refused (need :: before) (arg :: given) cursor' (congrArg (need :: ·) hneeds)
      (congrArg (arg :: ·) hargs) ?_ (.cons hacc hmet) harg
    rw [hpos, List.length_cons, Nat.add_right_comm position, Nat.add_assoc position]

/-- A reading that begins by asking for an argument. -/
lemma first {f : BuildArg → ArgReader α}
    (hgood : ∀ arg cursor', cursor'.position = cursor.position + 1 → need.accepts arg = true →
      Demands code needs cursor' (fun given => Q (arg :: given)) (f arg cursor'))
    (hbad : ∀ arg, need.accepts arg = false → f arg = ArgCursor.reject arg code) :
    Demands code (need :: needs) cursor Q ((ArgCursor.next code >>= f) cursor) := by
  -- The need in front is either missed for want of an argument, met, or refused.
  obtain ⟨_ | ⟨arg, rest⟩, position⟩ := cursor
  · have hnone : Need.Met [] (ArgCursor.mk [] position).args := .nil
    have hnext : ArgCursor.next code ⟨[], position⟩ =
        .error ⟨.call (.missingArg (position + 1) code), []⟩ ⟨[], position + 1⟩ := rfl
    rw [bind_stopped hnext]
    exact missing [] ⟨[], position + 1⟩ rfl rfl rfl hnone
  have hnext : ArgCursor.next code ⟨arg :: rest, position⟩ = .ok arg ⟨rest, position + 1⟩ := rfl
  rw [bind_ok hnext]
  cases hacc : need.accepts arg with
  | true => exact cons hacc (hgood arg _ rfl hacc)
  | false =>
    rw [hbad arg hacc]
    have hnone : Need.Met [] [] := .nil
    exact refused [] [] ⟨rest, position + 1⟩ rfl rfl rfl hnone hacc

/-- Behind a reading stands one that takes no argument. -/
lemma bind {x : ArgReader α} {f : α → ArgReader β} (hx : Demands code needs cursor Q (x cursor))
    (hf : ∀ given a cursor', cursor'.position = cursor.position + given.length → Q given (.ok a) →
      Demands code [] cursor' (fun _ => Q' given) (f a cursor'))
    (he : ∀ given e, Q given (.error e) → Q' given (.error e)) :
    Demands code needs cursor Q' ((x >>= f) cursor) := by
  -- If the first reading fails, for whatever reason, the second is not run, so the whole fails in
  -- the same way.
  generalize hrun : x cursor = result at hx
  cases hx with
  | missing before cursor' hneeds hargs hpos hmet =>
    rw [bind_stopped hrun]
    exact missing before cursor' hneeds hargs hpos hmet
  | refused before given cursor' hneeds hargs hpos hmet harg =>
    rw [bind_stopped hrun]
    exact refused before given cursor' hneeds hargs hpos hmet harg
  | failed hargs hpos hmet hq =>
    rw [bind_stopped hrun]
    exact failed hargs hpos hmet (he _ _ hq)
  | ok hargs hpos hmet hq =>
    rw [bind_ok hrun]
    -- Nothing is asked for any more, so all that is left to say is how the second reading ends.
    have hrest := hf _ _ _ hpos hq
    generalize f _ _ = result at hrest
    cases hrest with
    | missing before _ hneeds => simp at hneeds
    | refused before _ _ hneeds => simp at hneeds
    | ok hargs' hpos' hmet' hq' =>
      cases hmet'
      exact ok (hargs.trans (congrArg _ hargs')) (hpos'.trans hpos) hmet hq'
    | failed hargs' hpos' hmet' hq' =>
      cases hmet'
      exact failed (hargs.trans (congrArg _ hargs')) (hpos'.trans hpos) hmet hq'

end Demands

/-! ## Numbers and texts -/

/-- A length that goes beyond the text in front of it. -/
def TooLong (position : Nat) (given : List BuildArg) (e : BuildError) : Prop :=
  ∃ text length, ∃ n available : Nat, given = [text, length] ∧ text.available? = some available ∧
    length.length?.map Int64.toInt = some ↑n ∧ available < n ∧
    e = .call (.lengthOutOfRange (position + 2) n available)

namespace Demands

variable {α : Type} {code : Char} {need : Need} {cursor : ArgCursor}

lemma nextSize : Demands code [.length] cursor
    (fun given outcome => ∃ arg n, given = [arg] ∧ arg.length? = some n ∧ outcome = .ok n)
    (ArgCursor.nextSize code cursor) := by
  refine first (fun arg cursor' _ hacc => ?_) (fun arg hacc => ?_)
  · cases arg with
    | size n | int n => exact ret ⟨_, n, rfl, rfl, rfl⟩
    | _ => cases hacc
  · cases arg with
    | size n | int n => cases hacc
    | _ => rfl

lemma nextSigned (hword : ∀ arg, need.accepts arg = arg.isWord) : Demands code [need] cursor
    (fun _ outcome => ∃ i, outcome = .ok i) (ArgCursor.nextSigned code cursor) := by
  refine first (fun arg cursor' _ hacc => ?_) (fun arg hacc => ?_)
  all_goals rw [hword] at hacc
  · cases arg with
    | int i | uint i => exact ret ⟨_, rfl⟩
    | _ => cases hacc
  · cases arg with
    | int i | uint i => cases hacc
    | _ => rfl

lemma nextUnsigned (hword : ∀ arg, need.accepts arg = arg.isWord) : Demands code [need] cursor
    (fun _ outcome => ∃ u, outcome = .ok u) (ArgCursor.nextUnsigned code cursor) := by
  refine first (fun arg cursor' _ hacc => ?_) (fun arg hacc => ?_)
  all_goals rw [hword] at hacc
  · cases arg with
    | int i | uint i => exact ret ⟨_, rfl⟩
    | _ => cases hacc
  · cases arg with
    | int i | uint i => cases hacc
    | _ => rfl

lemma nextLength (sized : Bool) : Demands code (if sized then [.length] else []) cursor
    (fun given outcome => ∃ length, outcome = .ok length ∧
      ∀ n, length = some n → ∃ arg, given = [arg] ∧ arg.length? = some n)
    (ArgCursor.nextLength code sized cursor) := by
  cases sized with
  | false => exact ret ⟨none, rfl, by simp⟩
  | true =>
    refine bind nextSize (fun given n cursor' _ hn => ret ?_) (fun given e he => ?_)
    · obtain ⟨arg, _, rfl, hlength, hok⟩ := hn
      obtain rfl := Except.ok.inj hok
      exact ⟨some n, rfl, fun _ h => ⟨arg, rfl, h ▸ hlength⟩⟩
    · obtain ⟨_, _, _, _, hok⟩ := he
      cases hok

lemma designated [DecidableEq α] {zero : α} {buffer : List α} {length : Option Int64}
    {Q : Except BuildError (List α) → Prop} (hok : ∀ data, Q (.ok data))
    (hlong : ∀ n : Nat, length.map Int64.toInt = some ↑n → buffer.length < n →
      Q (.error (.call (.lengthOutOfRange cursor.position n buffer.length)))) :
    Demands code [] cursor (fun _ => Q) (ArgCursor.designated zero buffer length cursor) := by
  unfold ArgCursor.designated
  cases hn : length.filter (0 ≤ ·) with
  | none => exact ret (hok _)
  | some n =>
    obtain ⟨rfl, hpos⟩ := Option.filter_eq_some_iff.mp hn
    have hnat : n.toInt = n.toInt.toNat := by
      have hnonneg : (0 : Int) ≤ n.toInt := by simpa [Int64.le_iff_toInt_le] using hpos
      omega
    by_cases hlen : n.toInt.toNat ≤ buffer.length
    · simp only [if_pos hlen]
      exact ret (hok _)
    · simp only [if_neg hlen]
      exact fail (hlong _ (congrArg some hnat) (by omega))

/-- A text: an argument of its own type, perhaps with a length behind it. Both readings of texts are
of this form. -/
lemma text [DecidableEq α] (zero : α) {sized : Bool}
    (buffer? : BuildArg → Option (Option (List α))) {f : BuildArg → ArgReader (Option (List α))}
    (htype : ∀ arg, need.accepts arg = (buffer? arg).isSome)
    (havailable : ∀ arg data, buffer? arg = some (some data) → arg.available? = some data.length)
    (hgood : ∀ arg buffer, buffer? arg = some buffer →
      f arg = ArgCursor.nextLength code sized >>= fun length =>
        match buffer with
        | none => return none
        | some data => some <$> ArgCursor.designated zero data length)
    (hbad : ∀ arg, buffer? arg = none → f arg = ArgCursor.reject arg code) :
    Demands code (need :: if sized then [.length] else []) cursor
      (fun given outcome => ∀ e, outcome = .error e → TooLong cursor.position given e)
      ((ArgCursor.next code >>= f) cursor) := by
  refine first (fun arg cursor' hpos hacc => ?_) (fun arg hacc => ?_)
  · rw [htype] at hacc
    obtain ⟨buffer, hbuffer⟩ := Option.isSome_iff_exists.mp hacc
    rw [hgood arg buffer hbuffer]
    refine bind (nextLength sized) (fun given length cursor'' hpos' hlength => ?_)
      (fun given e he => ?_)
    · obtain ⟨length, hok, hlength⟩ := hlength
      obtain rfl := Except.ok.inj hok
      cases buffer with
      | none => exact ret (by simp)
      | some data =>
        -- The only failure is a length that goes beyond the text, and it names the position of the
        -- length: two behind the beginning.
        have hpart : Demands code [] cursor'' (fun _ outcome => ∀ e, outcome = .error e →
            TooLong cursor.position (arg :: given) e)
            (ArgCursor.designated zero data length cursor'') := by
          refine designated (by simp) (fun n hn hlt => ?_)
          rintro _ ⟨⟩
          obtain ⟨m, hm, hn⟩ := Option.map_eq_some_iff.mp hn
          obtain ⟨size, rfl, hsize⟩ := hlength m hm
          refine ⟨arg, size, n, data.length, rfl, havailable arg data hbuffer, ?_, hlt, ?_⟩
          · rw [hsize, ← hn, Option.map_some]
          · rw [hpos', hpos]
            rfl
        refine hpart.bind (fun _ _ _ _ _ => ret (by simp)) (fun _ e he => ?_)
        rintro _ ⟨⟩
        exact he e rfl
    · obtain ⟨_, hok, _⟩ := he
      cases hok
  · rw [htype] at hacc
    exact hbad arg (by simpa using hacc)

lemma readBytes {sized : Bool} (htext : ∀ arg, need.accepts arg = arg.isText) :
    Demands code (need :: if sized then [.length] else []) cursor
      (fun given outcome => ∀ e, outcome = .error e → TooLong cursor.position given e)
      (Scalar.readBytes code sized cursor) := by
  refine text 0 BuildArg.bytes? (fun arg => ?_) (fun arg data h => ?_) (fun arg buffer h => ?_)
    (fun arg h => ?_)
  · rw [htext]
    cases arg <;> rfl
  · cases arg <;> cases h
    rfl
  · cases arg <;> cases h
    cases buffer <;> rfl
  · cases arg with
    | text => cases h
    | _ => rfl

lemma readUnits {sized : Bool} (hwide : ∀ arg, need.accepts arg = arg.isWide) :
    Demands code (need :: if sized then [.length] else []) cursor
      (fun given outcome => ∀ e, outcome = .error e → TooLong cursor.position given e)
      (Scalar.readUnits code sized cursor) := by
  refine text 0 BuildArg.units? (fun arg => ?_) (fun arg data h => ?_) (fun arg buffer h => ?_)
    (fun arg h => ?_)
  · rw [hwide]
    cases arg <;> rfl
  · cases arg <;> cases h
    rfl
  · cases arg <;> cases h
    cases buffer <;> rfl
  · cases arg with
    | wide => cases h
    | _ => rfl

end Demands

/-! ## Scalars -/

/-- What comes of a scalar that was given its arguments behind the first `position` ones. An object
is passed on or missing, a text may be too short or no text, and all else is made anew. -/
inductive Scalar.Outcome (x : Scalar) (position : Nat) :
    List BuildArg → Except BuildError Product → Prop where
  | none {given : List BuildArg} (hx : x ≠ .stolen) : Outcome x position given (.ok .none)
  | fresh {given : List BuildArg} {o : Object} (hx : x ≠ .stolen) (ho : o.children = []) :
      Outcome x position given (.ok (.fresh o))
  | retained {r : Ref} (hx : x = .borrowed) :
      Outcome x position [.borrowed (some r)] (.ok (.retained r))
  | taken {r : Ref} : Outcome x position [.stolen (some r)] (.ok (.taken r))
  | converted {a : Conversion} : Outcome x position [.convert (some a)] (.ok (.converted a))
  | null {arg : BuildArg} (hnull : x.isNull arg = true) : Outcome x position [arg] (.ok .null)
  | raised {given : List BuildArg} {e : RunError} (hx : x ≠ .stolen) :
      Outcome x position given (.error (.raised e))
  | tooLong {given : List BuildArg} {e : BuildError} (hx : x ≠ .stolen)
      (h : TooLong position given e) : Outcome x position given (.error e)

namespace Scalar

variable {code : Char} {x : Scalar} {cursor : ArgCursor} {α : Type}

/-- What is made of a text or a number that was read. -/
lemma demands_made {needs : List Need} {y : ArgReader α} {f : α → ArgReader Product}
    {Q : List BuildArg → Except BuildError α → Prop} (hx : x ≠ .stolen)
    (hy : Demands code needs cursor Q (y cursor))
    (hlong : ∀ given e, Q given (.error e) → TooLong cursor.position given e)
    (hf : ∀ a, (∃ p, f a = pure p ∧ (p = .none ∨ ∃ o, p = .fresh o ∧ o.children = [])) ∨
      ∃ e, f a = ArgCursor.fail (.raised e)) :
    Demands code needs cursor (x.Outcome cursor.position) ((y >>= f) cursor) := by
  refine hy.bind (fun given a cursor' _ _ => ?_) (fun given e he => .tooLong hx (hlong given e he))
  rcases hf a with ⟨p, hp, rfl | ⟨o, rfl, ho⟩⟩ | ⟨e, he⟩
  · rw [hp]
    exact .ret (.none hx)
  · rw [hp]
    exact .ret (.fresh hx ho)
  · rw [he]
    exact .fail (.raised hx)

/-- What is made of a word in one step. -/
lemma demands_word {needs : List Need} {y : ArgReader α} {f : α → Object} (hx : x ≠ .stolen)
    (hy : Demands code needs cursor (fun _ outcome => ∃ a, outcome = .ok a) (y cursor))
    (hf : ∀ a, (f a).children = []) :
    Demands code needs cursor (x.Outcome cursor.position)
      ((y >>= fun a => pure (.fresh (f a))) cursor) := by
  refine demands_made hx hy ?_ (fun a => .inl ⟨_, rfl, .inr ⟨_, rfl, hf a⟩⟩)
  rintro given e ⟨a, ha⟩
  cases ha

/-- **What reading a scalar can do.** -/
theorem demands_read (code : Char) (x : Scalar) (cursor : ArgCursor) :
    Demands code x.needs cursor (x.Outcome cursor.position) (x.read code cursor) := by
  cases x with
  | text sized =>
    refine demands_made (by simp) (Demands.readBytes fun _ => rfl) (fun given e he => he e rfl)
      (fun data => ?_)
    cases data with
    | none => exact .inl ⟨_, rfl, .inl rfl⟩
    | some data =>
      cases hd : Utf8.decode data with
      | ok s => exact .inl ⟨.fresh (.str s), by simp [hd], .inr ⟨_, rfl, rfl⟩⟩
      | error e => exact .inr ⟨e.toRunError, by simp [hd]⟩
  | bytes sized =>
    refine demands_made (by simp) (Demands.readBytes fun _ => rfl) (fun given e he => he e rfl)
      (fun data => ?_)
    cases data with
    | none => exact .inl ⟨_, rfl, .inl rfl⟩
    | some data => exact .inl ⟨_, rfl, .inr ⟨_, rfl, rfl⟩⟩
  | wide sized =>
    refine demands_made (by simp) (Demands.readUnits fun _ => rfl) (fun given e he => he e rfl)
      (fun units => ?_)
    cases units with
    | none => exact .inl ⟨_, rfl, .inl rfl⟩
    | some units =>
      cases ht : textOfUnits units with
      | ok s => exact .inl ⟨.fresh (.str s), by simp [ht], .inr ⟨_, rfl, rfl⟩⟩
      | error e => exact .inr ⟨e, by simp [ht]⟩
  | int32 => exact demands_word (by simp) (.nextSigned fun _ => rfl) (fun _ => rfl)
  | int64 => exact demands_word (by simp) (.nextSigned fun _ => rfl) (fun _ => rfl)
  | byte => exact demands_word (by simp) (.nextSigned fun _ => rfl) (fun _ => rfl)
  | uint32 => exact demands_word (by simp) (.nextUnsigned fun _ => rfl) (fun _ => rfl)
  | uint64 =>
    refine demands_word (by simp) (.nextUnsigned fun _ => rfl) (fun u => ?_)
    rw [Object.ofUInt64]
    split <;> rfl
  | codePoint =>
    refine demands_made (by simp) (.nextSigned fun _ => rfl) ?_ (fun i => ?_)
    · rintro given e ⟨i, hi⟩
      cases hi
    · split
      · exact .inl ⟨_, rfl, .inr ⟨_, rfl, rfl⟩⟩
      · exact .inr ⟨_, rfl⟩
  | float =>
    refine .first (fun arg cursor' _ hacc => ?_) (fun arg hacc => ?_)
    · cases arg with
      | float v => exact .ret (.fresh (by simp) rfl)
      | _ => cases hacc
    · cases arg with
      | float v => cases hacc
      | _ => rfl
  | borrowed =>
    refine .first (fun arg cursor' _ hacc => ?_) (fun arg hacc => ?_)
    · cases arg with
      | borrowed w =>
        cases w with
        | none => exact .ret (.null rfl)
        | some r => exact .ret (.retained rfl)
      | _ => cases hacc
    · cases arg with
      | borrowed w => cases hacc
      | _ => rfl
  | stolen =>
    refine .first (fun arg cursor' _ hacc => ?_) (fun arg hacc => ?_)
    · cases arg with
      | stolen w =>
        cases w with
        | none => exact .ret (.null rfl)
        | some r => exact .ret .taken
      | _ => cases hacc
    · cases arg with
      | stolen w => cases hacc
      | _ => rfl
  | converted =>
    refine .first (fun arg cursor' _ hacc => ?_) (fun arg hacc => ?_)
    · cases arg with
      | convert action =>
        cases action with
        | none => exact .ret (.null rfl)
        | some a => exact .ret .converted
      | _ => cases hacc
    · cases arg with
      | convert action => cases hacc
      | _ => rfl

end Scalar

/-! ## Steps -/

namespace Machine

variable {m m' : Machine} {c c' : Context}

/-- What a step can do: a bracket leaves the cursor where it is and tells of no argument, and a
scalar fails to read its arguments or makes something of them. -/
lemma step_cases {st : Step} {outcome : Except BuildError Unit}
    (h : m.step st c = .ok (m', outcome) c') :
    ((∀ x, st.directive ≠ .scalar x) ∧ argsOf [st] = 0 ∧ m'.cursor = m.cursor ∧
      ∀ fault, outcome ≠ .error (.call fault)) ∨
    ∃ x, st.directive = .scalar x ∧
      ((∃ e, x.read st.code m.cursor = .error e m'.cursor ∧ outcome = .error e.error) ∨
        ∃ p made, x.read st.code m.cursor = .ok p m'.cursor ∧
          (make st.code m'.cursor.position p).run c = .ok made c' ∧
          outcome = made.map (fun _ => ())) := by
  obtain ⟨code, d⟩ := st
  cases d with
  | opening kind =>
    cases h
    exact .inl ⟨by simp, rfl, rfl, by simp⟩
  | closing kind =>
    refine .inl ⟨by simp, rfl, ?_⟩
    cases hg : m.groups with
    | nil =>
      simp only [step, hg] at h
      cases h
      exact ⟨rfl, by simp⟩
    | cons items outer =>
      simp only [step, hg] at h
      obtain ⟨closed, c₁, -, h⟩ := bind_inv h
      cases closed with
      | error e =>
        cases h
        exact ⟨rfl, by simp⟩
      | ok r =>
        cases h
        exact ⟨cursor_push _ r, by simp⟩
  | scalar x =>
    refine .inr ⟨x, rfl, ?_⟩
    simp only [step] at h
    cases hread : x.read code m.cursor with
    | error e cursor =>
      rw [hread] at h
      obtain ⟨-, c₁, -, h⟩ := bind_inv h
      cases h
      exact .inl ⟨e, rfl, rfl⟩
    | ok p cursor =>
      rw [hread] at h
      obtain ⟨made, c₁, hmake, h⟩ := bind_inv h
      cases made with
      | error e =>
        cases h
        exact .inr ⟨p, .error e, rfl, hmake, rfl⟩
      | ok r =>
        cases h
        refine .inr ⟨p, .ok r, ?_, ?_, rfl⟩
        · rw [cursor_push]
        · rwa [cursor_push]

end Machine

end NativeCall
