import NativeCall.Proofs.Build.Demands
import NativeCall.Proofs.Build.Simulation

/-!
# Positions of arguments

Reading a format string counts the arguments that its directives ask for, and a build moves a
cursor over the arguments that it is given. The two counts are kept by different code, at different
times, and nothing compares them while a build runs. They agree at every step: after the steps of a
beginning of the format, the cursor stands behind as many arguments as these steps ask for
(`taken_exec`). A scalar that takes a length moves it by two, also where the text is null and the
length is not used, and brackets do not move it.

So the step that a build stops at is the one that asked for the argument on which it stopped, and
the position in the error is the position of this argument (`exec_blames`).

## What has to be said of a fault

A fault carries numbers and a character, but no step. `Blames` says what these are if the fault
comes from a scalar that asks for arguments behind the first `taken` ones. It speaks of all
arguments of the build and not of those that are left, so that it means the same at every step; and
of the heap at the step, since an argument may also be turned down because the object that it refers
to is not alive. That a reading blames accordingly follows from the description of readings
(`Scalar.demands_read`), whose positions are relative to a cursor, by taking for the cursor the one
behind the first `taken` arguments (`ArgCursor.after`).

The main statement, `build_accounts_arguments`, has one part for each fault, besides the one that
every argument that a format takes is asked for by one character, and the one for builds that
succeed. Each part is a lemma of its own; they share that a build ends at a step that failed, with
arguments left over, or behind its last step (`build_cases`).
-/

namespace NativeCall

open Format Heap

/-! ## Arguments and what is asked for -/

/-- The cursor behind the first arguments. -/
def ArgCursor.after (args : List BuildArg) (taken : Nat) : ArgCursor :=
  ⟨args.drop taken, taken⟩

namespace Format.Need

/-- Whether an argument is turned down: it is of another type, or refers to an object that is not
alive. -/
def Rejects (heap : Heap) (need : Need) (arg : BuildArg) : Prop :=
  need.accepts arg = false ∨
    ∃ r, need = value .borrowed ∧ arg = .borrowed (some r) ∧ heap.isLive r = false

end Format.Need

/-- What a fault says is true of the arguments, if the scalar `x` is written by `code` and asks for
arguments behind the first `taken` ones. -/
def Blames (args : List BuildArg) (taken : Nat) (code : Char) (x : Scalar) (heap : Heap) :
    CallFault → Prop
  | .nullObject => True
  | .missingArg position code' =>
    code' = code ∧ position = args.length + 1 ∧ ∃ need, Wants x taken position need
  | .argMismatch position code' =>
    code' = code ∧ ∃ need arg, Wants x taken position need ∧ args[position - 1]? = some arg ∧
      need.Rejects heap arg
  | .lengthOutOfRange position n available =>
    Wants x taken position .length ∧ available < n ∧
      (∃ arg, args[position - 1]? = some arg ∧ arg.length?.map Int64.toInt = some ↑n) ∧
      ∃ arg, args[position - 2]? = some arg ∧ arg.available? = some available
  | .extraArgs _ => False

/-- Every argument that a scalar wants is there, and of a type that can be what it wants. -/
def Supplied (args : List BuildArg) (taken : Nat) (x : Scalar) : Prop :=
  ∀ position need, Wants x taken position need →
    ∃ arg, args[position - 1]? = some arg ∧ need.accepts arg = true

/-- A product is a new reference to an object only if the argument is a reference to it. -/
def Product.Borrows (args : List BuildArg) (taken : Nat) (x : Scalar) (p : Product) : Prop :=
  ∀ r, p = .retained r → x = .borrowed ∧ args[taken]? = some (.borrowed (some r))

/-! ## Readings -/

namespace Scalar

variable {args given rest : List BuildArg} {taken : Nat} {code : Char} {x : Scalar}
  {cursor : ArgCursor}

/-- What is taken behind the first arguments stands in the list at its position. -/
lemma getElem?_of_drop {i : Nat} (h : args.drop taken = given ++ rest) (hi : i < given.length) :
    args[taken + i]? = given[i]? := by
  rw [← List.getElem?_drop, h, List.getElem?_append_left hi]

lemma read_ok {p : Product} (ht : taken ≤ args.length)
    (h : x.read code (.after args taken) = .ok p cursor) :
    cursor = .after args (taken + x.argCount) ∧ taken + x.argCount ≤ args.length ∧
      p.Borrows args taken x ∧ Supplied args taken x := by
  have hread := demands_read code x (.after args taken)
  rw [h] at hread
  cases hread with
  -- The cursor is behind all that was given, and each need was met by the argument at its place.
  | @ok given _ _ hargs hpos hmet hq =>
    have hargs : args.drop taken = given ++ cursor.args := hargs
    have hcount : given.length = x.argCount := length_of_met hmet
    have hlength := congrArg List.length hargs
    rw [List.length_drop, List.length_append] at hlength
    refine ⟨?_, by omega, ?_, ?_⟩
    · obtain ⟨left, position⟩ := cursor
      have hleft : args.drop (taken + x.argCount) = left := by
        rw [← List.drop_drop, hargs, ← hcount, List.drop_left]
      have hposition : position = taken + x.argCount := hcount ▸ hpos
      rw [ArgCursor.after, hleft, hposition]
    · rintro r rfl
      cases hq with
      | retained hx => exact ⟨hx, getElem?_of_drop (i := 0) hargs Nat.one_pos⟩
    · intro position need hw
      obtain ⟨i, rfl, hneed⟩ := wants_iff.mp hw
      obtain ⟨arg, harg, hacc⟩ := Need.getElem?_of_met hmet hneed
      have hi : i < given.length := (List.getElem?_eq_some_iff.mp harg).1
      exact ⟨arg, (getElem?_of_drop hargs hi).trans harg, hacc⟩

lemma read_error {e : ReadError} {fault : CallFault} (heap : Heap) (ht : taken ≤ args.length)
    (h : x.read code (.after args taken) = .error e cursor) (hfault : e.error = .call fault) :
    Blames args taken code x heap fault := by
  have hread := demands_read code x (.after args taken)
  rw [h] at hread
  cases hread with
  | @failed given _ _ hargs hpos hmet hq =>
    cases hq with
    | raised => cases hfault
    | tooLong hx hlong =>
      obtain ⟨text, length, n, available, rfl, ha, hn, hlt, rfl⟩ := hlong
      obtain rfl := BuildError.call.inj hfault
      have hsized : x.isSized = true := by
        have hcount := length_of_met hmet
        unfold argCount at hcount
        split at hcount
        case isTrue hs => exact hs
        case isFalse => simp at hcount
      have htext := getElem?_of_drop (i := 0) hargs (by simp)
      have hlength := getElem?_of_drop (i := 1) hargs (by simp)
      exact ⟨.length hsized, hlt, ⟨length, hlength, hn⟩, text, htext, ha⟩
  | missing before _ hneeds hargs hpos hmet =>
    obtain rfl := BuildError.call.inj hfault
    have hcount : before.length = args.length - taken := hmet.length_eq.trans List.length_drop
    have hwants := wants_of_needs taken hneeds
    have hlast : cursor.position = taken + before.length + 1 := by
      rw [hmet.length_eq]
      exact hpos
    rw [← hlast] at hwants
    exact ⟨rfl, by omega, _, hwants⟩
  | refused before given _ hneeds hargs hpos hmet harg =>
    obtain rfl := BuildError.call.inj hfault
    have hdrop : args.drop taken = given ++ _ :: cursor.args := hargs
    have hwants := wants_of_needs taken hneeds
    have hlast : cursor.position = taken + before.length + 1 := by
      rw [hmet.length_eq]
      exact hpos
    rw [← hlast] at hwants
    refine ⟨rfl, _, _, hwants, ?_, .inl harg⟩
    rw [hlast, hmet.length_eq, Nat.add_sub_cancel, ← List.getElem?_drop, hdrop]
    simp

end Scalar

/-! ## Steps -/

namespace Machine

variable {args : List BuildArg} {m m' : Machine} {c c' : Context} {k : Nat} {fault : CallFault}

lemma fault_of_nullObject (h : nullObject.run c = .ok (.error (.call fault)) c') :
    fault = .nullObject := by
  unfold nullObject at h
  obtain ⟨pending, c₁, -, h⟩ := run_lift_bind_inv (x := Context.takeError) h
  cases pending with
  | none =>
    cases h
    rfl
  | some e => cases h

/-- An adapted error is never a fault of the arguments. -/
lemma not_fault_of_adapt {x : ExceptT RunError ContextM Ref} :
    (ExceptT.adapt BuildError.raised x).run c ≠ .ok (.error (.call fault)) c' := by
  intro h
  have hmap : EStateM.map (Except.mapError BuildError.raised) x.run c =
      .ok (.error (.call fault)) c' := h
  unfold EStateM.map at hmap
  split at hmap
  case h_1 outcome c₁ _ =>
    cases outcome <;> simp [Except.mapError] at hmap
  case h_2 => simp at hmap

/-- If making tells of an argument, it is a null handle or a reference to an object that is not
alive. -/
lemma fault_of_make {code : Char} {position : Nat} {p : Product}
    (h : (make code position p).run c = .ok (.error (.call fault)) c') :
    p = .null ∧ fault = .nullObject ∨
      ∃ r, p = .retained r ∧ c.heap.isLive r = false ∧ fault = .argMismatch position code := by
  cases p with
  | none => cases h
  | fresh o => exact absurd h not_fault_of_adapt
  | retained r =>
    have hmake : (if c.heap.isLive r then ExceptT.lift (Context.onHeap (retain r))
        else throw (.call (.argMismatch position code)) : ExceptT BuildError ContextM Ref).run c =
          .ok (.error (.call fault)) c' := h
    -- Only a reference to an object that is not alive is turned down after it was read.
    split at hmake
    case isTrue =>
      obtain ⟨r', c₁, -, hlift⟩ := bind_inv (x := Context.onHeap (retain r)) hmake
      cases hlift
    case isFalse hdead =>
      cases hmake
      exact .inr ⟨r, rfl, by simpa using hdead, rfl⟩
  | taken r => cases h
  | converted action => exact absurd h not_fault_of_adapt
  | null => exact .inl ⟨rfl, fault_of_nullObject h⟩

/-- A step moves the cursor by as many arguments as reading has counted for it. -/
lemma taken_step {st : Step} (hm : m.cursor = .after args k) (hk : k ≤ args.length)
    (h : m.step st c = .ok (m', .ok ()) c') :
    m'.cursor = .after args (k + argsOf [st]) ∧ k + argsOf [st] ≤ args.length ∧
      ∀ x, st.directive = .scalar x → Supplied args k x := by
  rcases step_cases h with
    ⟨hnone, hzero, hcursor, -⟩ | ⟨x, hx, ⟨e, -, he⟩ | ⟨p, made, hread, -, -⟩⟩
  · rw [hzero, hcursor]
    exact ⟨hm, hk, fun x hx => absurd hx (hnone x)⟩
  · cases he
  · rw [hm] at hread
    obtain ⟨hcursor, hk', -, hsupplied⟩ := Scalar.read_ok hk hread
    obtain ⟨code, d⟩ := st
    obtain rfl : d = .scalar x := hx
    rw [Draft.argsOf_scalar]
    refine ⟨hcursor, hk', ?_⟩
    rintro _ ⟨⟩
    exact hsupplied

/-- A step that stops a build at a fault of the arguments is a scalar, and the fault is one of the
arguments that it asks for. -/
lemma step_blames {st : Step} (hm : m.cursor = .after args k) (hk : k ≤ args.length)
    (h : m.step st c = .ok (m', .error (.call fault)) c') :
    ∃ x, st.directive = .scalar x ∧ Blames args k st.code x c.heap fault := by
  rcases step_cases h with
    ⟨-, -, -, hnot⟩ | ⟨x, hx, ⟨e, hread, he⟩ | ⟨p, made, hread, hmake, hmade⟩⟩
  · exact absurd rfl (hnot fault)
  · rw [hm] at hread
    exact ⟨x, hx, Scalar.read_error c.heap hk hread (Except.error.inj he).symm⟩
  · rw [hm] at hread
    obtain ⟨hcursor, -, hborrows, -⟩ := Scalar.read_ok hk hread
    cases made with
    | ok r => cases hmade
    | error e =>
      obtain rfl : .call fault = e := Except.error.inj hmade
      refine ⟨x, hx, ?_⟩
      rcases fault_of_make hmake with ⟨-, rfl⟩ | ⟨r, rfl, hdead, rfl⟩
      · trivial
      · obtain ⟨rfl, harg⟩ := hborrows r rfl
        rw [hcursor]
        exact ⟨rfl, _, _, .value, harg, .inr ⟨r, rfl, rfl, hdead⟩⟩

/-! ## Runs -/

/-- Runs move the cursor by as many arguments as reading has counted for their steps. -/
lemma taken_exec {steps : List Step} (hm : m.cursor = .after args k) (hk : k ≤ args.length)
    (h : m.exec steps c = .ok (m', .ok ()) c') :
    m'.cursor = .after args (k + argsOf steps) ∧ k + argsOf steps ≤ args.length ∧
      ∀ done code x rest, steps = done ++ ⟨code, .scalar x⟩ :: rest →
        Supplied args (k + argsOf done) x := by
  induction steps generalizing m c k with
  | nil =>
    cases h
    exact ⟨hm, hk, by simp⟩
  -- A scalar among the steps is the first one, or one of those for which the count starts later.
  | cons st steps ih =>
    rw [exec] at h
    obtain ⟨⟨m₁, outcome⟩, c₁, hstep, h⟩ := bind_inv h
    cases outcome with
    | error e => cases h
    | ok _ =>
      obtain ⟨hm₁, hk₁, hfirst⟩ := taken_step hm hk hstep
      obtain ⟨hm', hk', hrest⟩ := ih hm₁ hk₁ h
      rw [← List.singleton_append, Draft.argsOf_append, ← Nat.add_assoc]
      refine ⟨hm', hk', fun done code x rest hsplit => ?_⟩
      cases done with
      | nil =>
        obtain ⟨rfl, -⟩ := List.cons.inj hsplit
        exact hfirst x rfl
      | cons st' done =>
        obtain ⟨rfl, htail⟩ := List.cons.inj hsplit
        have hlater := hrest done code x rest htail
        rwa [Nat.add_assoc, ← Draft.argsOf_append] at hlater

lemma taken_of_start {steps : List Step} (h : (start args).exec steps c = .ok (m, .ok ()) c') :
    m.cursor = .after args (argsOf steps) ∧ argsOf steps ≤ args.length ∧
      ∀ done code x rest, steps = done ++ ⟨code, .scalar x⟩ :: rest →
        Supplied args (argsOf done) x := by
  have htaken := taken_exec (k := 0) rfl (Nat.zero_le _) h
  simpa only [Nat.zero_add] using htaken

/-- A run that failed has stopped at one of its steps. -/
lemma exists_failed_step {steps : List Step} {e : BuildError}
    (h : m.exec steps c = .ok (m', .error e) c') :
    ∃ done st rest m₁ c₁, steps = done ++ st :: rest ∧ m.exec done c = .ok (m₁, .ok ()) c₁ ∧
      m₁.step st c₁ = .ok (m', .error e) c' := by
  induction steps generalizing m c with
  | nil => cases h
  | cons st steps ih =>
    rw [exec] at h
    obtain ⟨⟨m₁, outcome⟩, c₁, hstep, h⟩ := bind_inv h
    cases outcome with
    | error e' =>
      cases h
      exact ⟨[], st, steps, m, c, rfl, rfl, hstep⟩
    | ok _ =>
      obtain ⟨done, st', rest, m₂, c₂, rfl, hdone, hfail⟩ := ih h
      refine ⟨st :: done, st', rest, m₂, c₂, rfl, ?_, hfail⟩
      rw [exec_cons_ok hstep, hdone]

/-- A fault of the arguments stops a run at a scalar, and is one of the arguments that this scalar
asks for behind those that the steps before it have taken. -/
lemma exec_blames {steps : List Step}
    (h : (start args).exec steps c = .ok (m, .error (.call fault)) c') :
    ∃ done code x rest m₁ c₁, steps = done ++ ⟨code, .scalar x⟩ :: rest ∧
      (start args).exec done c = .ok (m₁, .ok ()) c₁ ∧
      Blames args (argsOf done) code x c₁.heap fault := by
  obtain ⟨done, ⟨code, d⟩, rest, m₁, c₁, hsteps, hdone, hfail⟩ := exists_failed_step h
  obtain ⟨hm₁, hk₁, -⟩ := taken_of_start hdone
  obtain ⟨x, hx, hblames⟩ := step_blames hm₁ hk₁ hfail
  obtain rfl : d = .scalar x := hx
  exact ⟨done, code, x, rest, m₁, c₁, hsteps, hdone, hblames⟩

end Machine

/-! ## Builds -/

namespace Format

variable {source : String} {f : Format} {args : List BuildArg} {c c' : Context}
  {outcome : Except BuildError Ref} {fault : CallFault}

/-- How a build ends: at a step that failed, with arguments left over, or with the value of the
items outside all groups. -/
lemma build_cases (h : (f.build args).run c = .ok outcome c') :
    ∃ m ran c₁, (Machine.start args).exec f.steps c = .ok (m, ran) c₁ ∧
      ((∃ e, ran = .error e ∧ outcome = .error e) ∨
        (ran = .ok () ∧ m.cursor.args ≠ [] ∧
          outcome = .error (.call (.extraArgs m.cursor.args.length))) ∨
        (ran = .ok () ∧ m.cursor.args = [] ∧ ∃ made c₂,
          Context.attempt (Machine.result m.bottom.reverse) c₁ = .ok made c₂ ∧
          outcome = made.mapError .raised)) := by
  obtain ⟨built, c₀, hrun, h⟩ := bind_inv (x := (f.run args).run) h
  obtain ⟨-, c₁, -, h⟩ := bind_inv h
  cases h
  obtain ⟨⟨m, ran⟩, c₁, hexec, hrun⟩ := bind_inv (x := (Machine.start args).exec f.steps) hrun
  refine ⟨m, ran, c₁, hexec, ?_⟩
  obtain ⟨⟨left, position⟩, bottom, groups⟩ := m
  cases ran with
  | error e =>
    obtain ⟨-, c₂, -, hrun⟩ := bind_inv hrun
    cases hrun
    exact .inl ⟨e, rfl, rfl⟩
  | ok _ =>
    cases left with
    | cons arg left =>
      obtain ⟨-, c₂, -, hrun⟩ := bind_inv hrun
      cases hrun
      exact .inr (.inl ⟨rfl, by simp, rfl⟩)
    | nil =>
      obtain ⟨made, c₂, hmade, hrun⟩ := bind_inv hrun
      cases hrun
      exact .inr (.inr ⟨rfl, rfl, made, _, hmade, rfl⟩)

/-- What a scalar among the steps asks for is asked for in the text. -/
lemma asks_of_step (h : compile source = .ok f) {done rest : List Step} {code : Char} {x : Scalar}
    (hsteps : f.steps = done ++ ⟨code, .scalar x⟩ :: rest) {position : Nat} {need : Need}
    (hw : Wants x (argsOf done) position need) :
    Asks source.toList position code need ∧ 0 < position ∧ position ≤ f.argCount := by
  obtain ⟨hlt, hle⟩ := hw.bounds
  refine ⟨⟨_, x, (writes_iff h).mpr ⟨done, rest, hsteps, rfl⟩, hw⟩, by omega, ?_⟩
  rw [argCount_eq_argsOf h, hsteps, Draft.argsOf_append, ← List.singleton_append,
    Draft.argsOf_append, Draft.argsOf_scalar]
  omega

/-- When a build comes to the argument at `position`, the object that it refers to is not alive. -/
def FindsDead (f : Format) (args : List BuildArg) (c : Context) (position : Nat) (r : Ref) : Prop :=
  ∃ done code rest m c', f.steps = done ++ ⟨code, .scalar .borrowed⟩ :: rest ∧
    position = argsOf done + 1 ∧ (Machine.start args).exec done c = .ok (m, .ok ()) c' ∧
    c'.heap.isLive r = false

/-- A fault that is not about arguments left over comes from a step. -/
lemma blames_of_build (hb : (f.build args).run c = .ok (.error (.call fault)) c')
    (hextra : ∀ count, fault ≠ .extraArgs count) :
    ∃ done code x rest m c₁, f.steps = done ++ ⟨code, .scalar x⟩ :: rest ∧
      (Machine.start args).exec done c = .ok (m, .ok ()) c₁ ∧
      Blames args (argsOf done) code x c₁.heap fault := by
  obtain ⟨m, ran, c₁, hexec, hcases⟩ := build_cases hb
  rcases hcases with ⟨e, rfl, he⟩ | ⟨-, -, he⟩ | ⟨-, -, made, c₂, -, he⟩
  · cases he
    exact Machine.exec_blames hexec
  · exact absurd (BuildError.call.inj (Except.error.inj he)) (hextra _)
  · cases made <;> cases he

lemma accounted_ok (h : compile source = .ok f) {r : Ref}
    (hb : (f.build args).run c = .ok (.ok r) c') :
    args.length = f.argCount ∧
      (∀ position code need, Asks source.toList position code need →
        ∃ arg, args[position - 1]? = some arg ∧ need.accepts arg = true) ∧
      ∃ items c₁ c₂, items.length = f.itemCount ∧
        (Machine.start args).exec f.steps c =
          .ok (⟨⟨[], f.argCount⟩, items.reverse, []⟩, .ok ()) c₁ ∧
        Context.attempt (Machine.result items) c₁ = .ok (.ok r) c₂ := by
  obtain ⟨m, ran, c₁, hexec, hcases⟩ := build_cases hb
  rcases hcases with ⟨e, -, he⟩ | ⟨-, -, he⟩ | ⟨rfl, hleft, made, c₂, hmade, hr⟩
  · cases he
  · cases he
  obtain ⟨hcursor, hle, hsupplied⟩ := Machine.taken_of_start hexec
  obtain ⟨hgroups, hbottom⟩ := (Machine.frames_of_compile h args).2 c m c₁ hexec
  -- No arguments are left over, and the steps took no more than there were.
  have hused : args.length ≤ argsOf f.steps := by
    rwa [hcursor, ArgCursor.after, List.drop_eq_nil_iff] at hleft
  rw [ArgCursor.after, List.drop_eq_nil_of_le hused] at hcursor
  rw [argCount_eq_argsOf h]
  refine ⟨by omega, ?_, m.bottom.reverse, c₁, c₂, by simpa using hbottom, ?_, ?_⟩
  · rintro position code need ⟨taken, x, hwrites, hw⟩
    obtain ⟨done, rest, hsteps, rfl⟩ := (writes_iff h).mp hwrites
    exact hsupplied done code x rest hsteps position need hw
  · rw [hexec, List.reverse_reverse, ← hcursor, ← hgroups]
  · cases made with
    | error e => cases hr
    | ok r' =>
      cases hr
      exact hmade

lemma accounted_extra (h : compile source = .ok f) {count : Nat}
    (hb : (f.build args).run c = .ok (.error (.call (.extraArgs count))) c') :
    count = args.length - f.argCount ∧ 0 < count := by
  obtain ⟨m, ran, c₁, hexec, hcases⟩ := build_cases hb
  rcases hcases with ⟨e, rfl, he⟩ | ⟨rfl, hleft, he⟩ | ⟨-, -, made, c₂, -, he⟩
  · cases he
    obtain ⟨done, code, x, rest, m₁, c₂, -, -, hblames⟩ := Machine.exec_blames hexec
    exact hblames.elim
  · cases he
    obtain ⟨hcursor, -, -⟩ := Machine.taken_of_start hexec
    rw [hcursor, ArgCursor.after] at hleft ⊢
    rw [argCount_eq_argsOf h]
    exact ⟨by simp, List.length_pos_iff.mpr hleft⟩
  · cases made <;> cases he

lemma accounted_missing (h : compile source = .ok f) {position : Nat} {code : Char}
    (hb : (f.build args).run c = .ok (.error (.call (.missingArg position code))) c') :
    position = args.length + 1 ∧ position ≤ f.argCount ∧
      ∃ need, Asks source.toList position code need := by
  obtain ⟨done, code', x, rest, m, c₁, hsteps, -, hblames⟩ := blames_of_build hb (by simp)
  obtain ⟨rfl, hposition, need, hw⟩ := hblames
  obtain ⟨hasks, -, hle⟩ := asks_of_step h hsteps hw
  exact ⟨hposition, hle, need, hasks⟩

lemma accounted_mismatch (h : compile source = .ok f) {position : Nat} {code : Char}
    (hb : (f.build args).run c = .ok (.error (.call (.argMismatch position code))) c') :
    ∃ need arg, Asks source.toList position code need ∧ 0 < position ∧ position ≤ args.length ∧
      args[position - 1]? = some arg ∧
      (need.accepts arg = false ∨ ∃ r, need = .value .borrowed ∧ arg = .borrowed (some r) ∧
        f.FindsDead args c position r) := by
  obtain ⟨done, code', x, rest, m, c₁, hsteps, hdone, hblames⟩ := blames_of_build hb (by simp)
  obtain ⟨rfl, need, arg, hw, harg, hrejects⟩ := hblames
  obtain ⟨hasks, hpos, -⟩ := asks_of_step h hsteps hw
  obtain ⟨hlt, -⟩ := List.getElem?_eq_some_iff.mp harg
  refine ⟨need, arg, hasks, hpos, by omega, harg, ?_⟩
  rcases hrejects with hother | ⟨r, rfl, rfl, hdead⟩
  · exact .inl hother
  · cases hw
    exact .inr ⟨r, rfl, rfl, done, code, rest, m, c₁, hsteps, rfl, hdone, hdead⟩

lemma accounted_length (h : compile source = .ok f) {position n available : Nat}
    (hb : (f.build args).run c = .ok (.error (.call (.lengthOutOfRange position n available))) c') :
    ∃ code text length, Asks source.toList position code .length ∧
      1 < position ∧ position ≤ args.length ∧
      args[position - 1]? = some length ∧ length.length?.map Int64.toInt = some ↑n ∧
      args[position - 2]? = some text ∧ text.available? = some available ∧ available < n := by
  obtain ⟨done, code, x, rest, m, c₁, hsteps, -, hblames⟩ := blames_of_build hb (by simp)
  obtain ⟨hw, hlt, ⟨length, hlength, hn⟩, text, htext, havailable⟩ := hblames
  obtain ⟨hasks, -, -⟩ := asks_of_step h hsteps hw
  obtain ⟨hbound, -⟩ := List.getElem?_eq_some_iff.mp hlength
  have hpos : 1 < position := by
    cases hw
    omega
  exact ⟨code, text, length, hasks, hpos, by omega, hlength, hn, htext, havailable, hlt⟩

/-- **Reading and building count the same arguments.** Each argument that an accepted format takes
is asked for by one character of its text. A build from any arguments on any context that ends has
used them accordingly:

* If it makes a value, there were as many arguments as the format takes, each of a type that is
  asked for at its position. Behind the last step all of them were taken, no group was open and the
  items outside all groups were as many as the format says.
* Arguments left over are those behind the ones that the format takes.
* A missing argument is the first one that there is not, and the format takes it.
* A mismatch is told of an argument that there is, by its position. It is of another type than the
  format asks for there, or refers to an object that is not alive when the build comes to it.
* A length that goes too far is told of the length, by its position, and the text is the argument
  in front of it.

The character in a fault is the one that asks for the argument, also if the argument is a length. -/
theorem build_accounts_arguments (h : compile source = .ok f)
    (hb : (f.build args).run c = .ok outcome c') :
    (∀ position, 0 < position → position ≤ f.argCount →
      ∃ code need, Asks source.toList position code need ∧
        ∀ code' need', Asks source.toList position code' need' → code' = code ∧ need' = need) ∧
    (∀ r, outcome = .ok r → args.length = f.argCount ∧
      (∀ position code need, Asks source.toList position code need →
        ∃ arg, args[position - 1]? = some arg ∧ need.accepts arg = true) ∧
      ∃ items c₁ c₂, items.length = f.itemCount ∧
        (Machine.start args).exec f.steps c =
          .ok (⟨⟨[], f.argCount⟩, items.reverse, []⟩, .ok ()) c₁ ∧
        Context.attempt (Machine.result items) c₁ = .ok (.ok r) c₂) ∧
    (∀ count, outcome = .error (.call (.extraArgs count)) →
      count = args.length - f.argCount ∧ 0 < count) ∧
    (∀ position code, outcome = .error (.call (.missingArg position code)) →
      position = args.length + 1 ∧ position ≤ f.argCount ∧
        ∃ need, Asks source.toList position code need) ∧
    (∀ position code, outcome = .error (.call (.argMismatch position code)) →
      ∃ need arg, Asks source.toList position code need ∧
        0 < position ∧ position ≤ args.length ∧ args[position - 1]? = some arg ∧
        (need.accepts arg = false ∨ ∃ r, need = .value .borrowed ∧ arg = .borrowed (some r) ∧
          f.FindsDead args c position r)) ∧
    (∀ position n available, outcome = .error (.call (.lengthOutOfRange position n available)) →
      ∃ code text length, Asks source.toList position code .length ∧
        1 < position ∧ position ≤ args.length ∧
        args[position - 1]? = some length ∧ length.length?.map Int64.toInt = some ↑n ∧
        args[position - 2]? = some text ∧ text.available? = some available ∧ available < n) := by
  refine ⟨fun _ => asks_unique h, ?_, ?_, ?_, ?_, ?_⟩
  · rintro r rfl
    exact accounted_ok h hb
  · rintro count rfl
    exact accounted_extra h hb
  · rintro position code rfl
    exact accounted_missing h hb
  · rintro position code rfl
    exact accounted_mismatch h hb
  · rintro position n available rfl
    exact accounted_length h hb

/-- A null text takes its length with it. A length that is missing, no length at all or too large is
told of by its own position, with the character in front of the `#`. -/
theorem build_accounts_arguments_sized :
    ∃ f, compile "[z#,i]" = .ok f ∧ f.argCount = 3 ∧ f.itemCount = 1 ∧
      (∃ c', (f.build [.text none, .size 9, .int 7]).run (.fresh none .silent) = .ok (.ok ⟨5⟩) c' ∧
        [BuildArg.text none, .size 9, .int 7].length = f.argCount) ∧
      (∃ c', (f.build [.text none]).run (.fresh none .silent) =
          .ok (.error (.call (.missingArg 2 'z'))) c' ∧
        ∃ need, Asks "[z#,i]".toList 2 'z' need) ∧
      (∃ c', (f.build [.text none, .float ⟨0⟩]).run (.fresh none .silent) =
          .ok (.error (.call (.argMismatch 2 'z'))) c' ∧
        ∃ need, Asks "[z#,i]".toList 2 'z' need ∧ need.accepts (.float ⟨0⟩) = false) ∧
      (∃ c', (f.build [.text (some [97]), .size 2]).run (.fresh none .silent) =
          .ok (.error (.call (.lengthOutOfRange 2 2 1))) c' ∧
        ∃ code, Asks "[z#,i]".toList 2 code .length) := by
  obtain ⟨f, hf, hargs, hitems, ⟨c₁, hnull⟩, ⟨c₂, hmissing⟩, ⟨c₃, hother⟩, c₄, hlong⟩ :
      ∃ f, compile "[z#,i]" = .ok f ∧ f.argCount = 3 ∧ f.itemCount = 1 ∧
        (∃ c', (f.build [.text none, .size 9, .int 7]).run (.fresh none .silent) =
          .ok (.ok ⟨5⟩) c') ∧
        (∃ c', (f.build [.text none]).run (.fresh none .silent) =
          .ok (.error (.call (.missingArg 2 'z'))) c') ∧
        (∃ c', (f.build [.text none, .float ⟨0⟩]).run (.fresh none .silent) =
          .ok (.error (.call (.argMismatch 2 'z'))) c') ∧
        (∃ c', (f.build [.text (some [97]), .size 2]).run (.fresh none .silent) =
          .ok (.error (.call (.lengthOutOfRange 2 2 1))) c') :=
    ⟨_, rfl, rfl, rfl, ⟨_, rfl⟩, ⟨_, rfl⟩, ⟨_, rfl⟩, ⟨_, rfl⟩⟩
  refine ⟨f, hf, hargs, hitems, ⟨c₁, hnull, ?_⟩, ⟨c₂, hmissing, ?_⟩, ⟨c₃, hother, ?_⟩,
    c₄, hlong, ?_⟩
  · obtain ⟨-, hok, -⟩ := build_accounts_arguments hf hnull
    exact (hok _ rfl).1
  · obtain ⟨-, -, -, hm, -⟩ := build_accounts_arguments hf hmissing
    exact (hm 2 'z' rfl).2.2
  · obtain ⟨-, -, -, -, hm, -⟩ := build_accounts_arguments hf hother
    obtain ⟨need, arg, hasks, -, -, harg, hrejects⟩ := hm 2 'z' rfl
    obtain rfl : BuildArg.float ⟨0⟩ = arg := by simpa using harg
    refine ⟨need, hasks, ?_⟩
    rcases hrejects with hno | ⟨r, -, hr, -⟩
    · exact hno
    · simp at hr
  · obtain ⟨-, -, -, -, -, hl⟩ := build_accounts_arguments hf hlong
    obtain ⟨code, -, -, hasks, -⟩ := hl 2 2 1 rfl
    exact ⟨code, hasks⟩

end Format

end NativeCall
