import NativeCall.Proofs.Build.Effects
import NativeCall.Proofs.Build.Ownership
import NativeCall.Proofs.Build.Positions

/-!
# The pending error and builds

The error that one native call leaves behind is seen by every later one. A build looks at it in one
place only: where it comes to a null handle, it takes the error away and fails with it, and without
one it blames the caller. The place lies deep in the build, behind reading the argument and behind
all the steps before.

A reading says that it met a null handle by its product, and only the readings of objects do
(`null_of_read`). So every step of a build either comes to a null handle, or is one of those that
keep whatever conversions keep (`Serves`), the pending error among it; and a run of steps either
ends at the null handle that it reaches or leaves the pending error alone (`Machine.pending_exec`).
What follows the steps does not look at it any more.

## Reaching a null handle

Which of the two happens does not depend on the pending error: it is told by `ReachesNull` from the
steps that succeeded and the argument behind those that they took. `Machine.ReachesNull` says it of
a machine in the middle of a run and with its own cursor, which is the form for an induction over
the steps; `Format.ReachesNull` says it of the arguments of the call and the steps of the format,
where the argument is found at the position that counting the steps gives. The two are the same
(`Format.reachesNull_iff`), since the cursor stands behind as many arguments as the steps ask for.

## What is assumed of conversions

A conversion is foreign code and could do anything to the pending error, take it away as well as
leave a new one behind. Nothing can be said of a build then, so conversions are assumed to leave it
alone (`KeepsPending`), also where they stop at a misused slot. Beyond that nothing is assumed of
them for what `buildValue_pending` says of the pending error. That there is an answer at all is said
at the end of it, under the assumptions under which builds are known to end.
-/

namespace NativeCall

open Heap Format

/-- What a build answers at a null handle. -/
def BuildError.ofPending : Option RunError → BuildError
  | some e => .raised e
  | none => .call .nullObject

/-! ## Readings -/

/-- Only the readings of objects meet a null handle, and only where there is one. -/
lemma null_of_read {code : Char} {x : Scalar} {cursor cursor' : ArgCursor}
    (h : x.read code cursor = .ok .null cursor') :
    ∃ arg rest, cursor.args = arg :: rest ∧ x.isNull arg = true := by
  have hread := Scalar.demands_read code x cursor
  rw [h] at hread
  cases hread with
  | ok hargs _ _ hq =>
    cases hq with
    | null hnull => exact ⟨_, _, hargs, hnull⟩

/-- No reading blames a null handle. -/
lemma ne_nullObject_of_read {code : Char} {x : Scalar} {cursor cursor' : ArgCursor} {e : ReadError}
    (h : x.read code cursor = .error e cursor') : e.error ≠ .call .nullObject := by
  have hread := Scalar.demands_read code x cursor
  rw [h] at hread
  cases hread with
  | failed _ _ _ hq =>
    cases hq with
    | raised => simp
    | tooLong _ hlong =>
      obtain ⟨_, _, _, _, -, -, -, -, rfl⟩ := hlong
      simp
  | missing | refused => simp

lemma read_null {code : Char} {x : Scalar} {arg : BuildArg} (h : x.isNull arg = true)
    (rest : List BuildArg) (position : Nat) :
    x.read code ⟨arg :: rest, position⟩ = .ok .null ⟨rest, position + 1⟩ := by
  unfold Scalar.isNull at h
  split at h
  · rfl
  · rfl
  · rfl
  · cases h

/-! ## Operations that keep the pending error -/

/-- The pending error is the same at the end, and also where the operation stops. -/
def KeepsPending {α : Type} (x : ContextM α) : Prop :=
  ∀ c, (after x c).pending = c.pending

lemma keepsPending_onHeap {α : Type} (x : HeapM α) : KeepsPending (Context.onHeap x) := by
  intro c
  rw [after_onHeap_eq]

lemma keepsPending_serves : Serves (fun _ x => KeepsPending x) := by
  let later (c c' : Context) : Prop := c'.pending = c.pending
  have hsequential : Sequential (fun _ (x : ContextM _) => ∀ c, later c (after x c)) :=
    sequential_of_trans (fun _ => rfl) (fun h h' => Eq.trans h' h)
  exact ⟨hsequential, fun _ => rfl, fun _ => keepsPending_onHeap _⟩

lemma keepsPending_trace (event : TraceEvent) : KeepsPending (Context.trace event) :=
  fun _ => rfl

namespace Machine

variable {m m' : Machine} {c c' : Context} {st : Step} {steps : List Step}

/-! ## Steps -/

/-- The step comes to a null handle. -/
def MeetsNull (m : Machine) (st : Step) : Prop :=
  ∃ x arg rest, st.directive = .scalar x ∧ m.cursor.args = arg :: rest ∧ x.isNull arg = true

lemma step_of_meetsNull (h : m.MeetsNull st) (c : Context) :
    ∃ m', m.step st c = .ok (m', .error (.ofPending c.pending)) { c with pending := none } := by
  obtain ⟨x, arg, rest, hx, hargs, hnull⟩ := h
  obtain ⟨⟨args, position⟩, bottom, groups⟩ := m
  obtain rfl : args = arg :: rest := hargs
  refine ⟨⟨⟨rest, position + 1⟩, bottom, groups⟩, ?_⟩
  simp only [step, hx, read_null hnull]
  obtain ⟨heap, pending, names, tracer⟩ := c
  cases pending <;> rfl

lemma ne_null_of_not_meetsNull (h : ¬m.MeetsNull st) (x : Scalar) (cursor : ArgCursor)
    (hx : st.directive = .scalar x) : x.read st.code m.cursor ≠ .ok .null cursor := by
  intro hread
  obtain ⟨arg, rest, hargs, hnull⟩ := null_of_read hread
  exact h ⟨x, arg, rest, hx, hargs, hnull⟩

/-- Any other step does not blame a null handle. -/
lemma step_of_not_meetsNull (h : ¬m.MeetsNull st) {m' : Machine} {c' : Context} :
    m.step st c ≠ .ok (m', .error (.call .nullObject)) c' := by
  intro hrun
  rcases step_cases hrun with
    ⟨-, -, -, hnot⟩ | ⟨x, hx, ⟨e, hread, he⟩ | ⟨p, made, hread, hmake, hmade⟩⟩
  · exact hnot .nullObject rfl
  · exact ne_nullObject_of_read hread (Except.error.inj he).symm
  · cases made with
    | ok r => cases hmade
    | error e =>
      obtain rfl : .call .nullObject = e := Except.error.inj hmade
      rcases fault_of_make hmake with ⟨rfl, -⟩ | ⟨r, -, -, hother⟩
      · exact ne_null_of_not_meetsNull h x _ hx hread
      · cases hother

/-! ## Runs of steps -/

/-- The run succeeds up to a scalar whose argument is a null handle. -/
def ReachesNull (m : Machine) (steps : List Step) (c : Context) : Prop :=
  ∃ done st rest m₁ c₁, steps = done ++ st :: rest ∧ m.exec done c = .ok (m₁, .ok ()) c₁ ∧
    m₁.MeetsNull st

lemma reachesNull_cons (hstep : m.step st c = .ok (m', .ok ()) c') :
    m.ReachesNull (st :: steps) c ↔ m'.ReachesNull steps c' := by
  constructor
  · rintro ⟨_ | ⟨st', done⟩, st₁, rest, m₁, c₁, hsteps, hdone, hmeets⟩
    -- The run stands in front of the step that comes to a null handle, and such a step fails.
    · cases hsteps
      cases hdone
      obtain ⟨m₂, hfail⟩ := step_of_meetsNull hmeets c
      cases hfail.symm.trans hstep
    · cases hsteps
      rw [exec_cons_ok hstep] at hdone
      exact ⟨done, st₁, rest, m₁, c₁, rfl, hdone, hmeets⟩
  · rintro ⟨done, st₁, rest, m₁, c₁, rfl, hdone, hmeets⟩
    refine ⟨st :: done, st₁, rest, m₁, c₁, rfl, ?_, hmeets⟩
    rw [exec_cons_ok hstep, hdone]

/-- If the first step does not succeed, a null handle is reached only if it is the first step that
comes to it. -/
lemma not_reachesNull_cons (hmeets : ¬m.MeetsNull st)
    (hstep : ∀ m' c', m.step st c ≠ .ok (m', .ok ()) c') : ¬m.ReachesNull (st :: steps) c := by
  rintro ⟨_ | ⟨st', done⟩, st₁, rest, m₁, c₁, hsteps, hdone, hmeets₁⟩
  · cases hsteps
    cases hdone
    exact hmeets hmeets₁
  · cases hsteps
    rw [exec] at hdone
    obtain ⟨⟨m', outcome⟩, c', hfirst, hdone⟩ := bind_inv hdone
    cases outcome with
    | ok _ => exact hstep m' c' hfirst
    | error e => cases hdone

/-- A run that reaches a null handle takes the pending error away and ends with it. Any other run
leaves the pending error alone, and does not blame a null handle. -/
lemma pending_exec (hm : m.Awaits (·.Converts (fun _ x => KeepsPending x))) (steps : List Step)
    (c : Context) :
    (m.ReachesNull steps c ∧ ∃ m' c', c'.pending = none ∧
      m.exec steps c = .ok (m', .error (.ofPending c.pending)) c') ∨
    (¬m.ReachesNull steps c ∧ (after (m.exec steps) c).pending = c.pending ∧
      ∀ m' c', m.exec steps c ≠ .ok (m', .error (.call .nullObject)) c') := by
  induction steps generalizing m c with
  | nil =>
    have hdone : m.exec [] c = .ok (m, .ok ()) c := rfl
    refine .inr ⟨?_, rfl, fun m' c' h => ?_⟩
    · rintro ⟨_ | ⟨st, done⟩, st₁, rest, m₁, c₁, hsteps, -⟩ <;> cases hsteps
    · cases hdone.symm.trans h
  | cons st steps ih =>
    -- A null handle ends the run here. Otherwise the step keeps the pending error, and only if it
    -- succeeds is there more to say.
    by_cases hmeets : m.MeetsNull st
    · left
      obtain ⟨m', hstep⟩ := step_of_meetsNull hmeets c
      refine ⟨⟨[], st, steps, m, c, rfl, rfl, hmeets⟩, m', { c with pending := none }, rfl, ?_⟩
      rw [exec, bind_ok hstep]
      rfl
    have hkeeps := keepsPending_serves.step hm (ne_null_of_not_meetsNull hmeets) c
    cases hrun : m.step st c with
    | error e c' =>
      rw [after_stopped hrun] at hkeeps
      have hexec : m.exec (st :: steps) c = .error e c' := bind_stopped hrun
      right
      refine ⟨not_reachesNull_cons hmeets (fun m' c'' h => ?_), ?_, fun m' c'' h => ?_⟩
      · cases hrun.symm.trans h
      · rw [after_stopped hexec, hkeeps]
      · cases hexec.symm.trans h
    | ok result c' =>
      obtain ⟨m', outcome⟩ := result
      rw [after_ok hrun] at hkeeps
      cases outcome with
      | error e =>
        have hexec : m.exec (st :: steps) c = .ok (m', .error e) c' := by
          rw [exec, bind_ok hrun]
          rfl
        right
        refine ⟨not_reachesNull_cons hmeets (fun m'' c'' h => ?_), ?_, fun m'' c'' h => ?_⟩
        · cases hrun.symm.trans h
        · rw [after_ok hexec, hkeeps]
        · cases hexec.symm.trans h
          exact step_of_not_meetsNull hmeets hrun
      | ok _ =>
        have hexec : m.exec (st :: steps) c = m'.exec steps c' := exec_cons_ok hrun
        rw [hexec, after_eq hexec, reachesNull_cons hrun, ← hkeeps]
        exact ih (hm.step hrun) c'

end Machine

/-! ## Builds -/

section Builds

variable {args : List BuildArg} {c : Context}

/-- A build from a format comes to a null handle: it succeeds with the steps before some scalar, and
behind the arguments that these take stands a null handle of the type of the scalar. -/
def Format.ReachesNull (f : Format) (args : List BuildArg) (c : Context) : Prop :=
  ∃ done code x rest m c' arg, f.steps = done ++ ⟨code, .scalar x⟩ :: rest ∧
    (Machine.start args).exec done c = .ok (m, .ok ()) c' ∧
    args[argsOf done]? = some arg ∧ x.isNull arg = true

lemma Format.reachesNull_iff {f : Format} :
    f.ReachesNull args c ↔ (Machine.start args).ReachesNull f.steps c := by
  -- The argument behind those that the steps took is the first one that is left.
  have hnext : ∀ {done m c'}, (Machine.start args).exec done c = .ok (m, .ok ()) c' →
      ∀ arg, args[argsOf done]? = some arg ↔ ∃ rest, m.cursor.args = arg :: rest := by
    intro done m c' hdone arg
    obtain ⟨hcursor, -, -⟩ := Machine.taken_of_start hdone
    rw [hcursor, ArgCursor.after, ← List.head?_drop]
    cases args.drop (argsOf done) <;> simp
  constructor
  · rintro ⟨done, code, x, rest, m, c', arg, hsteps, hdone, harg, hnull⟩
    obtain ⟨others, hargs⟩ := (hnext hdone arg).mp harg
    exact ⟨done, _, rest, m, c', hsteps, hdone, x, arg, others, rfl, hargs, hnull⟩
  · rintro ⟨done, ⟨code, d⟩, rest, m, c', hsteps, hdone, x, arg, others, hx, hargs, hnull⟩
    obtain rfl : d = .scalar x := hx
    exact ⟨done, code, x, rest, m, c', arg, hsteps, hdone, (hnext hdone arg).mpr ⟨others, hargs⟩,
      hnull⟩

/-- What becomes of the pending error in a call that comes to a null handle or not: it is the answer
of the call and pending no more, or it stays and is not spoken of. -/
structure Disposes (nulls : Prop) (x : ContextM (Except BuildError Ref)) (c : Context) : Prop where
  taken : nulls → (after x c).pending = none ∧
    ∀ outcome c', x c = .ok outcome c' → outcome = .error (.ofPending c.pending)
  kept : ¬nulls → (after x c).pending = c.pending ∧
    ∀ c', x c ≠ .ok (.error (.call .nullObject)) c'

lemma Machine.finish_error {m : Machine} {e : BuildError} {outcome : Except BuildError Ref}
    {c' : Context} (h : m.finish (.error e) c = .ok outcome c') : outcome = .error e := by
  obtain ⟨-, c₁, -, h⟩ := bind_inv (x := m.release) h
  cases h
  rfl

/-- What follows the steps blames no null handle that they did not blame. -/
lemma Machine.error_of_finish {m : Machine} {ran : Except BuildError Unit} {c' : Context}
    (h : m.finish ran c = .ok (.error (.call .nullObject)) c') :
    ran = .error (.call .nullObject) := by
  obtain ⟨⟨left, position⟩, bottom, groups⟩ := m
  cases ran with
  | error e =>
    obtain rfl := Except.error.inj (finish_error h)
    rfl
  | ok _ =>
    cases left with
    | cons arg left =>
      obtain ⟨-, c₁, -, h⟩ := bind_inv (x := Machine.release _) h
      cases h
    | nil =>
      obtain ⟨made, c₁, -, h⟩ := bind_inv (x := Context.attempt (result bottom.reverse)) h
      cases made <;> cases h

lemma Format.disposes_run (f : Format)
    (hargs : ∀ arg ∈ args, arg.Converts (fun _ x => KeepsPending x)) (c : Context) :
    Disposes (f.ReachesNull args c) (f.run args).run c := by
  rw [Format.reachesNull_iff, Machine.run_eq_finish]
  have hstart : (Machine.start args).Awaits (·.Converts (fun _ x => KeepsPending x)) := hargs
  rcases Machine.pending_exec hstart f.steps c with
    ⟨hnull, m, c₁, hnone, hexec⟩ | ⟨hnull, hkeeps, hother⟩
  · refine ⟨fun _ => ⟨?_, fun outcome c' h => ?_⟩, fun hn => absurd hnull hn⟩
    · rw [after_eq (bind_ok hexec), keepsPending_serves.finish m _ c₁, hnone]
    · rw [bind_ok hexec] at h
      exact Machine.finish_error h
  · refine ⟨fun hn => absurd hn hnull, fun _ => ⟨?_, fun c' h => ?_⟩⟩
    · cases hexec : (Machine.start args).exec f.steps c with
      | error e c₁ =>
        rw [after_stopped hexec] at hkeeps
        rw [after_stopped (bind_stopped hexec), hkeeps]
      | ok result c₁ =>
        rw [after_ok hexec] at hkeeps
        rw [after_eq (bind_ok hexec), keepsPending_serves.finish result.1 result.2 c₁, hkeeps]
    · obtain ⟨⟨m, ran⟩, c₁, hexec, hfinish⟩ := bind_inv h
      obtain rfl := Machine.error_of_finish hfinish
      exact hother m c₁ hexec

/-- To report what came of a build changes nothing that matters here. -/
lemma Disposes.traced {nulls : Prop} {x : ContextM (Except BuildError Ref)}
    (hx : Disposes nulls x c) (event : Except BuildError Ref → TraceEvent) :
    Disposes nulls (x >>= fun outcome => do
      Context.trace (event outcome)
      return outcome) c := by
  have hafter : (after (x >>= fun outcome => do
      Context.trace (event outcome)
      return outcome) c).pending = (after x c).pending := by
    cases hrun : x c with
    | error e c' => rw [after_stopped hrun, after_stopped (bind_stopped hrun)]
    | ok outcome c' =>
      rw [after_ok hrun, after_eq (bind_ok hrun)]
      rfl
  have hanswer : ∀ {outcome c'}, (x >>= fun outcome => do
      Context.trace (event outcome)
      return outcome) c = .ok outcome c' → ∃ c₁, x c = .ok outcome c₁ := by
    intro outcome c' h
    obtain ⟨answer, c₁, hrun, h⟩ := bind_inv h
    cases h
    exact ⟨c₁, hrun⟩
  refine ⟨fun hn => ⟨hafter.trans (hx.taken hn).1, fun outcome c' h => ?_⟩,
    fun hn => ⟨hafter.trans (hx.kept hn).1, fun c' h => ?_⟩⟩
  · obtain ⟨c₁, hrun⟩ := hanswer h
    exact (hx.taken hn).2 outcome c₁ hrun
  · obtain ⟨c₁, hrun⟩ := hanswer h
    exact (hx.kept hn).2 c₁ hrun

/-- A build from a format string comes to a null handle. A string that is not well formed is turned
down before any argument is looked at. -/
def ReachesNull (source : String) (args : List BuildArg) (c : Context) : Prop :=
  ∃ f, compile source = .ok f ∧ f.ReachesNull args c

lemma disposes_buildValue (source : String)
    (hargs : ∀ arg ∈ args, arg.Converts (fun _ x => KeepsPending x)) (c : Context) :
    Disposes (ReachesNull source args c) (buildValue source args).run c := by
  rw [buildValue]
  cases hf : compile source with
  | ok f =>
    have hiff : ReachesNull source args c ↔ f.ReachesNull args c := by
      simp [ReachesNull, hf]
    rw [hiff]
    exact (f.disposes_run hargs c).traced _
  | error e =>
    have hnone : ¬ReachesNull source args c := by
      simp [ReachesNull, hf]
    let release : HeapM Unit := Heap.decRefs (args.flatMap BuildArg.owned)
    refine ⟨fun hn => absurd hn hnone, fun _ => ⟨?_, fun c' h => ?_⟩⟩
    · exact keepsPending_serves.bind (keepsPending_onHeap release) (fun _ =>
        keepsPending_serves.bind (keepsPending_trace _) (fun _ => keepsPending_serves.ret _)) c
    · obtain ⟨-, c₁, -, h⟩ := bind_inv (x := Context.onHeap release) h
      obtain ⟨-, c₂, -, h⟩ := bind_inv (x := Context.trace _) h
      cases h

/-- **The pending error is neither lost nor duplicated.** For every format string, all arguments
whose conversions leave the pending error alone and every runtime, a build from the string

* takes the pending error away if and only if there is one and the build comes to a null handle,
* and then answers with exactly this error, uncatchable ones included;
* in every other case leaves the pending error as it was, also where it stops at a misused slot;
* blames a null handle only if it comes to one and no error was pending.

It comes to an answer wherever the heap is counted, the caller owns what it gives away and the
conversions are neutral to what is kept. -/
theorem buildValue_pending (source : String)
    (hargs : ∀ arg ∈ args, arg.Converts (fun _ x => KeepsPending x)) (c : Context) :
    ((∃ e, c.pending = some e ∧ (after (buildValue source args).run c).pending = none) ↔
      c.pending.isSome = true ∧ ReachesNull source args c) ∧
    (∀ e, c.pending = some e → ReachesNull source args c → ∀ outcome c',
      (buildValue source args).run c = .ok outcome c' → outcome = .error (.raised e)) ∧
    (¬(c.pending.isSome = true ∧ ReachesNull source args c) →
      (after (buildValue source args).run c).pending = c.pending) ∧
    (∀ c', (buildValue source args).run c = .ok (.error (.call .nullObject)) c' →
      c.pending = none ∧ ReachesNull source args c) ∧
    (c.pending = none → ReachesNull source args c → ∀ outcome c',
      (buildValue source args).run c = .ok outcome c' → outcome = .error (.call .nullObject)) ∧
    (∀ kept, (∀ arg ∈ args, arg.Neutral kept) → c.heap.Counted (stolen args + kept) →
      ∃ outcome c', (buildValue source args).run c = .ok outcome c') := by
  have hbuild := disposes_buildValue source hargs c
  have hreturns : ∀ kept, (∀ arg ∈ args, arg.Neutral kept) →
      c.heap.Counted (stolen args + kept) →
      ∃ outcome c', (buildValue source args).run c = .ok outcome c' := by
    intro kept hneutral hc
    obtain ⟨outcome, c', hrun, -⟩ := transfers_buildValue source hneutral c kept le_rfl hc
    exact ⟨outcome, c', hrun⟩
  -- Everything is told by whether a null handle is reached, and by whether there was an error to
  -- take.
  by_cases hnull : ReachesNull source args c
  · obtain ⟨hnone, hanswer⟩ := hbuild.taken hnull
    refine ⟨?_, ?_, ?_, ?_, ?_, hreturns⟩
    · cases hp : c.pending <;> simp [hnull, hnone]
    · intro e he _ outcome c' h
      rw [hanswer outcome c' h, he]
      rfl
    · intro hother
      have hp : c.pending = none := by simpa [hnull] using hother
      rw [hnone, hp]
    · intro c' h
      refine ⟨?_, hnull⟩
      have hblamed := hanswer _ c' h
      cases hp : c.pending with
      | none => rfl
      | some e =>
        rw [hp] at hblamed
        cases hblamed
    · intro hp _ outcome c' h
      rw [hanswer outcome c' h, hp]
      rfl
  · obtain ⟨hkept, hblames⟩ := hbuild.kept hnull
    refine ⟨?_, ?_, ?_, ?_, ?_, hreturns⟩
    · rw [hkept]
      cases hp : c.pending <;> simp [hnull]
    · exact fun _ _ hn => absurd hn hnull
    · exact fun _ => hkept
    · exact fun c' h => absurd h (hblames c')
    · exact fun _ hn => absurd hn hnull

/-- The null handle stands behind a conversion, inside a group, and the pending error cannot be
caught. -/
theorem buildValue_pending_fatal :
    let action : Conversion := ExceptT.mk (Context.attempt (create (.int 5)))
    let args : List BuildArg := [.convert (some action), .borrowed none]
    let refused : RunError := .fatal ⟨.memoryError, some "memory limit"⟩
    let c : Context := { Context.fresh none .silent with pending := some refused }
    (∀ arg ∈ args, arg.Converts (fun _ x => KeepsPending x)) ∧ ReachesNull "[O&O]" args c ∧
      (after (buildValue "[O&O]" args).run c).pending = none ∧
      ∃ c', (buildValue "[O&O]" args).run c = .ok (.error (.raised refused)) c' := by
  intro action args refused c
  have hargs : ∀ arg ∈ args, arg.Converts (fun _ x => KeepsPending x) := by
    intro arg harg a ha
    rcases List.mem_cons.mp harg with rfl | harg
    · cases ha
      exact keepsPending_onHeap _
    · obtain rfl := List.mem_singleton.mp harg
      cases ha
  have hnull : ReachesNull "[O&O]" args c :=
    ⟨_, rfl, [⟨'[', .opening .list⟩, ⟨'O', .scalar .converted⟩], 'O', .borrowed, _, _, _, _, rfl,
      rfl, rfl, rfl⟩
  have hneutral : ∀ arg ∈ args, arg.Neutral 0 := by
    intro arg harg a ha
    rcases List.mem_cons.mp harg with rfl | harg
    · cases ha
      exact Conversion.neutral_iff.mpr (.onHeap (.create (.int 5)))
    · obtain rfl := List.mem_singleton.mp harg
      cases ha
  obtain ⟨hcleared, hanswer, -, -, -, hreturns⟩ := buildValue_pending "[O&O]" hargs c
  obtain ⟨-, -, hnone⟩ := hcleared.mpr ⟨rfl, hnull⟩
  obtain ⟨outcome, c', hrun⟩ := hreturns 0 hneutral (counted_fresh .unlimited)
  rw [hanswer refused rfl hnull outcome c' hrun] at hrun
  exact ⟨hargs, hnull, hnone, c', hrun⟩

end Builds

end NativeCall
