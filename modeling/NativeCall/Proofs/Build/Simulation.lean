import NativeCall.Proofs.Build.Evaluate
import NativeCall.Proofs.Build.Frames

/-!
# The machine computes the described value

`Format.build` runs a machine over a flat list of steps: scalars are pushed onto a stack, an opening
step begins a group, and a closing step makes a container of the innermost group. What a reader of
the format string has in mind is something else, a tree of items whose value is made from the values
of its parts. `Format.evaluate` computes that value by recursion on the tree and knows no stack.
This module proves that a build is the evaluation (`Format.build_eq_evaluate`), as a function on
contexts: the same value or the same error, the same releases in the same order, and the same
runtime behind.

## The invariant

`Performs` relates a run of steps to the result of an evaluation, with any steps `rest` behind them
and any machine to begin with. If the evaluation makes a value, the run comes to the machine with
the value pushed and goes on with `rest`. If it stops at a misuse of the heap, so does the run. If
it fails, the run fails with the same error, and the machine then holds exactly what the evaluation
left behind.

The last case is where the two differ most. The machine fails wherever it stands, with groups open
around the place, and releases its stack afterwards; the evaluation returns through the levels of
the tree and gathers at each level what was made there (`Format.Unfinished`). `Abandons` says that
both own the same: the items on the level where the machine began, and on top of them the groups
that stay open, innermost first. It has one rule for each way in which the evaluation comes back
from a failure: `Abandons.bare` where it fails, `Abandons.after` behind an item that was made, and
`Abandons.enclosed` out of a group.

## The induction

`performs_tree` and `performs_items` are proved together, by the mutual recursion of trees and lists
of trees. `rest` is what makes the induction go through: the steps inside a group are run with the
closing step and everything after it behind them, so nothing has to be said about where in the
program the machine is. A group is evaluated with `Format.container`, which takes its items in pairs
if it makes a dict, and the machine with `closeGroup`, which adds key after key and releases one
that has no value. The two agree on an even number of items, and no item of the grammar is a dict of
an odd number (`Format.Tree.Paired`).
-/

namespace NativeCall

open Heap

namespace Machine

/-- Adds items to the innermost group. -/
def pushAll (m : Machine) (rs : List Ref) : Machine :=
  rs.foldl push m

/-- Pushing does not look at the arguments. -/
lemma push_at (cursor cursor' : ArgCursor) (bottom : List Ref) (groups : List (List Ref))
    (r : Ref) : (⟨cursor', bottom, groups⟩ : Machine).push r =
      ⟨cursor', ((⟨cursor, bottom, groups⟩ : Machine).push r).bottom,
        ((⟨cursor, bottom, groups⟩ : Machine).push r).groups⟩ := by
  cases groups <;> rfl

@[simp] lemma pushAll_nil (m : Machine) : m.pushAll [] = m := rfl

lemma pushAll_cons (m : Machine) (r : Ref) (rs : List Ref) :
    m.pushAll (r :: rs) = (m.push r).pushAll rs := rfl

lemma pushAll_inside (cursor : ArgCursor) (bottom items : List Ref) (outer : List (List Ref))
    (rs : List Ref) :
    (⟨cursor, bottom, items :: outer⟩ : Machine).pushAll rs =
      ⟨cursor, bottom, (rs.reverse ++ items) :: outer⟩ := by
  induction rs generalizing items with
  | nil => rfl
  | cons r rs ih =>
    rw [pushAll_cons]
    show (⟨cursor, bottom, (r :: items) :: outer⟩ : Machine).pushAll rs = _
    rw [ih, List.reverse_cons, List.append_assoc, List.singleton_append]

lemma pushAll_outside (cursor : ArgCursor) (bottom rs : List Ref) :
    (⟨cursor, bottom, []⟩ : Machine).pushAll rs = ⟨cursor, rs.reverse ++ bottom, []⟩ := by
  induction rs generalizing bottom with
  | nil => rfl
  | cons r rs ih =>
    rw [pushAll_cons]
    show (⟨cursor, r :: bottom, []⟩ : Machine).pushAll rs = _
    rw [ih, List.reverse_cons, List.append_assoc, List.singleton_append]

/-- `Abandons m u m'`: the machine `m'` holds what `m` holds and what a failed evaluation left
behind, in groups that stay open. -/
def Abandons (m : Machine) (u : Format.Unfinished) (m' : Machine) : Prop :=
  ∃ opened : List (List Ref), u.inner = opened.reverse.flatMap List.reverse ∧
    m' = ⟨m.cursor, (m.pushAll u.items).bottom, opened ++ (m.pushAll u.items).groups⟩

lemma Abandons.bare (m : Machine) (e : BuildError) : Abandons m (.bare e) m :=
  ⟨[], rfl, rfl⟩

lemma Abandons.after {m m' : Machine} {u : Format.Unfinished} {r : Ref}
    (h : Abandons (m.push r) u m') : Abandons m (u.after r) m' := by
  obtain ⟨opened, hi, rfl⟩ := h
  exact ⟨opened, hi, by rw [cursor_push]; rfl⟩

/-- What a failed evaluation leaves in a group stays on top of the groups around it. -/
lemma Abandons.enclosed {m m' : Machine} {u : Format.Unfinished}
    (h : Abandons ⟨m.cursor, m.bottom, [] :: m.groups⟩ u m') : Abandons m u.enclosed m' := by
  obtain ⟨opened, hi, rfl⟩ := h
  refine ⟨opened ++ [u.items.reverse], ?_, ?_⟩
  · simp [Format.Unfinished.enclosed, hi]
  · rw [pushAll_inside]
    simp [Format.Unfinished.enclosed]

/-! ## Steps against items -/

lemma exec_cons_ok {m m' : Machine} {s : Step} {rest : List Step} {c c' : Context}
    (h : m.step s c = .ok (m', .ok ()) c') : m.exec (s :: rest) c = m'.exec rest c' := by
  rw [exec, bind_ok h]

lemma exec_cons_failed {m m' : Machine} {s : Step} {rest : List Step} {c c' : Context}
    {e : BuildError} (h : m.step s c = .ok (m', .error e) c') :
    m.exec (s :: rest) c = .ok (m', .error e) c' := by
  rw [exec, bind_ok h]
  rfl

lemma exec_cons_stopped {m : Machine} {s : Step} {rest : List Step} {c c' : Context} {x : Misuse}
    (h : m.step s c = .error x c') : m.exec (s :: rest) c = .error x c' := by
  rw [exec, bind_stopped h]

/-- `Performs m ss rest c put result`: running the steps `ss` on the machine `m`, with `rest` behind
them, does what an evaluation with this result did. -/
def Performs {α : Type} (m : Machine) (ss rest : List Step) (c : Context)
    (put : Machine → α → Machine)
    (result : EStateM.Result Misuse Context (ArgCursor × Except Format.Unfinished α)) : Prop :=
  match result with
  | .ok (cursor, .ok a) c' =>
    m.exec (ss ++ rest) c = (put ⟨cursor, m.bottom, m.groups⟩ a).exec rest c'
  | .ok (cursor, .error u) c' =>
    ∃ m', Abandons ⟨cursor, m.bottom, m.groups⟩ u m' ∧
      m.exec (ss ++ rest) c = .ok (m', .error u.error) c'
  | .error x c' => m.exec (ss ++ rest) c = .error x c'

/-- A scalar step does what evaluating the scalar does and pushes the result. -/
lemma step_scalar (m : Machine) (code : Char) (x : Scalar) :
    m.step ⟨code, .scalar x⟩ = Format.evalScalar code x m.cursor >>= fun (cursor, outcome) =>
      match outcome with
      | .ok r => pure ((⟨cursor, m.bottom, m.groups⟩ : Machine).push r, .ok ())
      | .error e => pure (⟨cursor, m.bottom, m.groups⟩, .error e) := by
  -- Both read the scalar first; what differs is only where the outcome is put.
  cases hx : x.read code m.cursor with
  | error e cursor => simp only [step, Format.evalScalar, hx, bind_assoc, pure_bind]
  | ok product cursor =>
    have heval : Format.evalScalar code x m.cursor =
        (make code cursor.position product).run >>= fun outcome => pure (cursor, outcome) := by
      simp only [Format.evalScalar, hx]
    rw [heval, bind_assoc]
    simp only [step, hx]
    refine congrArg _ (funext fun outcome => ?_)
    cases outcome <;> rfl

/-- A closing step makes the container of the innermost group. -/
lemma step_closing (cursor : ArgCursor) (bottom : List Ref) {kind : GroupKind} {refs : List Ref}
    (outer : List (List Ref)) (he : kind = .dict → Even refs.length) :
    (⟨cursor, bottom, refs.reverse :: outer⟩ : Machine).step ⟨kind.closer, .closing kind⟩ =
      Context.attempt (Format.container kind refs) >>= fun outcome =>
        match outcome with
        | .ok r => pure ((⟨cursor, bottom, outer⟩ : Machine).push r, .ok ())
        | .error e => pure (⟨cursor, bottom, outer⟩, .error (.raised e)) := by
  have hclose : closeGroup kind refs.reverse.reverse = Format.container kind refs := by
    rw [List.reverse_reverse, Format.closeGroup_eq_container he]
  rw [← hclose]
  rfl

lemma performs_scalar (m : Machine) (code : Char) (x : Scalar) (rest : List Step) (c : Context) :
    Performs m [⟨code, .scalar x⟩] rest c push ((Format.Tree.scalar code x).eval m.cursor c) := by
  rw [Format.Tree.eval]
  cases heval : Format.evalScalar code x m.cursor c with
  | error y c' =>
    rw [bind_stopped heval]
    refine exec_cons_stopped ?_
    rw [step_scalar, bind_stopped heval]
  | ok result c' =>
    obtain ⟨cursor, outcome⟩ := result
    rw [bind_ok heval]
    cases outcome with
    | ok r =>
      refine exec_cons_ok ?_
      rw [step_scalar, bind_ok heval]
      rfl
    | error e =>
      refine ⟨_, .bare _ e, exec_cons_failed ?_⟩
      rw [step_scalar, bind_ok heval]
      rfl

lemma length_of_evalItems {ts : List Format.Tree} {cursor cursor' : ArgCursor} {refs : List Ref}
    {c c' : Context} (h : Format.evalItems ts cursor c = .ok (cursor', .ok refs) c') :
    refs.length = ts.length := by
  induction ts generalizing cursor refs c with
  | nil =>
    rw [Format.evalItems] at h
    cases h
    rfl
  | cons t ts ih =>
    rw [Format.evalItems] at h
    obtain ⟨⟨cursor₁, _ | r⟩, c₁, -, h₁⟩ := bind_inv h
    · cases h₁
    · obtain ⟨⟨cursor₂, _ | rs⟩, c₂, h₂, h₃⟩ := bind_inv h₁
      · cases h₃
      · cases h₃
        rw [List.length_cons, List.length_cons, ih h₂]

mutual

/-- The steps of an item do what evaluating the item does. -/
lemma performs_tree (t : Format.Tree) (ht : t.Paired) (m : Machine) (rest : List Step)
    (c : Context) : Performs m t.steps rest c push (t.eval m.cursor c) := by
  match t with
  | .scalar code x =>
    rw [Format.steps_scalar]
    exact performs_scalar m code x rest c
  -- The opening step only begins a group, so the items run on an empty innermost group, with the
  -- closing step behind them.
  | .group kind items =>
    obtain ⟨he, hp⟩ := (Format.paired_group kind items).mp ht
    have hopened : m.exec ((Format.Tree.group kind items).steps ++ rest) c =
        (⟨m.cursor, m.bottom, [] :: m.groups⟩ : Machine).exec
          (Format.stepsOf items ++ ⟨kind.closer, .closing kind⟩ :: rest) c := by
      rw [Format.steps_group, List.cons_append, List.append_assoc, List.singleton_append]
      exact exec_cons_ok rfl
    have hitems := performs_items items hp ⟨m.cursor, m.bottom, [] :: m.groups⟩
      (⟨kind.closer, .closing kind⟩ :: rest) c
    rw [Format.Tree.eval]
    cases heval : Format.evalItems items m.cursor c with
    | error y c' =>
      rw [heval] at hitems
      rw [bind_stopped heval]
      exact hopened.trans hitems
    | ok result c' =>
      obtain ⟨cursor, _ | refs⟩ := result
      · rw [heval] at hitems
        obtain ⟨m', habandons, hexec⟩ := hitems
        rw [bind_ok heval]
        exact ⟨m', habandons.enclosed, hopened.trans hexec⟩
      -- All items were made. The grammar says that a dict has an even number of them, and one value
      -- is made of each item.
      · have hlen := length_of_evalItems heval
        rw [heval] at hitems
        have hclosed : m.exec ((Format.Tree.group kind items).steps ++ rest) c =
            (⟨cursor, m.bottom, refs.reverse :: m.groups⟩ : Machine).exec
              (⟨kind.closer, .closing kind⟩ :: rest) c' := by
          rw [hopened, hitems, pushAll_inside, List.append_nil]
        have hstep := step_closing cursor m.bottom m.groups (fun hk => hlen ▸ he hk)
        rw [bind_ok heval]
        show Performs m _ rest c push ((Context.attempt (Format.container kind refs) >>= _) c')
        cases hmade : Context.attempt (Format.container kind refs) c' with
        | error y c'' =>
          rw [bind_stopped hmade]
          refine hclosed.trans (exec_cons_stopped ?_)
          rw [hstep, bind_stopped hmade]
        | ok outcome c'' =>
          rw [bind_ok hmade]
          cases outcome with
          | ok r =>
            refine hclosed.trans (exec_cons_ok ?_)
            rw [hstep, bind_ok hmade]
            rfl
          -- The items are gone into the container that could not be made, so nothing of this group
          -- is left over.
          | error e =>
            refine ⟨_, .bare _ (.raised e), hclosed.trans (exec_cons_failed ?_)⟩
            rw [hstep, bind_ok hmade]
            rfl

/-- The steps of items do what evaluating the items does. -/
lemma performs_items (ts : List Format.Tree) (ht : Format.PairedAll ts) (m : Machine)
    (rest : List Step) (c : Context) :
    Performs m (Format.stepsOf ts) rest c pushAll (Format.evalItems ts m.cursor c) := by
  match ts with
  | [] =>
    rw [Format.stepsOf_nil, Format.evalItems]
    exact rfl
  -- The first item is run with the steps of the others in its `rest`.
  | t :: ts =>
    obtain ⟨hp, hps⟩ := (Format.pairedAll_cons t ts).mp ht
    have htree := performs_tree t hp m (Format.stepsOf ts ++ rest) c
    have hsteps : m.exec (Format.stepsOf (t :: ts) ++ rest) c =
        m.exec (t.steps ++ (Format.stepsOf ts ++ rest)) c := by
      rw [Format.stepsOf_cons, List.append_assoc]
    rw [Format.evalItems]
    cases heval : t.eval m.cursor c with
    | error y c' =>
      rw [heval] at htree
      rw [bind_stopped heval]
      exact hsteps.trans htree
    | ok result c' =>
      obtain ⟨cursor, _ | r⟩ := result
      · rw [heval] at htree
        obtain ⟨m', habandons, hexec⟩ := htree
        rw [bind_ok heval]
        exact ⟨m', habandons, hsteps.trans hexec⟩
      · rw [heval] at htree
        have hpushed : m.exec (Format.stepsOf (t :: ts) ++ rest) c =
            ((⟨cursor, m.bottom, m.groups⟩ : Machine).push r).exec (Format.stepsOf ts ++ rest) c' :=
          hsteps.trans htree
        -- The others begin with the arguments where the first item left them, but on the groups of
        -- the first machine: pushing does not look at the arguments.
        have hitems := performs_items ts hps
          ((⟨cursor, m.bottom, m.groups⟩ : Machine).push r) rest c'
        rw [cursor_push] at hitems
        rw [bind_ok heval]
        show Performs m _ rest c pushAll ((Format.evalItems ts cursor >>= _) c')
        cases hrest : Format.evalItems ts cursor c' with
        | error y c'' =>
          rw [hrest] at hitems
          rw [bind_stopped hrest]
          exact hpushed.trans hitems
        | ok result c'' =>
          obtain ⟨cursor', u | refs⟩ := result
          · rw [hrest] at hitems
            obtain ⟨m', habandons, hexec⟩ := hitems
            rw [bind_ok hrest]
            refine ⟨m', .after (r := r) ?_, hpushed.trans hexec⟩
            rw [push_at cursor cursor']
            exact habandons
          · rw [hrest] at hitems
            rw [bind_ok hrest]
            refine (hpushed.trans hitems).trans ?_
            rw [pushAll_cons, push_at cursor cursor']

end

end Machine

namespace Format

/-- What is released for a failed evaluation is what the machine owns. -/
lemma owned_of_abandons {cursor : ArgCursor} {u : Unfinished} {m : Machine}
    (h : Machine.Abandons ⟨cursor, [], []⟩ u m) :
    m.owned = cursor.args.flatMap BuildArg.owned ++ u.inner ++ u.items := by
  obtain ⟨opened, hi, rfl⟩ := h
  rw [Machine.pushAll_outside, List.append_nil, List.append_nil, hi]
  simp [Machine.owned]

lemma run_eq_evalFormat {f : Format} {ts : List Tree} (hs : f.steps = stepsOf ts)
    (hp : PairedAll ts) (args : List BuildArg) : f.run args = evalFormat ts args := by
  show ExceptT.mk _ = ExceptT.mk _
  refine congrArg ExceptT.mk (funext fun c => ?_)
  have hitems := Machine.performs_items ts hp (.start args) [] c
  show ((Machine.start args).exec f.steps >>= _) c =
    (evalItems ts (Machine.start args).cursor >>= _) c
  rw [hs]
  cases heval : evalItems ts (Machine.start args).cursor c with
  | error y c' =>
    rw [heval] at hitems
    have hexec : (Machine.start args).exec (stepsOf ts ++ []) c = .error y c' := hitems
    rw [List.append_nil] at hexec
    rw [bind_stopped hexec, bind_stopped heval]
  | ok result c' =>
    obtain ⟨cursor, u | refs⟩ := result
    · rw [heval] at hitems
      obtain ⟨m, habandons, hexec⟩ := hitems
      rw [List.append_nil] at hexec
      rw [bind_ok hexec, bind_ok heval]
      have howned := owned_of_abandons habandons
      obtain ⟨opened, hi, rfl⟩ := habandons
      simp only [Machine.release, howned]
    · rw [heval] at hitems
      have hexec : (Machine.start args).exec (stepsOf ts ++ []) c =
          .ok (⟨cursor, refs.reverse, []⟩, .ok ()) c' := by
        refine Eq.trans hitems ?_
        show ((⟨cursor, [], []⟩ : Machine).pushAll refs).exec [] c' = _
        rw [Machine.pushAll_outside, List.append_nil]
        rfl
      rw [List.append_nil] at hexec
      rw [bind_ok hexec, bind_ok heval]
      obtain ⟨_ | ⟨arg, extra⟩, position⟩ := cursor
      · simp only [List.reverse_reverse, result_eq_bundle]
      · simp [Machine.release, Machine.owned]

/-- **A build computes what the items of the format describe.** An accepted format has the items of
its text, and a build from any arguments on any context does what evaluating them from left to
right does: it makes the same value or fails with the same error, and leaves the same context
behind. On the way every closing step finds a group to close, with keys and values in turn if it
closes a dict, and in the end no group is open and the items outside all groups are as many as the
format says. -/
theorem build_eq_evaluate {source : String} {f : Format} (h : compile source = .ok f) :
    ∃ ts, Items false source.toList ts ∧ f.steps = stepsOf ts ∧
      ∀ args, f.build args = evaluate source ts args ∧
        (∀ done code kind rest c m c', f.steps = done ++ ⟨code, .closing kind⟩ :: rest →
          (Machine.start args).exec done c = .ok (m, .ok ()) c' →
          ∃ items outer, m.groups = items :: outer ∧ (kind = .dict → Even items.length)) ∧
        (∀ c m c', (Machine.start args).exec f.steps c = .ok (m, .ok ()) c' →
          m.groups = [] ∧ m.bottom.length = f.itemCount) := by
  obtain ⟨ts, hts, hf⟩ := (compile_eq_ok_iff source f).mp h
  have hsteps : f.steps = stepsOf ts := congrArg Format.steps hf
  refine ⟨ts, hts, hsteps, fun args => ⟨?_, Machine.frames_of_compile h args⟩⟩
  show ExceptT.mk _ = ExceptT.mk _
  rw [run_eq_evalFormat hsteps hts.paired, source_of_compile h]

/-- A list and an empty tuple in a dict, from a null text, a number, a handle that is borrowed and
one that is given away: the items describe the dict that is built. -/
theorem build_eq_evaluate_nested : ∃ f ts c', compile "{s:[iO],N:()}" = .ok f ∧
    Items false "{s:[iO],N:()}".toList ts ∧
    (evaluate "{s:[iO],N:()}" ts [.text none, .int 5, .borrowed (some Heap.trueRef),
      .stolen (some Heap.falseRef)]).run (.fresh none .silent) = .ok (.ok ⟨6⟩) c' ∧
    c'.heap.object? ⟨6⟩ = some (.dict ⟨[⟨.none, Heap.noneRef, ⟨5⟩⟩,
      ⟨.int 0, Heap.falseRef, Heap.emptyTupleRef⟩]⟩) ∧
    c'.heap.object? ⟨5⟩ = some (.list (.filled [⟨4⟩, Heap.trueRef])) ∧
    c'.heap.object? ⟨4⟩ = some (.int 5) := by
  obtain ⟨f, c', hf, hrun, hdict, hlist, hint⟩ : ∃ f c', compile "{s:[iO],N:()}" = .ok f ∧
      (f.build [.text none, .int 5, .borrowed (some Heap.trueRef),
        .stolen (some Heap.falseRef)]).run (.fresh none .silent) = .ok (.ok ⟨6⟩) c' ∧
      c'.heap.object? ⟨6⟩ = some (.dict ⟨[⟨.none, Heap.noneRef, ⟨5⟩⟩,
        ⟨.int 0, Heap.falseRef, Heap.emptyTupleRef⟩]⟩) ∧
      c'.heap.object? ⟨5⟩ = some (.list (.filled [⟨4⟩, Heap.trueRef])) ∧
      c'.heap.object? ⟨4⟩ = some (.int 5) := ⟨_, _, rfl, rfl, rfl, rfl, rfl⟩
  obtain ⟨ts, hts, -, h⟩ := build_eq_evaluate hf
  rw [(h _).1] at hrun
  exact ⟨f, ts, c', hf, hts, hrun, hdict, hlist, hint⟩

end Format

end NativeCall
