import NativeCall.Proofs.Build.Frames
import NativeCall.Proofs.Build.Reading
import NativeCall.Proofs.Heap.Dicts

/-!
# Builds neither leak nor release too much

A build owns the references that its caller gave away and those of everything it has made, and a
machine knows all of them at any time: `Machine.owned`. Every step transfers what the machine owns
before it to what it owns after it (`step_transfers`), whether it makes something, closes a group or
fails, and so does every run of steps (`exec_transfers`).

A build that fails releases what its machine owns, and one that ends turns it into the result. So
either way the heap has lost the references that the caller gave away and gained the result:
`build_balanced`.

## What is compared

That nothing leaks cannot be read off the heap after a build alone, since objects that the caller
gave away may have been freed on the way, and their slots used again. `Balanced` therefore compares
two runs on the same heap: one that only releases what the caller gave away, and the build, after
which the result is released too. Both show the same heap in the end (`Heap.view`), up to the order
in which slots become empty and what has been charged.

Behind it is `Trade`, a relation between two heaps that says how the references owned in one became
those owned in the other, while some others stayed where they were. It is closed under composition,
which is what makes one lemma per step enough. References are multisets there: the order in which
the machine keeps them decides which slot is freed first and nothing else, and `coe_owned` forgets
it at one place.

## Failures

The exits of a step are where a leak would be. A reading that fails hands back what it took, and a
group that cannot be closed has released its items, so in both cases the machine goes on owning less
than before, and never the same reference twice. No case needs the step to succeed, and for the same
reason `exec_transfers` is stated for any outcome.
-/

namespace NativeCall

open Heap

namespace Machine

variable {kept : Multiset Ref}

/-! ## What a machine owns -/

/-- The references to everything that a machine has made and still owns. -/
def made (m : Machine) : Multiset Ref :=
  ↑m.groups.flatten + ↑m.bottom

lemma made_push (m : Machine) (r : Ref) : (m.push r).made = {r} + m.made := by
  obtain ⟨cursor, bottom, _ | ⟨items, outer⟩⟩ := m
  · show (↑([] : List (List Ref)).flatten + ↑(r :: bottom) : Multiset Ref) = _
    rw [← Multiset.cons_coe, ← Multiset.singleton_add, add_left_comm]
    rfl
  · show (↑((r :: items) :: outer).flatten + ↑bottom : Multiset Ref) = _
    rw [List.flatten_cons, List.cons_append, ← Multiset.cons_coe, ← Multiset.singleton_add,
      add_assoc]
    rfl

lemma coe_flatMap_reverse (groups : List (List Ref)) :
    (↑(groups.reverse.flatMap List.reverse) : Multiset Ref) = ↑groups.flatten := by
  induction groups with
  | nil => rfl
  | cons items groups ih =>
    rw [List.reverse_cons, List.flatMap_append, ← Multiset.coe_add, ih, List.flatten_cons,
      ← Multiset.coe_add, add_comm]
    simp

lemma coe_owned (m : Machine) : (m.owned : Multiset Ref) = stolen m.cursor.args + m.made := by
  rw [owned, ← Multiset.coe_add, ← Multiset.coe_add, coe_flatMap_reverse, Multiset.coe_reverse,
    add_assoc]
  rfl

/-! ## Making one item -/

lemma transfers_nullObject :
    Transfers kept nullObject.run 0 (ofOutcome (fun r => {r}) 0) := by
  intro c others _ hc
  have htake : (ExceptT.lift Context.takeError : ExceptT BuildError ContextM _).run c =
      .ok (.ok c.pending) { c with pending := none } := rfl
  cases he : c.pending with
  | some e =>
    rw [he] at htake
    exact ⟨.error (.raised e), _, run_bind_ok htake, .refl hc⟩
  | none =>
    rw [he] at htake
    exact ⟨.error (.call .nullObject), _, run_bind_ok htake, .refl hc⟩

lemma transfers_retained (code : Char) (position : Nat) (r : Ref) :
    Transfers kept (make code position (.retained r)).run 0 (ofOutcome (fun r => {r}) 0) := by
  intro c others _ hc
  cases hlive : c.heap.slot? r with
  | none =>
    have hdead : c.heap.isLive r = false := by rw [isLive, hlive]; rfl
    refine ⟨.error (.call (.argMismatch position code)), c, ?_, .refl hc⟩
    refine (run_bind_ok (run_getThe c)).trans ?_
    rw [hdead]
    rfl
  | some e =>
    have hlive' : c.heap.isLive r = true := by rw [isLive, hlive]; rfl
    rw [zero_add] at hc
    obtain ⟨h', hinc, ht⟩ := Trade.incRef hc hlive
    refine ⟨.ok r, { c with heap := h' }, ?_, ht⟩
    refine (run_bind_ok (run_getThe c)).trans ?_
    rw [hlive']
    have hretain : retain r c.heap = .ok r h' := bind_ok hinc
    exact bind_ok (Context.onHeap_ok hretain)

/-- Making what a scalar asked for takes the product over. -/
lemma transfers_make (code : Char) (position : Nat) {p : Product} (hp : p.Fits (·.Neutral kept)) :
    Transfers kept (make code position p).run p.owned (ofOutcome (fun r => {r}) 0) := by
  cases p with
  | none => exact .run_lift (Transfers.singleton (r := noneRef) rfl)
  | fresh o =>
    have hcreate : Transfers kept (Context.attempt (create o)) ↑o.children
        (ofOutcome (fun r => {r}) 0) := .onHeap (.create o)
    rw [show o.children = [] from hp] at hcreate
    exact .run_adapt (x := ExceptT.mk (Context.attempt (create o))) hcreate
  | retained r => exact transfers_retained code position r
  | taken r => exact .run_pure r rfl
  | converted a => exact .run_adapt (Conversion.neutral_iff.mp (hp a rfl))
  | null => exact transfers_nullObject

/-- Closing a group takes its items over. -/
lemma transfers_closeGroup (kind : GroupKind) (items : List Ref) :
    Transfers kept (closeGroup kind items).run items (ofOutcome (fun r => {r}) 0) := by
  cases kind with
  | tuple => exact .newTuple items
  | list => exact .newList (.filled items)
  | dict =>
    have hpairs : Transfers kept (addPairs .empty items).run (↑items + ↑Dict.empty.refs) _ :=
      .addPairs items .empty Dict.distinct_empty
    rw [show (↑Dict.empty.refs : Multiset Ref) = 0 from rfl, add_zero] at hpairs
    exact .run_bind hpairs (fun _ d _ _ => .newDict d)

lemma transfers_result (items : List Ref) :
    Transfers kept (result items).run items (ofOutcome (fun r => {r}) 0) := by
  match items with
  | [] => exact .run_lift (Transfers.singleton (r := noneRef) rfl)
  | [r] => exact .run_pure r rfl
  | r :: s :: rest => exact .newTuple (r :: s :: rest)

/-! ## Steps and runs -/

lemma owned_push (m : Machine) (r : Ref) :
    ((m.push r).owned : Multiset Ref) = {r} + m.owned := by
  rw [coe_owned, coe_owned, made_push, cursor_push, add_left_comm]

/-- A machine goes from one to another without a leak. -/
def Carries (kept : Multiset Ref) (m : Machine) (c : Context)
    (result : EStateM.Result Misuse Context (Machine × Except BuildError Unit)) : Prop :=
  ∀ others, kept ≤ others → c.heap.Counted (m.owned + others) →
    ∃ m' outcome c', result = .ok (m', outcome) c' ∧ Trade c.heap m.owned c'.heap m'.owned others

/-- Opening a group moves no reference. -/
lemma opening_transfers (m : Machine) (code : Char) (kind : GroupKind) (c : Context) :
    Carries kept m c (m.step ⟨code, .opening kind⟩ c) := by
  intro others hk hc
  have howned : ((⟨m.cursor, m.bottom, [] :: m.groups⟩ : Machine).owned : Multiset Ref) =
      m.owned := by
    rw [coe_owned, coe_owned, made, List.flatten_cons, List.nil_append]
    rfl
  refine ⟨⟨m.cursor, m.bottom, [] :: m.groups⟩, .ok (), c, rfl, ?_⟩
  rw [howned]
  exact .refl hc

lemma closing_transfers (m : Machine) (code : Char) (kind : GroupKind) (c : Context) :
    Carries kept m c (m.step ⟨code, .closing kind⟩ c) := by
  obtain ⟨cursor, bottom, groups⟩ := m
  intro others hk hc
  cases groups with
  | nil => exact ⟨_, _, c, rfl, .refl hc⟩
  | cons items outer =>
    have howned : ((⟨cursor, bottom, items :: outer⟩ : Machine).owned : Multiset Ref) =
        ↑items.reverse + (⟨cursor, bottom, outer⟩ : Machine).owned := by
      rw [coe_owned, coe_owned, made, made, List.flatten_cons, ← Multiset.coe_add,
        Multiset.coe_reverse, add_assoc, add_left_comm]
    -- The items go into the container, or are released by the attempt; the rest of the machine is a
    -- frame around that.
    have hclose : Transfers kept (Context.attempt (closeGroup kind items.reverse)) _ _ :=
      .onHeap (transfers_closeGroup kind items.reverse)
    rw [howned] at hc ⊢
    obtain ⟨outcome, c', hrun, ht⟩ := hclose.frame c others hk hc
    cases outcome with
    | ok r =>
      refine ⟨_, .ok (), c', bind_ok hrun, ?_⟩
      rw [owned_push]
      exact ht
    | error e =>
      refine ⟨⟨cursor, bottom, outer⟩, .error (.raised e), c', bind_ok hrun, ?_⟩
      rw [← zero_add (Multiset.ofList _)]
      exact ht

lemma scalar_transfers {m : Machine} (hm : m.Awaits (·.Neutral kept)) (code : Char) (x : Scalar)
    (c : Context) : Carries kept m c (m.step ⟨code, .scalar x⟩ c) := by
  obtain ⟨cursor, bottom, groups⟩ := m
  intro others hk hc
  have howned : ∀ cursor, ((⟨cursor, bottom, groups⟩ : Machine).owned : Multiset Ref) =
      stolen cursor.args + (↑groups.flatten + ↑bottom) := fun _ => coe_owned _
  rw [howned] at hc ⊢
  cases hx : x.read code cursor with
  | error e cursor' =>
    -- What the reading hands back is released here, before the machine gives up everything else.
    rw [Scalar.stolen_read_error hx, add_assoc (↑e.rejected : Multiset Ref)] at hc ⊢
    have hrelease : Transfers kept (Context.onHeap (decRefs e.rejected)) _ _ :=
      .onHeap (.decRefs e.rejected)
    obtain ⟨_, c', hrun, ht⟩ := hrelease.frame c others hk hc
    refine ⟨⟨cursor', bottom, groups⟩, .error e.error, c', ?_, ?_⟩
    · simp only [step, hx]
      exact bind_ok hrun
    · rw [howned, ← zero_add (stolen cursor'.args + _)]
      exact ht
  | ok product cursor' =>
    rw [Scalar.stolen_read hx, add_assoc product.owned] at hc ⊢
    have hmake := transfers_make code cursor'.position (Scalar.fits_read hm hx)
    obtain ⟨outcome, c', hrun, ht⟩ := hmake.frame c others hk hc
    cases outcome with
    | ok r =>
      refine ⟨(⟨cursor', bottom, groups⟩ : Machine).push r, .ok (), c', ?_, ?_⟩
      · simp only [step, hx]
        exact bind_ok hrun
      · rw [owned_push, howned]
        exact ht
    | error e =>
      refine ⟨⟨cursor', bottom, groups⟩, .error e, c', ?_, ?_⟩
      · simp only [step, hx]
        exact bind_ok hrun
      · rw [howned, ← zero_add (stolen cursor'.args + _)]
        exact ht

/-- Every step carries a machine on, also where it fails. -/
lemma step_transfers {m : Machine} (hm : m.Awaits (·.Neutral kept)) (s : Step) (c : Context) :
    Carries kept m c (m.step s c) := by
  obtain ⟨code, d⟩ := s
  cases d with
  | opening kind => exact opening_transfers m code kind c
  | closing kind => exact closing_transfers m code kind c
  | scalar x => exact scalar_transfers hm code x c

/-- Every run carries a machine on. -/
lemma exec_transfers {m : Machine} (hm : m.Awaits (·.Neutral kept)) (steps : List Step)
    (c : Context) : Carries kept m c (m.exec steps c) := by
  induction steps generalizing m c with
  | nil => exact fun others _ hc => ⟨m, .ok (), c, rfl, .refl hc⟩
  -- The machine and the runtime change from step to step, and a step that fails ends the run.
  | cons s steps ih =>
    intro others hk hc
    obtain ⟨m', outcome, c', hstep, ht⟩ := step_transfers hm s c others hk hc
    rw [exec, bind_ok hstep]
    cases outcome with
    | error e => exact ⟨m', .error e, c', rfl, ht⟩
    | ok _ =>
      obtain ⟨m'', outcome, c'', hexec, ht'⟩ := ih (hm.step hstep) c' others hk ht.counted
      exact ⟨m'', outcome, c'', hexec, ht.trans ht'⟩

lemma coe_owned_start (args : List BuildArg) :
    ((start args).owned : Multiset Ref) = stolen args := by
  rw [coe_owned]
  exact add_zero _

/-- Giving a build up releases what it owns. -/
lemma transfers_release (m : Machine) : Transfers kept m.release m.owned (fun _ => 0) :=
  .onHeap (.decRefs m.owned)

end Machine

/-! ## Builds -/

namespace Format

variable {kept : Multiset Ref} {args : List BuildArg}

lemma transfers_run {source : String} {f : Format} (hf : compile source = .ok f)
    (hargs : ∀ arg ∈ args, arg.Neutral kept) :
    Transfers kept (f.run args).run (stolen args) (ofOutcome (fun r => {r}) 0) := by
  intro c others hk hc
  rw [← Machine.coe_owned_start] at hc ⊢
  have hstart : (Machine.start args).Awaits (·.Neutral kept) := hargs
  obtain ⟨m, outcome, c', hexec, ht⟩ := Machine.exec_transfers hstart f.steps c others hk hc
  have hrelease : ∀ e, ∃ c'',
      (do m.release; return .error e : ContextM (Except BuildError Ref)) c' = .ok (.error e) c'' ∧
        Trade c.heap (Machine.start args).owned c''.heap 0 others := by
    intro e
    obtain ⟨_, c'', hrun, ht'⟩ := m.transfers_release c' others hk ht.counted
    exact ⟨c'', bind_ok hrun, ht.trans ht'⟩
  cases outcome with
  | error e =>
    obtain ⟨c'', hrun, ht'⟩ := hrelease e
    exact ⟨.error e, c'', (bind_ok hexec).trans hrun, ht'⟩
  | ok _ =>
    obtain ⟨⟨args', position⟩, bottom, groups⟩ := m
    cases args' with
    -- Arguments that are left over are still owned by the machine, and so is everything that was
    -- made.
    | cons arg extra =>
      obtain ⟨c'', hrun, ht'⟩ := hrelease (.call (.extraArgs (arg :: extra).length))
      exact ⟨_, c'', (bind_ok hexec).trans hrun, ht'⟩
    | nil =>
      -- An accepted format leaves no group open, so all that the machine owns are the items at the
      -- bottom.
      obtain ⟨hg, -⟩ := (Machine.frames_of_compile hf args).2 c _ c' hexec
      obtain rfl : groups = [] := hg
      have howned : ((⟨⟨[], position⟩, bottom, []⟩ : Machine).owned : Multiset Ref) =
          ↑bottom.reverse := rfl
      have hresult : Transfers kept (Context.attempt (Machine.result bottom.reverse)) _ _ :=
        .onHeap (Machine.transfers_result bottom.reverse)
      have hc' := ht.counted
      rw [howned] at hc' ht
      obtain ⟨outcome, c'', hrun, ht'⟩ := hresult c' others hk hc'
      refine ⟨outcome.mapError .raised, c'', (bind_ok hexec).trans (bind_ok hrun), ht.trans ?_⟩
      cases outcome <;> exact ht'

lemma transfers_traced {x : ExceptT BuildError ContextM Ref} {take : Multiset Ref}
    {give : Except BuildError Ref → Multiset Ref} (hx : Transfers kept x.run take give)
    (event : Except BuildError Ref → TraceEvent) :
    Transfers kept (ExceptT.mk do
      let outcome ← x.run
      Context.trace (event outcome)
      return outcome : ExceptT BuildError ContextM Ref).run take give := by
  intro c others hk hc
  obtain ⟨outcome, c', hrun, ht⟩ := hx c others hk hc
  exact ⟨outcome, _, bind_ok hrun, ht⟩

lemma transfers_build {source : String} {f : Format} (hf : compile source = .ok f)
    (hargs : ∀ arg ∈ args, arg.Neutral kept) :
    Transfers kept (f.build args).run (stolen args) (ofOutcome (fun r => {r}) 0) :=
  transfers_traced (transfers_run hf hargs) (fun outcome => .build f.source outcome.isOk)

end Format

lemma transfers_buildValue {kept : Multiset Ref} {args : List BuildArg} (format : String)
    (hargs : ∀ arg ∈ args, arg.Neutral kept) :
    Transfers kept (buildValue format args).run (stolen args) (ofOutcome (fun r => {r}) 0) := by
  cases hf : Format.compile format with
  | ok f =>
    have hbuild : buildValue format args = f.build args := by rw [buildValue, hf]
    rw [hbuild]
    exact Format.transfers_build hf hargs
  | error e =>
    intro c others hk hc
    have hdrop : Transfers kept (Context.onHeap (decRefs (args.flatMap BuildArg.owned))) _ _ :=
      .onHeap (.decRefs _)
    obtain ⟨_, c', hrun, ht⟩ := hdrop c others hk hc
    refine ⟨.error (.format e), { c' with tracer := c'.tracer.record (.build format false) },
      ?_, ht⟩
    rw [buildValue, hf]
    exact bind_ok hrun

/-! ## The balance of a build -/

/-- A computation is balanced on a runtime if it ends, and its effect on the heap is to release the
references that the caller gave away with its arguments, and beyond that to make the result: once a
result is released, too, the heap looks as if there had been those releases only. The references
`kept` of others stay counted. -/
def Balanced (kept : Multiset Ref) (args : List BuildArg) (c : Context)
    (x : ExceptT BuildError ContextM Ref) : Prop :=
  ∃ h, decRefs (args.flatMap BuildArg.owned) c.heap = .ok () h ∧
    ∃ outcome c', x.run c = .ok outcome c' ∧
      match outcome with
      | .error _ => c'.heap.Counted kept ∧ c'.heap.view = h.view
      | .ok r => c'.heap.Counted (r ::ₘ kept) ∧
          ∃ h', decRef r c'.heap = .ok () h' ∧ h'.view = h.view

lemma balanced_of_transfers {kept : Multiset Ref} {args : List BuildArg} {c : Context}
    {x : ExceptT BuildError ContextM Ref}
    (hx : Transfers kept x.run (stolen args) (ofOutcome (fun r => {r}) 0))
    (hc : c.heap.Counted (stolen args + kept)) : Balanced kept args c x := by
  obtain ⟨h, hd, hc₁⟩ := hc.decRefs
  have hs := settles_of_decRefs hd
  obtain ⟨outcome, c', hrun, ht⟩ := hx c kept le_rfl hc
  refine ⟨h, hd, outcome, c', hrun, ?_⟩
  have hafter := ht.settles 0 h.view (by rwa [add_zero])
  rw [add_zero] at hafter
  cases outcome with
  | error e =>
    refine ⟨?_, (Settles.done _).unique hafter⟩
    have hc' := ht.counted
    rwa [show (ofOutcome (fun r => {r}) 0 (Except.error e : Except BuildError Ref)) = 0 from rfl,
      zero_add] at hc'
  | ok r =>
    refine ⟨ht.counted, ?_⟩
    rw [decRef_eq_decRefs]
    exact decRefs_of_settles hafter

/-- **Builds are balanced.** Whatever the format string, the arguments, the pending error, the
limits of the heap and what is on it: if the counts of the heap are right, the caller owns what it
gives away, and conversions are neutral, then a build ends, and it neither leaks a reference nor
releases one too often. -/
theorem build_balanced {kept : Multiset Ref} {args : List BuildArg} {c : Context}
    (hargs : ∀ arg ∈ args, arg.Neutral kept) (hc : c.heap.Counted (stolen args + kept)) :
    (∀ format, Balanced kept args c (buildValue format args)) ∧
    (∀ source f, Format.compile source = .ok f → Balanced kept args c (f.build args)) :=
  ⟨fun format => balanced_of_transfers (transfers_buildValue format hargs) hc,
    fun _ _ hf => balanced_of_transfers (Format.transfers_build hf hargs) hc⟩

/-- A dict of an object that the caller gives away and one that a conversion makes. -/
theorem build_balanced_dict :
    Balanced 0
      [.stolen (some ⟨4⟩), .convert (some (ExceptT.mk (Context.attempt (create (.int 5)))))]
      { Context.fresh none .silent with heap := ((Heap.fresh .unlimited).place
        ⟨1, false, .str "key"⟩).2 }
      (buildValue "{N:O&}"
        [.stolen (some ⟨4⟩),
          .convert (some (ExceptT.mk (Context.attempt (create (.int 5)))))]) := by
  have hplaced := (counted_fresh .unlimited).placed ⟨1, false, .str "key"⟩
  have hfresh : (fresh .unlimited).Counted (↑(Object.str "key").children + 0) :=
    counted_fresh .unlimited
  have hneutral : Conversion.Neutral 0 (ExceptT.mk (Context.attempt (create (.int 5)))) :=
    Conversion.neutral_iff.mpr (.onHeap (.create (.int 5)))
  refine (build_balanced (fun arg harg a ha => ?_) ?_).1 "{N:O&}"
  · rcases List.mem_cons.mp harg with rfl | harg
    · cases ha
    · obtain rfl := List.mem_singleton.mp harg
      cases ha
      exact hneutral
  · exact hplaced.counted rfl hfresh

end NativeCall
