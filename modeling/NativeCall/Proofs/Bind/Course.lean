import NativeCall.Proofs.Bind.Repeating
import NativeCall.Proofs.Heap.Effects

/-!
# The course of a bind

What a bind does to a runtime, and what it answers, is said here for every runtime, however it came
about. Interning looks a text up and otherwise asks the tracker; it demands no slot, so neither it
nor a bind is ever stopped.

`Heap.InternsAll` is the course of interning the names of a declaration: names that were not
interned before get interned, one after the other, until the tracker refuses one. `Call.Learns` is
the course of `internNames`, where the cache comes in, and `Call.Course` that of a bind. What is
said of binds in general follows from their courses by cases.

## Why another description

In a reachable runtime more is known of a bind, what it answers among it. But a program can call a
function while another call is under way, from a conversion or from the body of a native function,
and what the heap is like then depends on foreign code. The statements about traces, about interning
for good and about everything that programs do are therefore about arbitrary runtimes, and this
module is what they use of a bind.

A course has the context at the end as an index, so a case distinction shows at once which parts of
the runtime a bind has changed: the heap by a history of interning (`Learns.history`), the cache by
one entry, and the trace by one event for the names and one for the answer (`Learns.names_cases`,
`bind_course`).

## Errors of interning

Matching has faults of its own, and none of them is an error that interning could raise. So the
answer of a bind tells whether interning failed (`BindError.isInterning`), and in this case the
cache has learnt nothing, and the names in front of the refused one are interned
(`Course.of_isInterning`). The lemmas `isInterning_of_…` go through everything else that can fail.
-/

namespace NativeCall

namespace Heap

variable {h h' : Heap} {r : Ref} {t : String}

/-! ## Interning one text -/

/-- A text is known, or it is new; then the tracker refuses it, or it gets interned. -/
lemma intern_cases (h : Heap) (t : String) :
    (∃ r, h.internedRef? t = some r ∧ (intern t).run h = .ok (.ok r) h) ∨
    (∃ e, h.internedRef? t = none ∧ (intern t).run h = .ok (.error e) h) ∨
    ∃ r h', h.internedRef? t = none ∧ (intern t).run h = .ok (.ok r) h' := by
  cases hr : h.internedRef? t with
  | some r => exact .inl ⟨r, rfl, intern_known hr⟩
  | none =>
    cases ht : h.tracker.charge (Object.str t).size with
    | error e => exact .inr (.inl ⟨e, rfl, intern_refused hr ht⟩)
    | ok tracker =>
      obtain ⟨r, h', hrun⟩ := intern_paid hr ht
      exact .inr (.inr ⟨r, h', rfl, hrun⟩)

/-! ## Interning many texts -/

/-- The course of interning texts one after the other. -/
structure InternsAll (h : Heap) (texts : List String) (outcome : Except ResourceError (List Ref))
    (h' : Heap) : Prop where
  /-- Texts get interned that were not interned before, and nothing else happens. -/
  history : ∃ log, History h log h' ∧ ∀ event ∈ log, ∃ r t,
    event = .interned r t ∧ t ∈ texts ∧ h.internedRef? t = none
  known : ∀ t r, h.internedRef? t = some r → h'.internedRef? t = some r
  granted : ∀ refs, outcome = .ok refs → h'.InternedAs refs texts
  /-- Those in front of the one that the tracker refused are interned. -/
  refused : ∀ e, outcome = .error e → ∃ refs done t rest, texts = done ++ t :: rest ∧
    h'.InternedAs refs done ∧ (intern t).run h' = .ok (.error e) h'

lemma internsAll_nil (h : Heap) : InternsAll h [] (.ok []) h where
  history := ⟨[], .nil h, fun event he => absurd he List.not_mem_nil⟩
  known := fun t r hr => hr
  granted := by
    rintro refs ⟨⟩
    exact .nil
  refused := by rintro e ⟨⟩

/-- The first text is refused, and that is the end of it. -/
lemma internsAll_refused {e : ResourceError} (hrun : (intern t).run h = .ok (.error e) h)
    (texts : List String) : InternsAll h (t :: texts) (.error e) h where
  history := ⟨[], .nil h, fun event he => absurd he List.not_mem_nil⟩
  known := fun t r hr => hr
  granted := by rintro refs ⟨⟩
  refused := by
    rintro e' ⟨⟩
    exact ⟨[], [], t, texts, rfl, .nil, hrun⟩

/-- The first text is interned, and so are those behind it as far as they are granted. -/
lemma InternsAll.cons {h₁ : Heap} {texts : List String}
    {outcome : Except ResourceError (List Ref)} (ht : h₁.internedRef? t = some r)
    (hknown : ∀ u q, h.internedRef? u = some q → h₁.internedRef? u = some q)
    (hfirst : ∃ log, History h log h₁ ∧
      ∀ event ∈ log, event = .interned r t ∧ h.internedRef? t = none)
    (hrest : InternsAll h₁ texts outcome h') :
    InternsAll h (t :: texts) (outcome.map (r :: ·)) h' where
  history := by
    obtain ⟨log, hl, hp⟩ := hfirst
    obtain ⟨log', hl', hp'⟩ := hrest.history
    refine ⟨log ++ log', hl.append hl', fun event he => ?_⟩
    rcases List.mem_append.mp he with he | he
    · obtain ⟨rfl, hnew⟩ := hp event he
      exact ⟨r, t, rfl, List.mem_cons_self, hnew⟩
    · obtain ⟨q, u, rfl, hu, hnew⟩ := hp' event he
      refine ⟨q, u, rfl, List.mem_cons_of_mem t hu, ?_⟩
      -- A later name that is new was new at first: interning the first one takes none away.
      by_contra hne
      obtain ⟨q', hq'⟩ := Option.ne_none_iff_exists'.mp hne
      cases hnew.symm.trans (hknown u q' hq')
  known := fun u q hq => hrest.known u q (hknown u q hq)
  granted := by
    intro refs hrefs
    cases outcome with
    | error e => cases hrefs
    | ok rs =>
      cases hrefs
      exact .cons (hrest.known t r ht) (hrest.granted rs rfl)
  refused := by
    intro e he
    cases outcome with
    | ok rs => cases he
    | error e' =>
      cases he
      obtain ⟨refs, done, u, rest, rfl, hdone, hrun⟩ := hrest.refused e rfl
      exact ⟨r :: refs, t :: done, u, rest, rfl, .cons (hrest.known t r ht) hdone, hrun⟩

lemma internsAll (h : Heap) (texts : List String) :
    ∃ outcome h', (texts.mapM intern).run h = .ok outcome h' ∧
      InternsAll h texts outcome h' := by
  induction texts generalizing h with
  | nil => exact ⟨.ok [], h, rfl, internsAll_nil h⟩
  | cons t texts ih =>
    -- Known, refused or new. In the first case nothing happens, in the second nothing more.
    rcases intern_cases h t with ⟨r, hr, hfirst⟩ | ⟨e, hr, hfirst⟩ | ⟨r, h₁, hr, hfirst⟩
    · obtain ⟨outcome, h', hrest, hall⟩ := ih h
      refine ⟨_, h', run_mapM_cons hfirst hrest, .cons hr (fun _ _ hq => hq) ?_ hall⟩
      exact ⟨[], .nil h, fun event he => absurd he List.not_mem_nil⟩
    · exact ⟨.error e, h, run_mapM_raised hfirst texts, internsAll_refused hfirst texts⟩
    · obtain ⟨outcome, h', hrest, hall⟩ := ih h₁
      have htable := internedRef?_of_intern hr hfirst
      refine ⟨_, h', run_mapM_cons hfirst hrest, .cons ?_ (fun u q hq => ?_) ?_ hall⟩
      · rw [htable, if_pos rfl]
      · rw [htable, if_neg]
        · exact hq
        · rintro rfl
          cases hr.symm.trans hq
      · refine ⟨_, .single (.interned hr hfirst), fun event he => ?_⟩
        exact ⟨List.mem_singleton.mp he, hr⟩

end Heap

/-- Names could not be interned: the declaration is malformed, or the tracker refused one. -/
def BindError.isInterning : BindError → Bool
  | invalidSpec _ | raised _ => true
  | _ => false

namespace Call

variable {c c' : Context} {p : ParamSpec} {call : Call}

/-! ## Interning the names of a declaration -/

/-- The course of interning the names of a declaration. -/
inductive Learns (p : ParamSpec) (c : Context) : Except RunError (List Ref) → Context → Prop where
  /-- The cache knows them. -/
  | known {refs : List Ref} (hknown : c.names.get? p = some refs) : Learns p c (.ok refs) c
  | malformed {e : SpecError} (hnew : c.names.get? p = none) (hl : p.layout = .error e) :
      Learns p c (.error e.toRunError) c
  | refused {l : Layout} {e : ResourceError} {h' : Heap} (hnew : c.names.get? p = none)
      (hl : p.layout = .ok l) (hall : c.heap.InternsAll l.keywordNames (.error e) h') :
      Learns p c (.error e.toRunError) { c with heap := h' }
  /-- They are interned now and enter the cache, which is reported. -/
  | learned {l : Layout} {refs : List Ref} {h' : Heap} (hnew : c.names.get? p = none)
      (hl : p.layout = .ok l) (hall : c.heap.InternsAll l.keywordNames (.ok refs) h') :
      Learns p c (.ok refs) { c with
        heap := h'
        names := ⟨(p.id, refs) :: c.names.entries⟩
        tracer := c.tracer.record (.namesInterned p.fname refs.length) }

lemma learns (p : ParamSpec) (c : Context) :
    ∃ outcome c', (internNames p).run c = .ok outcome c' ∧ Learns p c outcome c' := by
  cases hknown : c.names.get? p with
  | some refs => exact ⟨_, c, internNames_run_known hknown, .known hknown⟩
  | none =>
    cases hl : p.layout with
    | error e =>
      have hall : (NameCache.internAll p).run c.heap = .ok (.error e.toRunError) c.heap := by
        rw [NameCache.internAll]
        simp only [hl]
        rfl
      exact ⟨_, _, internNames_run_refused hknown hall, .malformed hknown hl⟩
    | ok l =>
      obtain ⟨outcome, h', hrun, hall⟩ := Heap.internsAll c.heap l.keywordNames
      have hrun' := internAll_run_of_layout hl hrun
      cases outcome with
      | error e => exact ⟨_, _, internNames_run_refused hknown hrun', .refused hknown hl hall⟩
      | ok refs => exact ⟨_, _, internNames_run_new hknown hrun', .learned hknown hl hall⟩

/-- Names of the declaration get interned that were not before, and nothing else happens on the
heap. -/
lemma Learns.history {outcome : Except RunError (List Ref)} (hl : Learns p c outcome c') :
    ∃ log, Heap.History c.heap log c'.heap ∧ ∀ event ∈ log, ∃ r t,
      event = .interned r t ∧ t ∈ p.keywords ∧ c.heap.internedRef? t = none := by
  have hall : ∀ {l : Layout} {outcome : Except ResourceError (List Ref)} {h' : Heap},
      p.layout = .ok l → c.heap.InternsAll l.keywordNames outcome h' →
      ∃ log, Heap.History c.heap log h' ∧ ∀ event ∈ log, ∃ r t,
        event = .interned r t ∧ t ∈ p.keywords ∧ c.heap.internedRef? t = none := by
    intro l outcome h' hlayout hall
    obtain ⟨log, hl, hp⟩ := hall.history
    refine ⟨log, hl, fun event he => ?_⟩
    obtain ⟨r, t, rfl, ht, hnew⟩ := hp event he
    rw [keywordNames_of_layout hlayout] at ht
    exact ⟨r, t, rfl, (List.dropWhile_sublist _).subset ht, hnew⟩
  cases hl with
  | known | malformed => exact Heap.History.exists_nil rfl
  | refused _ hlayout hinterns => exact hall hlayout hinterns
  | learned _ hlayout hinterns => exact hall hlayout hinterns

/-- The cache and the trace change together, or not at all. -/
lemma Learns.names_cases {outcome : Except RunError (List Ref)} (hl : Learns p c outcome c') :
    (c'.names = c.names ∧ c'.tracer = c.tracer) ∨
    ∃ refs, outcome = .ok refs ∧ c.names.get? p = none ∧
      c'.names = ⟨(p.id, refs) :: c.names.entries⟩ ∧
      c'.tracer = c.tracer.record (.namesInterned p.fname refs.length) := by
  cases hl with
  | learned hnew _ _ => exact .inr ⟨_, rfl, hnew, rfl, rfl⟩
  | _ => exact .inl ⟨rfl, rfl⟩

/-! ## Binding -/

/-- The course of a bind, up to the event that is reported at its end. The number of keywords comes
with the answer. -/
inductive Course (call : Call) (c : Context) : Except BindError (BoundArgs × Nat) → Context → Prop
    where
  | unread {e : BindError} (hk : Keywords.resolve c.heap call.keywords = .error e) :
      Course call c (.error e) c
  | invalid {k : Keywords} {e : SpecError} (hk : Keywords.resolve c.heap call.keywords = .ok k)
      (hl : call.spec.layout = .error e) : Course call c (.error (.invalidSpec e)) c
  | fast {k : Keywords} (hk : Keywords.resolve c.heap call.keywords = .ok k)
      (hfast : call.isFast k.count = true) : Course call c (.ok (.borrowed call.args, 0)) c
  | miscounted {l : Layout} {k : Keywords} {e : BindError}
      (hk : Keywords.resolve c.heap call.keywords = .ok k)
      (hcount : call.countError? l k.count = some e) : Course call c (.error e) c
  | refused {l : Layout} {k : Keywords} {e : RunError} {c' : Context}
      (hk : Keywords.resolve c.heap call.keywords = .ok k) (hl : call.spec.layout = .ok l)
      (hnames : Learns call.spec c (.error e) c') : Course call c (.error (.raised e)) c'
  | matched {l : Layout} {k : Keywords} {names : List Ref} {c' : Context}
      (hk : Keywords.resolve c.heap call.keywords = .ok k)
      (hnames : Learns call.spec c (.ok names) c') :
      Course call c ((call.slots c'.heap l k names).map (fun slots => (.filled slots, k.count))) c'

lemma course (call : Call) (c : Context) :
    ∃ outcome c', call.bindUntraced.run c = .ok outcome c' ∧ Course call c outcome c' := by
  cases hk : Keywords.resolve c.heap call.keywords with
  | error e => exact ⟨_, c, bindUntraced_run_unread hk, .unread hk⟩
  | ok k =>
    cases hl : call.spec.layout with
    | error e => exact ⟨_, c, bindUntraced_run_invalid hl hk, .invalid hk hl⟩
    | ok l =>
      by_cases hfast : call.isFast k.count = true
      · exact ⟨_, c, bindUntraced_run_fast hl hk hfast, .fast hk hfast⟩
      · cases hcount : call.countError? l k.count with
        | some e =>
          have hslow : (call.bindSlow l k).run c = .ok (.error e) c :=
            bindSlow_run_of_countError? hcount
          exact ⟨_, c, bindUntraced_run_slow hl hk hfast hslow, .miscounted hk hcount⟩
        | none =>
          obtain ⟨outcome, c', hnames, hlearns⟩ := learns call.spec c
          cases outcome with
          | error e =>
            have hslow := bindSlow_run_refused hcount hnames
            exact ⟨_, c', bindUntraced_run_slow hl hk hfast hslow, .refused hk hl hlearns⟩
          | ok names =>
            have hslow := bindSlow_run hcount hnames
            refine ⟨_, c', bindUntraced_run_slow hl hk hfast hslow, ?_⟩
            have hmatched : Course call c _ c' := .matched (l := l) hk hlearns
            cases hslots : call.slots c'.heap l k names <;> rwa [hslots] at hmatched

section Matching

variable {h : Heap} {l : Layout} {k : Keywords} {e : BindError} {i n : Nat}
  {params : List (Ref × String)} {names : List Ref}

lemma isInterning_of_fill (he : call.fill h k i n params = .error e) : e.isInterning = false := by
  induction params generalizing i n with
  | nil => cases he
  | cons param rest ih =>
    obtain ⟨interned, name⟩ := param
    have hrest : ∀ {i n : Nat} {f : List (Option Ref) × Nat → List (Option Ref) × Nat},
        (do let filled ← call.fill h k i n rest; .ok (f filled)) = Except.error e →
        e.isInterning = false := by
      intro i n f he
      cases hfill : call.fill h k i n rest with
      | ok filled =>
        rw [hfill] at he
        cases he
      | error e' =>
        rw [hfill] at he
        cases he
        exact ih hfill
    rw [fill] at he
    split at he
    · cases he
    · split at he
      · exact hrest he
      · split at he
        · cases he
          rfl
        · exact hrest he

lemma isInterning_of_duplicate? (he : call.duplicate? h k i params = some e) :
    e.isInterning = false := by
  induction params generalizing i with
  | nil => cases he
  | cons param rest ih =>
    obtain ⟨interned, name⟩ := param
    rw [duplicate?] at he
    split at he
    · cases he
      rfl
    · exact ih he

lemma isInterning_of_leftoverError? (he : call.leftoverError? h l k params = some e) :
    e.isInterning = false := by
  rw [leftoverError?, Option.or_eq_some_iff] at he
  rcases he with he | ⟨-, he⟩
  · exact isInterning_of_duplicate? he
  · obtain ⟨key, -, hkey⟩ := List.exists_of_findSome?_eq_some he
    rw [unexpected?] at hkey
    split at hkey
    · cases hkey
      rfl
    · split at hkey <;> cases hkey
      rfl

/-- Matching has faults of its own. -/
lemma isInterning_of_slots (he : call.slots h l k names = .error e) : e.isInterning = false := by
  rw [slots] at he
  cases hfill : call.fill h k (max call.args.length l.positionalOnly) k.count
      ((names.zip l.keywordNames).drop (call.args.length - l.positionalOnly)) with
  | error e' =>
    simp only [hfill] at he
    cases he
    exact isInterning_of_fill hfill
  | ok filled =>
    simp only [hfill] at he
    change (if filled.2 = 0 then _ else _) = _ at he
    split at he
    · cases he
    · cases hleft : call.leftoverError? h l k (names.zip l.keywordNames) with
      | some e' =>
        simp only [hleft] at he
        cases he
        exact isInterning_of_leftoverError? hleft
      | none =>
        simp only [hleft] at he
        cases he

lemma isInterning_of_resolve {source : KeywordSource} (he : Keywords.resolve h source = .error e) :
    e.isInterning = false := by
  cases source with
  | none => cases he
  | dict r =>
    rw [Keywords.resolve] at he
    split at he <;> cases he
    rfl
  | names r values =>
    rw [Keywords.resolve] at he
    split at he
    · split at he <;> cases he
      rfl
    · cases he
      rfl

lemma isInterning_of_countError? (he : call.countError? l n = some e) : e.isInterning = false := by
  simp only [countError?] at he
  split_ifs at he <;> cases he <;> rfl

end Matching

/-- A bind that cannot intern the names teaches the cache nothing. The names in front of the one
that the tracker refused are interned. -/
lemma Course.of_isInterning {e : BindError} (hc : Course call c (.error e) c')
    (he : e.isInterning = true) :
    c'.names = c.names ∧
    ((∃ e, call.spec.layout = .error e) ∨
      ∃ l refs done t rest refusal, call.spec.layout = .ok l ∧
        l.keywordNames = done ++ t :: rest ∧ c'.heap.InternedAs refs done ∧
        (Heap.intern t).run c'.heap = .ok (.error refusal) c'.heap) := by
  have hfalse : e.isInterning = false → False := by
    intro hf
    rw [hf] at he
    cases he
  -- The outcome is an index of the course, so the equation has to be kept for the cases.
  generalize hout : Except.error e = outcome at hc
  cases hc with
  | unread hk =>
    cases hout
    exact (hfalse (isInterning_of_resolve hk)).elim
  | invalid _ hl => exact ⟨rfl, .inl ⟨_, hl⟩⟩
  | fast => cases hout
  | miscounted _ hcount =>
    cases hout
    exact (hfalse (isInterning_of_countError? hcount)).elim
  | @refused l _ _ _ _ hl hnames =>
    cases hnames with
    | malformed _ hbad => cases hl.symm.trans hbad
    | @refused l' _ _ _ hl' hall =>
      obtain ⟨refs, done, t, rest, hnames, hdone, hrun⟩ := hall.refused _ rfl
      exact ⟨rfl, .inr ⟨l', refs, done, t, rest, _, hl', hnames, hdone, hrun⟩⟩
  | @matched l k names c' _ hnames =>
    cases hslots : call.slots c'.heap l k names with
    | ok slots =>
      rw [hslots] at hout
      cases hout
    | error e' =>
      rw [hslots] at hout
      cases hout
      exact (hfalse (isInterning_of_slots hslots)).elim

/-- How many keywords a call has; none if they cannot be read. -/
def keywordCount (call : Call) (h : Heap) : Nat :=
  match Keywords.resolve h call.keywords with
  | .ok k => k.count
  | .error _ => 0

lemma keywordCount_of_resolve {h : Heap} {k : Keywords}
    (hk : Keywords.resolve h call.keywords = .ok k) : call.keywordCount h = k.count := by
  rw [keywordCount, hk]

lemma Course.count_eq {bound : BoundArgs} {n : Nat} (hc : Course call c (.ok (bound, n)) c') :
    n = call.keywordCount c.heap := by
  generalize hout : Except.ok (bound, n) = outcome at hc
  cases hc with
  | @fast k hk hfast =>
    cases hout
    rw [keywordCount_of_resolve hk]
    simp only [isFast, Bool.and_eq_true, decide_eq_true_eq] at hfast
    exact hfast.1.1.1.symm
  | @matched l k names c' hk hnames =>
    cases hslots : call.slots c'.heap l k names with
    | ok slots =>
      rw [hslots] at hout
      cases hout
      exact (keywordCount_of_resolve hk).symm
    | error e =>
      rw [hslots] at hout
      cases hout
  | _ => cases hout

lemma Course.history {outcome : Except BindError (BoundArgs × Nat)}
    (hc : Course call c outcome c') :
    ∃ log, Heap.History c.heap log c'.heap ∧ ∀ event ∈ log, ∃ r t,
      event = .interned r t ∧ t ∈ call.spec.keywords ∧ c.heap.internedRef? t = none := by
  cases hc with
  | refused _ _ hnames => exact hnames.history
  | matched _ hnames => exact hnames.history
  | _ => exact Heap.History.exists_nil rfl

lemma Course.names_cases {outcome : Except BindError (BoundArgs × Nat)}
    (hc : Course call c outcome c') :
    (c'.names = c.names ∧ c'.tracer = c.tracer) ∨
    ∃ refs, c.names.get? call.spec = none ∧
      c'.names = ⟨(call.spec.id, refs) :: c.names.entries⟩ ∧
      c'.tracer = c.tracer.record (.namesInterned call.spec.fname refs.length) := by
  cases hc with
  | refused _ _ hnames =>
    rcases hnames.names_cases with hsame | ⟨refs, hout, -⟩
    · exact .inl hsame
    · cases hout
  | matched _ hnames =>
    rcases hnames.names_cases with hsame | ⟨refs, -, hnew, hnames, htracer⟩
    · exact .inl hsame
    · exact .inr ⟨refs, hnew, hnames, htracer⟩
  | _ => exact .inl ⟨rfl, rfl⟩

/-- The event that is reported at the end of a bind of `n` keywords. -/
def completion (call : Call) (n : Nat) : Except BindError BoundArgs → TraceEvent
  | .ok bound => .bind call.spec.fname call.args.length n bound.isBorrowed
  | .error e => .bindError call.spec.fname e.message

/-- A bind is never stopped, and reports its answer at the end. -/
lemma bind_course (call : Call) (c : Context) :
    ∃ outcome c', Course call c outcome c' ∧
      call.bind.run c = .ok (outcome.map (·.1)) { c' with
        tracer := c'.tracer.record
          (call.completion (call.keywordCount c.heap) (outcome.map (·.1))) } := by
  obtain ⟨outcome, c', hrun, hc⟩ := call.course c
  refine ⟨outcome, c', hc, ?_⟩
  cases outcome with
  | ok answer =>
    obtain ⟨bound, n⟩ := answer
    rw [← hc.count_eq]
    exact bind_ok hrun
  | error e => exact bind_ok hrun

lemma bind_of_isInterning {e : BindError} (hrun : call.bind.run c = .ok (.error e) c')
    (he : e.isInterning = true) :
    c'.names = c.names ∧
    ((∃ e, call.spec.layout = .error e) ∨
      ∃ l refs done t rest refusal, call.spec.layout = .ok l ∧
        l.keywordNames = done ++ t :: rest ∧ c'.heap.InternedAs refs done ∧
        (Heap.intern t).run c'.heap = .ok (.error refusal) c'.heap) := by
  obtain ⟨outcome, c₁, hc, hrun'⟩ := call.bind_course c
  obtain ⟨hout, rfl⟩ := EStateM.Result.ok.inj (hrun'.symm.trans hrun)
  cases outcome with
  | ok answer => cases hout
  | error e' =>
    cases hout
    exact hc.of_isInterning he

end Call

end NativeCall
