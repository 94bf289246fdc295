import NativeCall.Proofs.Bind.Course
import NativeCall.Proofs.Bind.Effects
import NativeCall.Proofs.Heap.Command
import NativeCall.Proofs.Program

/-!
# Interned names last

Three tables have to agree for keywords to be matched by identity: the slots of the heap, the table
of interned strings, and the cache of the names of declarations. They are written by different
operations, some of which fail in the middle.

The table of interned strings has one entry for each text that was interned, by any history
(`History.internedRef?_eq_some`). That the strings stay in their slots needs that nobody writes to a
slot that holds a string, which is what `Object.KeepsText` asks of changes; counting leaves them
alone, since they are immortal (`Heap.Catalogued`). The cache is written by binds only.
`Context.Follows` says of two runtimes, one after the other, what the later one has kept, and what
it has learned of a declaration; a program leads from a runtime to one that follows it
(`Program.follows`), whatever its foreign code does and wherever it is stopped. What this means for
interning and for binding, failures included, is `interned_names_last`.

## For good

"The string stays" is not a statement about one runtime, so `InternedForGood` quantifies over all
runtimes that a program can lead to from here. In each of them the slot has the string, immortal and
counted once; asking for the text gives this string and leaves the heap alone; and asking for any
other text gives another one. The last part makes interning injective. It is a property of the table
at any later time and not of two requests made now, so that a caller can compare references that
were obtained at different times.

## Failures

A bind may be refused at the third of five names. The first two are in the table then, and nothing
can take them out; the cache has no entry, since entries are made of complete lists only. When the
names are asked for again, the first two are found and the rest is tried, so an entry that is made
later begins with the strings that the failure left behind. This is the prefix in the last part of
the theorem. It holds whatever happens in between, because the two strings are there for good.
-/

namespace NativeCall

open Heap

/-- A string stays what it is; any other object may change. -/
def Object.KeepsText (old new : Object) : Prop :=
  ∀ s, old = .str s → new = old

/-! ## The table and the slots -/

namespace Heap

variable {h h' : Heap} {r q : Ref} {s t : String} {log : List Event}

/-- A text that was asked for is in the table. -/
lemma internedRef?_of_intern_run (hrun : (intern s).run h = .ok (.ok r) h') :
    h'.internedRef? s = some r := by
  rcases intern_cases h s with ⟨q, hq, hknown⟩ | ⟨e, -, hrefused⟩ | ⟨q, h₁, hnew, -⟩
  · cases hknown.symm.trans hrun
    exact hq
  · cases hrefused.symm.trans hrun
  · rw [internedRef?_of_intern hnew hrun, if_pos rfl]

lemma history_of_intern {outcome : Except ResourceError Ref}
    (hrun : (intern s).run h = .ok outcome h') :
    ∃ log, History h log h' ∧ ∀ event ∈ log, event.Respects Object.KeepsText := by
  have hm : Marshals Object.KeepsText (intern s).run := Marshals.intern s
  have hlog := hm h
  rwa [after_ok hrun] at hlog

/-- The interned strings are where the table says. -/
structure Catalogued (h : Heap) : Prop where
  tidy : h.Tidy
  strings : ∀ s r, h.internedRef? s = some r → h.slot? r = some ⟨1, true, .str s⟩

lemma catalogued_fresh (t : Tracker) : (fresh t).Catalogued :=
  ⟨tidy_fresh t, (furnished_fresh t).interned⟩

namespace Catalogued

lemma happens {event : Event} (hc : h.Catalogued) (hev : Happens h event h')
    (hp : event.Respects Object.KeepsText) : h'.Catalogued := by
  refine ⟨hc.tidy.happens hev, fun s r hr => ?_⟩
  refine hev.slot?_of_internedRef? hc.tidy (fun hold => ?_) hr
  refine hev.slot?_of_immortal hc.tidy (fun o ho => ?_) (hc.strings s r hold) rfl
  subst ho
  exact hp s rfl

lemma history (hc : h.Catalogued) (hl : History h log h')
    (hp : ∀ event ∈ log, event.Respects Object.KeepsText) : h'.Catalogued :=
  hl.keeps hp (fun _ _ _ hp hev hc => hc.happens hev hp) hc

lemma intern (hc : h.Catalogued) {outcome : Except ResourceError Ref}
    (hrun : (Heap.intern t).run h = .ok outcome h') : h'.Catalogued := by
  obtain ⟨log, hl, hp⟩ := history_of_intern hrun
  exact hc.history hl hp

/-- A string has one text. -/
lemma text_unique (hc : h.Catalogued) (hs : h.internedRef? s = some r)
    (ht : h.internedRef? t = some r) : t = s := by
  have hslot := (hc.strings s r hs).symm.trans (hc.strings t r ht)
  cases hslot
  rfl

lemma isInterned_iff (hc : h.Catalogued) :
    h.isInterned r = true ↔ ∃ s, h.internedRef? s = some r := by
  constructor
  · intro hr
    rw [isInterned] at hr
    split at hr
    case h_1 s _ => exact ⟨s, eq_of_beq hr⟩
    case h_2 => cases hr
  · rintro ⟨s, hs⟩
    have htext : h.text? r = some s := text?_of_slot? (hc.strings s r hs)
    rw [isInterned, htext]
    exact beq_iff_eq.mpr hs

end Catalogued

end Heap

/-! ## What later runtimes keep -/

/-- What a runtime has kept since an earlier one, and what it has learned since then. -/
structure Context.Follows (declared : Set ParamSpec) (c c' : Context) : Prop where
  /-- No string was written to. -/
  history : ∃ log, History c.heap log c'.heap ∧ ∀ event ∈ log, event.Respects Object.KeepsText
  names : ∀ p refs, c.names.get? p = some refs → c'.names.get? p = some refs
  learned : ∀ p ∈ declared, ∀ refs, c.names.get? p = none → c'.names.get? p = some refs →
    p.InternedAs c'.heap refs

namespace Context.Follows

variable {declared : Set ParamSpec} {c c₁ c' : Context}

/-- The heap went on, and the cache stayed as it was. -/
lemma of_history (hh : ∃ log, History c.heap log c'.heap ∧
    ∀ event ∈ log, event.Respects Object.KeepsText) (hn : c'.names = c.names) :
    c.Follows declared c' := by
  refine ⟨hh, fun p refs hp => ?_, fun p _ refs hnew hp => ?_⟩
  · rwa [hn]
  · rw [hn, hnew] at hp
    cases hp

lemma of_same (hh : c'.heap = c.heap) (hn : c'.names = c.names) : c.Follows declared c' :=
  of_history (History.exists_nil hh) hn

lemma internedRef? (hf : c.Follows declared c') {s : String} {r : Ref}
    (hr : c.heap.internedRef? s = some r) : c'.heap.internedRef? s = some r := by
  obtain ⟨log, hl, -⟩ := hf.history
  exact hl.internedRef?_eq_some.mpr (.inr hr)

lemma trans (hf : c.Follows declared c₁) (hf' : c₁.Follows declared c') :
    c.Follows declared c' := by
  refine ⟨History.exists_append hf.history hf'.history,
    fun p refs hp => hf'.names p refs (hf.names p refs hp), fun p hdeclared refs hnew hp => ?_⟩
  cases hmiddle : c₁.names.get? p with
  | none => exact hf'.learned p hdeclared refs hmiddle hp
  | some refs₁ =>
    obtain rfl := Option.some.inj ((hf'.names p refs₁ hmiddle).symm.trans hp)
    obtain ⟨l, hl, hnames⟩ := hf.learned p hdeclared refs₁ hnew hmiddle
    exact ⟨l, hl, hnames.mono (fun _ _ hr => hf'.internedRef? hr)⟩

lemma catalogued (hf : c.Follows declared c') (hc : c.heap.Catalogued) : c'.heap.Catalogued := by
  obtain ⟨log, hl, hp⟩ := hf.history
  exact hc.history hl hp

end Context.Follows

namespace Call

variable {declared : Set ParamSpec} {c c' : Context} {p : ParamSpec} {call : Call}

/-- Interning the names of a declaration teaches the cache those names, and nothing else. -/
lemma Learns.follows {outcome : Except RunError (List Ref)} (hd : Set.InjOn ParamSpec.id declared)
    (hp : p ∈ declared) (hl : Learns p c outcome c') : c.Follows declared c' := by
  have hhistory : ∃ log, Heap.History c.heap log c'.heap ∧
      ∀ event ∈ log, event.Respects Object.KeepsText := by
    obtain ⟨log, hlog, hnames⟩ := hl.history
    refine ⟨log, hlog, fun event he => ?_⟩
    obtain ⟨r, t, rfl, -⟩ := hnames event he
    trivial
  cases hl with
  | known | malformed | refused => exact .of_history hhistory rfl
  | @learned l refs h' hnew hlayout hall =>
    have hlookup := c.names.get?_cons p
    refine ⟨hhistory, fun q refs' hq => ?_, fun q hdeclared refs' hqnew hq => ?_⟩
    · rw [hlookup, if_neg]
      · exact hq
      · intro hid
        rw [NameCache.get?, hid] at hq
        cases hnew.symm.trans hq
    · rw [hlookup] at hq
      -- Declarations are told apart by their identities, so an entry that is found for another one
      -- was found before.
      by_cases hid : q.id = p.id
      · rw [if_pos hid] at hq
        obtain rfl := Option.some.inj hq
        obtain rfl := hd hdeclared hp hid
        exact ⟨l, hlayout, hall.granted refs rfl⟩
      · rw [if_neg hid] at hq
        cases hqnew.symm.trans hq

lemma Course.follows {outcome : Except BindError (BoundArgs × Nat)}
    (hd : Set.InjOn ParamSpec.id declared) (hcall : call.spec ∈ declared)
    (hc : Course call c outcome c') : c.Follows declared c' := by
  cases hc with
  | refused _ _ hnames => exact hnames.follows hd hcall
  | matched _ hnames => exact hnames.follows hd hcall
  | _ => exact .of_same rfl rfl

end Call

/-! ## Programs lead to runtimes that follow -/

section Programs

variable {declared : Set ParamSpec}

lemma follows_hosts (declared : Set ParamSpec) :
    Hosts (fun _ x => ∀ c, Context.Follows declared c (after x c)) where
  toSequential := sequential_of_trans (fun _ => .of_same rfl rfl) Context.Follows.trans
  look _ := .of_same rfl rfl
  takeError _ := .of_same rfl rfl
  onHeap {α x} hx c := by
    rw [after_onHeap_eq]
    exact .of_history (hx Object.KeepsText c.heap) rfl

lemma follows_trace (event : TraceEvent) (c : Context) :
    c.Follows declared (after (Context.trace event) c) :=
  .of_same rfl rfl

/-- To report what came of an operation changes nothing that matters here. -/
lemma follows_reported {α β : Type} {x : ContextM α} {event : α → TraceEvent} {answer : α → β}
    (hx : ∀ c, Context.Follows declared c (after x c)) (c : Context) :
    c.Follows declared (after (do
      let a ← x
      Context.trace (event a)
      return answer a) c) := by
  have hK := follows_hosts declared
  exact hK.bind hx (fun a => hK.bind (follows_trace (event a)) (fun _ => hK.ret (answer a))) c

lemma follows_destroy {α : Type} (f : List UInt8 → α) (obj : Word) (c : Context) :
    c.Follows declared (after (Entry.within (Entry.destroy f obj)) c) := by
  obtain ⟨answer, c', hrun, hn, -, log, hl, hp⟩ := Entry.destroy_run f obj c
  rw [after_ok hrun]
  exact .of_history ⟨log, hl, fun event he => .of_isCounting (hp event he)⟩ hn

/-- Whatever a program does, it leads to a runtime that follows. -/
lemma Program.follows (hd : Set.InjOn ParamSpec.id declared) {α : Type} {x : ContextM α}
    (hx : Program Object.KeepsText declared α x) (c : Context) :
    c.Follows declared (after x c) := by
  have hK := follows_hosts declared
  induction hx generalizing c with
  | ret a => exact hK.ret a c
  | seq _ _ ihx ihf => exact hK.bind_of ihx (fun c a c' hrun => ihf c a c' hrun) c
  | look => exact hK.look c
  | heap hx =>
    rw [after_onHeap_eq]
    exact .of_history (hx c.heap) rfl
  | setError e => exact .of_same rfl rfl
  | takeError => exact hK.takeError c
  | build f _ ih => exact follows_reported (hK.run f (fun arg harg a ha => ih arg harg a ha)) c
  | @buildValue source args _ ih =>
    rw [NativeCall.buildValue]
    cases Format.compile source with
    | ok f => exact follows_reported (hK.run f (fun arg harg a ha => ih arg harg a ha)) c
    | error e =>
      exact follows_reported
        (hK.onHeap (fun _ => Marshals.decRefs (args.flatMap BuildArg.owned))) c
  | bind call hcall =>
    obtain ⟨outcome, c', hc, hrun⟩ := call.bind_course c
    rw [after_ok hrun]
    exact (hc.follows hd hcall).trans (.of_same rfl rfl)
  -- Malformed words leave the heap and the cache alone; with words that fit it is the native
  -- function that counts.
  | entry inv _ ih =>
    rcases Entry.Invocation.malformed_or_admits c.heap inv with hm | ⟨impl, ha⟩
    · rw [after_ok (Entry.Invocation.run_of_malformed hm)]
      exact .of_same rfl rfl
    · rw [after_eq (Entry.Invocation.run_of_admits ha)]
      exact follows_reported (ih c.heap impl ha) c
  | destroy f obj => exact follows_destroy f obj c

end Programs

/-! ## What is interned stays interned -/

variable {declared : Set ParamSpec} {c c' : Context} {refs all : List Ref} {r : Ref} {s : String}
  {texts more : List String}

namespace Context

/-- A program leads from one runtime to the other. Its foreign code leaves strings as they are. -/
def Becomes (declared : Set ParamSpec) (c c' : Context) : Prop :=
  ∃ (α : Type) (x : ContextM α), Program Object.KeepsText declared α x ∧ after x c = c'

lemma Becomes.follows (hd : Set.InjOn ParamSpec.id declared) (hb : c.Becomes declared c') :
    c.Follows declared c' := by
  obtain ⟨α, x, hx, rfl⟩ := hb
  exact hx.follows hd c

/-- The string is what the text is interned as, and whatever a program does that will not change:
it is there, immortal, with this text; interning the text gives this string and changes nothing, and
interning another text gives another. -/
def InternedForGood (declared : Set ParamSpec) (c : Context) (r : Ref) (s : String) : Prop :=
  ∀ c', c.Becomes declared c' →
    c'.heap.slot? r = some ⟨1, true, .str s⟩ ∧ c'.heap.isInterned r = true ∧
    (intern s).run c'.heap = .ok (.ok r) c'.heap ∧
    ∀ t q h', (intern t).run c'.heap = .ok (.ok q) h' → (q = r ↔ t = s)

lemma internedForGood (hd : Set.InjOn ParamSpec.id declared) (hc : c.heap.Catalogued)
    (hr : c.heap.internedRef? s = some r) : c.InternedForGood declared r s := by
  intro c' hb
  have hf := hb.follows hd
  have hc' := hf.catalogued hc
  have hr' := hf.internedRef? hr
  refine ⟨hc'.strings s r hr', hc'.isInterned_iff.mpr ⟨s, hr'⟩, intern_known hr', ?_⟩
  intro t q h' hrun
  constructor
  · rintro rfl
    have hknown : h'.internedRef? s = some q := by
      obtain ⟨log, hl, -⟩ := history_of_intern hrun
      exact hl.internedRef?_eq_some.mpr (.inr hr')
    exact (hc'.intern hrun).text_unique hknown (internedRef?_of_intern_run hrun)
  · rintro rfl
    cases (intern_known hr').symm.trans hrun
    rfl

/-- Texts that are interned have their strings for good. -/
lemma internedForGood_of_internedAs (hd : Set.InjOn ParamSpec.id declared)
    (hc : c.heap.Catalogued) (hn : c.heap.InternedAs refs texts) :
    List.Forall₂ (c.InternedForGood declared) refs texts :=
  hn.imp (fun _ _ hr => internedForGood hd hc hr)

end Context

/-- The strings of the first texts come first among those of all. -/
lemma Heap.InternedAs.isPrefix {h : Heap} (hn : h.InternedAs refs texts)
    (hall : h.InternedAs all (texts ++ more)) : refs <+: all := by
  induction hn generalizing all with
  | nil => exact List.nil_prefix
  | @cons r t refs texts hr _ ih =>
    cases hall with
    | @cons q _ all _ hq hrest =>
      obtain rfl := Option.some.inj (hr.symm.trans hq)
      exact (List.prefix_cons_inj r).mpr (ih hrest)

/-- **Interned names last.** Take any runtime that came about by running a program. Interning a text
there is refused, which changes nothing, or gives a string for good. The strings that count as
interned are those that an operation on the way interned. If the cache has an entry for a
declaration, it stays, and it has the strings of the names, one for each. A bind that cannot intern
the names makes no entry: the declaration is malformed, or a name was refused; then those in front
of it have strings for good, and these are the first ones of any entry that is made later. -/
theorem interned_names_last {limits : Option Limits} {tracer : Tracer}
    (hd : Set.InjOn ParamSpec.id declared)
    (hc : (Context.fresh limits tracer).Becomes declared c) :
    (∀ s, (∃ e, (intern s).run c.heap = .ok (.error e) c.heap) ∨
      ∃ r h, (intern s).run c.heap = .ok (.ok r) h ∧
        Context.InternedForGood declared { c with heap := h } r s) ∧
    ((∃ log, History (.fresh (.ofLimits limits)) log c.heap ∧
        ∀ event ∈ log, event.Respects Object.KeepsText) ∧
      ∀ log, History (.fresh (.ofLimits limits)) log c.heap →
        ∀ r, c.heap.isInterned r = true ↔ ∃ s, .interned r s ∈ log) ∧
    (∀ p ∈ declared, ∀ refs, c.names.get? p = some refs →
      (∃ l, p.layout = .ok l ∧
        List.Forall₂ (c.InternedForGood declared) refs l.keywordNames) ∧
      ∀ c', c.Becomes declared c' → c'.names.get? p = some refs) ∧
    ∀ call : Call, call.spec ∈ declared → ∀ e c', call.bind.run c = .ok (.error e) c' →
      e.isInterning = true →
        c'.names = c.names ∧
        ((∃ e, call.spec.layout = .error e) ∨
          ∃ l refs done t rest refusal, call.spec.layout = .ok l ∧
            l.keywordNames = done ++ t :: rest ∧
            List.Forall₂ (c'.InternedForGood declared) refs done ∧
            (intern t).run c'.heap = .ok (.error refusal) c'.heap ∧
            ∀ c'', c'.Becomes declared c'' → ∀ all,
              c''.names.get? call.spec = some all → refs <+: all) := by
  have hfollows := hc.follows hd
  have hcat : c.heap.Catalogued := hfollows.catalogued (catalogued_fresh _)
  refine ⟨fun s => ?interning, ⟨hfollows.history, fun log hl r => ?origin⟩,
    fun p hp refs hrefs => ⟨?cached, fun c' hb => (hb.follows hd).names p refs hrefs⟩,
    fun call hcall e c' hrun he => ?failed⟩
  case interning =>
    rcases intern_cases c.heap s with ⟨r, hr, hrun⟩ | ⟨e, -, hrun⟩ | ⟨r, h, -, hrun⟩
    · exact .inr ⟨r, c.heap, hrun, Context.internedForGood hd hcat hr⟩
    · exact .inl ⟨e, hrun⟩
    · exact .inr ⟨r, h, hrun, Context.internedForGood hd (hcat.intern hrun)
        (internedRef?_of_intern_run hrun)⟩
  case origin =>
    rw [hcat.isInterned_iff]
    refine exists_congr (fun s => ?_)
    rw [hl.internedRef?_eq_some]
    exact or_iff_left (fun hnone => by cases hnone)
  case cached =>
    obtain ⟨l, hl, hn⟩ := hfollows.learned p hp refs rfl hrefs
    exact ⟨l, hl, Context.internedForGood_of_internedAs hd hcat hn⟩
  case failed =>
    have hlater : c.Follows declared c' := by
      have hbind := (Program.bind call hcall).follows hd c
      rwa [after_ok hrun] at hbind
    obtain ⟨hsame, hcase⟩ := Call.bind_of_isInterning hrun he
    refine ⟨hsame, hcase.imp_right ?_⟩
    rintro ⟨l, refs, done, t, rest, refusal, hl, hsplit, hdone, hrefused⟩
    have hgood := Context.internedForGood_of_internedAs hd (hlater.catalogued hcat) hdone
    refine ⟨l, refs, done, t, rest, refusal, hl, hsplit, hgood, hrefused, ?_⟩
    intro c'' hb all hall
    have hf := hb.follows hd
    obtain ⟨l', hl', hn⟩ :=
      ((hfollows.trans hlater).trans hf).learned call.spec hcall all rfl hall
    cases hl.symm.trans hl'
    rw [hsplit] at hn
    exact (hdone.mono (fun _ _ hr => hf.internedRef? hr)).isPrefix hn

/-- Where one object more is allowed, the second name of a declaration is refused, and the first one
stays what it was interned as. -/
theorem interned_names_last_refused : ∃ (p : ParamSpec) (c c' : Context) (e : BindError),
    (Context.fresh (some ⟨some 1, none⟩) .silent).Becomes {p} c ∧
      (Call.bind ⟨p, [], .none, ⟨1, 2, 0⟩⟩).run c = .ok (.error e) c' ∧ e.isInterning = true ∧
      p.keywords = ["a", "b"] ∧ c'.names = c.names ∧
      c'.InternedForGood {p} ⟨4⟩ "a" ∧
      ∀ c'', c'.Becomes {p} c'' → ∀ all, c''.names.get? p = some all → [⟨4⟩] <+: all := by
  let f : Call := ⟨⟨0, ["a", "b"], some "f"⟩, [], .none, ⟨1, 2, 0⟩⟩
  let c : Context := .fresh (some ⟨some 1, none⟩) .silent
  have hb : c.Becomes {f.spec} c := ⟨Unit, pure (), .ret (), rfl⟩
  have hrun : f.bind.run c = .ok (.error (.raised _)) _ := rfl
  obtain ⟨-, -, -, hfailed⟩ := interned_names_last (Set.injOn_singleton _ _) hb
  obtain ⟨hnames, hcase⟩ := hfailed f rfl _ _ hrun rfl
  obtain ⟨e, hl⟩ | ⟨l, refs, done, t, rest, refusal, hl, hsplit, hgood, hrefused, hprefix⟩ := hcase
  · cases hl
  · cases hl
    cases hgood with
    | nil =>
      obtain ⟨rfl, rfl⟩ := List.cons.inj hsplit
      cases hrefused
    | @cons r u refs done hfirst hrest =>
      obtain ⟨rfl, htail⟩ := List.cons.inj hsplit
      obtain ⟨-, -, hknown, -⟩ := hfirst _ ⟨Unit, pure (), .ret (), rfl⟩
      obtain rfl : r = ⟨4⟩ := by
        cases hknown
        rfl
      cases hrest with
      | nil => exact ⟨f.spec, c, _, _, hb, hrun, rfl, rfl, hnames, hfirst, hprefix⟩
      | cons =>
        obtain ⟨-, hnil⟩ := List.cons.inj htail
        exact absurd hnil.symm (List.append_ne_nil_of_right_ne_nil _ (List.cons_ne_nil _ _))

end NativeCall
