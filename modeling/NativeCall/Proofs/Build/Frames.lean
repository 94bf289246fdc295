import Mathlib.Algebra.Group.Nat.Even
import NativeCall.Build.Machine
import NativeCall.Proofs.Run

/-!
# Open groups of a build

Reading a format string counts the items of every open group and keeps nothing else of them, and a
build trusts these counts: it closes whatever group is open. A closing step without an open group
and a dict of an odd number of items are not errors of a build, they have no place in it. That they
do not occur is for the reading of the format to see to.

What justifies the trust is that the machine, after the steps of a beginning of the string, has as
many items in as many groups as reading that beginning has counted. `Tracks` says this of a scan and
a machine. It compares lengths only: which objects are in a group depends on the arguments and on
the heap, which reading knows nothing of.

## From reading to running

Reading goes through tokens, among them separators that become no step, while a run goes through
steps. `Scan.addStep` takes in the directive of a step in the way in which its token was taken in,
and `scan_of_compile` says that the steps of an accepted format, taken in one after the other, lead
to where reading ended. From then on both are folds over one list. A step that reading accepted
preserves `Tracks`, whatever it makes (`tracks_step`), and so does every run that does not fail
(`tracks_exec`). A run that fails is of no interest here, since no step comes after.

So a closing step finds a group that is open, with an even number of items if it closes a dict, and
a run over all steps ends with no group open (`frames_of_compile`).
-/

namespace NativeCall

open Format Heap

namespace Format

/-! ## Steps as they were read -/

/-- Takes in a step that was read before. -/
def Scan.addStep (s : Scan) (st : Step) : Except FormatError Scan :=
  s.addDirective st.code st.directive

lemma Scan.reversed_addItem (s : Scan) : s.addItem.reversed = s.reversed := by
  obtain ⟨reversed, argCount, itemCount, _ | ⟨⟨kind, n⟩, outer⟩⟩ := s <;> rfl

lemma Scan.reversed_addDirective {s s' : Scan} {code : Char} {d : Directive}
    (h : s.addDirective code d = .ok s') : s'.reversed = ⟨code, d⟩ :: s.reversed := by
  cases d with
  | scalar x =>
    cases h
    exact Scan.reversed_addItem _
  | opening kind =>
    cases h
    rfl
  | closing kind =>
    obtain ⟨reversed, argCount, itemCount, _ | ⟨⟨innermost, n⟩, outer⟩⟩ := s
    · cases h
    · simp only [addDirective] at h
      split at h
      · cases h
      · split at h
        · cases h
        · cases h
          exact Scan.reversed_addItem _

/-- What reading tokens takes in are the steps that it keeps. -/
lemma Scan.steps_of_foldlM {tokens : List Token} {s s' : Scan}
    (h : tokens.foldlM Scan.addToken s = .ok s') :
    ∃ steps : List Step, s'.reversed = steps.reverse ++ s.reversed ∧
      steps.foldlM Scan.addStep s = .ok s' := by
  induction tokens generalizing s with
  | nil =>
    cases h
    exact ⟨[], rfl, rfl⟩
  -- The steps are found from the first token on, in the order in which they were read; the scan
  -- keeps them reversed.
  | cons t tokens ih =>
    rw [List.foldlM_cons] at h
    cases hadd : s.addToken t with
    | error e =>
      rw [hadd] at h
      cases h
    | ok s₁ =>
      rw [hadd] at h
      obtain ⟨steps, hrev, hfold⟩ := ih h
      cases hm : t.meaning with
      | directive d =>
        have hd : s.addDirective t.code d = .ok s₁ := by
          rw [← hadd, Scan.addToken, hm]
        refine ⟨⟨t.code, d⟩ :: steps, ?_, ?_⟩
        · rw [hrev, Scan.reversed_addDirective hd]
          simp
        · rw [List.foldlM_cons]
          show (s.addDirective t.code d >>= fun s => steps.foldlM Scan.addStep s) = _
          rw [hd]
          exact hfold
      | separator =>
        rw [Scan.addToken, hm] at hadd
        have hs : s = s₁ := by
          simp only at hadd
          split at hadd
          · cases hadd
          · exact Except.ok.inj hadd
        rw [← hs] at hrev hfold
        exact ⟨steps, hrev, hfold⟩
      | unknown =>
        rw [Scan.addToken, hm] at hadd
        cases hadd

/-- The steps of a format were taken in one after the other, and closed every group. -/
lemma scan_of_compile {source : String} {f : Format} (h : compile source = .ok f) :
    ∃ s : Scan, f.steps.foldlM Scan.addStep {} = .ok s ∧ s.groups = [] ∧
      s.itemCount = f.itemCount := by
  unfold compile at h
  cases hs : (Token.ofChars source.toList).foldlM Scan.addToken {} with
  | error e =>
    rw [hs] at h
    cases h
  | ok s =>
    rw [hs] at h
    obtain ⟨steps, hrev, hfold⟩ := Scan.steps_of_foldlM hs
    have hfinish : s.finish source = .ok f := h
    rw [Scan.finish] at hfinish
    split at hfinish
    case isTrue hg =>
      obtain rfl := Except.ok.inj hfinish
      refine ⟨s, ?_, List.isEmpty_iff.mp hg, rfl⟩
      show s.reversed.reverse.foldlM Scan.addStep {} = .ok s
      rw [hrev, List.append_nil, List.reverse_reverse]
      exact hfold
    case isFalse => cases hfinish

end Format

namespace Machine

@[simp] lemma cursor_push (m : Machine) (r : Ref) : (m.push r).cursor = m.cursor := by
  obtain ⟨cursor, bottom, _ | ⟨items, outer⟩⟩ := m <;> rfl

/-- The machine has made as many items as reading has counted, in each open group and outside
them. -/
structure Tracks (s : Scan) (m : Machine) : Prop where
  groups : m.groups.map List.length = s.groups.map Prod.snd
  bottom : m.bottom.length = s.itemCount

lemma Tracks.start (args : List BuildArg) : Tracks {} (start args) :=
  ⟨rfl, rfl⟩

/-- An item counts for the group that it is added to. -/
lemma Tracks.push {s : Scan} {m : Machine} (h : Tracks s m) (r : Ref) :
    Tracks s.addItem (m.push r) := by
  obtain ⟨cursor, bottom, groups⟩ := m
  obtain ⟨reversed, argCount, itemCount, counted⟩ := s
  obtain ⟨hg, hb⟩ := h
  -- There are as many open groups on both sides, so one has an innermost group if the other has.
  cases groups with
  | nil =>
    obtain rfl := List.map_eq_nil_iff.mp hg.symm
    exact ⟨rfl, congrArg (· + 1) hb⟩
  | cons items outer =>
    cases counted with
    | nil => cases hg
    | cons kn counted =>
      obtain ⟨hn, ho⟩ := List.cons.inj hg
      exact ⟨List.cons_eq_cons.mpr ⟨congrArg (· + 1) hn, ho⟩, hb⟩

/-- Where reading accepts a closing step, the machine has a group to close. -/
lemma Tracks.closing {s s' : Scan} {m : Machine} {code : Char} {kind : GroupKind}
    (h : Tracks s m) (hs : s.addDirective code (.closing kind) = .ok s') :
    ∃ items outer, m.groups = items :: outer ∧ (kind = .dict → Even items.length) ∧
      ∀ cursor r, Tracks s' ((⟨cursor, m.bottom, outer⟩ : Machine).push r) := by
  obtain ⟨cursor, bottom, groups⟩ := m
  obtain ⟨reversed, argCount, itemCount, _ | ⟨⟨innermost, n⟩, counted⟩⟩ := s
  · cases hs
  · obtain ⟨hg, hb⟩ := h
    cases groups with
    | nil => cases hg
    | cons items outer =>
      obtain ⟨hn, ho⟩ := List.cons.inj hg
      simp only [Scan.addDirective] at hs
      split at hs
      · cases hs
      · split at hs
        · cases hs
        case isFalse _ hodd =>
          obtain rfl := Except.ok.inj hs
          refine ⟨items, outer, rfl, fun hk => ?_, fun cursor r => ?_⟩
          · rw [hn, Nat.even_iff]
            by_contra hne
            exact hodd ⟨hk, hne⟩
          · have hinner : Tracks ⟨⟨code, .closing kind⟩ :: reversed, argCount, itemCount, counted⟩
                ⟨cursor, bottom, outer⟩ := ⟨ho, hb⟩
            exact hinner.push r

/-- A step that reading has accepted and that does not fail makes what was counted. -/
lemma tracks_step {s s' : Scan} {m m' : Machine} {st : Step} {c c' : Context} (h : Tracks s m)
    (hs : s.addStep st = .ok s') (hm : m.step st c = .ok (m', .ok ()) c') : Tracks s' m' := by
  obtain ⟨code, d⟩ := st
  cases d with
  | opening kind =>
    cases hs
    cases hm
    exact ⟨List.cons_eq_cons.mpr ⟨rfl, h.groups⟩, h.bottom⟩
  | closing kind =>
    obtain ⟨items, outer, hg, -, hpush⟩ := h.closing hs
    simp only [step, hg] at hm
    obtain ⟨outcome, c₁, -, hm⟩ := bind_inv hm
    cases outcome with
    | error e => cases hm
    | ok r =>
      cases hm
      exact hpush m.cursor r
  | scalar x =>
    cases hs
    simp only [step] at hm
    cases hread : x.read code m.cursor with
    | error e cursor =>
      rw [hread] at hm
      obtain ⟨-, c₁, -, hm⟩ := bind_inv hm
      cases hm
    | ok product cursor =>
      rw [hread] at hm
      obtain ⟨outcome, c₁, -, hm⟩ := bind_inv hm
      cases outcome with
      | error e => cases hm
      | ok r =>
        cases hm
        have hread : Tracks ⟨⟨code, .scalar x⟩ :: s.reversed, s.argCount + x.argCount,
            s.itemCount, s.groups⟩ ⟨cursor, m.bottom, m.groups⟩ := ⟨h.groups, h.bottom⟩
        exact hread.push r

/-- Runs of the machine make what was counted. -/
lemma tracks_exec {steps : List Step} {s s' : Scan} {m m' : Machine} {c c' : Context}
    (h : Tracks s m) (hs : steps.foldlM Scan.addStep s = .ok s')
    (hm : m.exec steps c = .ok (m', .ok ()) c') : Tracks s' m' := by
  induction steps generalizing s m c with
  | nil =>
    cases hs
    cases hm
    exact h
  | cons st steps ih =>
    rw [List.foldlM_cons] at hs
    cases hadd : s.addStep st with
    | error e =>
      rw [hadd] at hs
      cases hs
    | ok s₁ =>
      rw [hadd] at hs
      rw [exec] at hm
      obtain ⟨⟨m₁, outcome⟩, c₁, hstep, hm⟩ := bind_inv hm
      cases outcome with
      | error e => cases hm
      | ok _ => exact ih (tracks_step h hadd hstep) hs hm

/-- Along the steps of a format a closing step always finds an open group, with keys and values in
turn if it closes a dict. After the last step no group is open, and the items outside all groups
are as many as the format says. -/
lemma frames_of_compile {source : String} {f : Format} (h : Format.compile source = .ok f)
    (args : List BuildArg) :
    (∀ done code kind rest c m c', f.steps = done ++ ⟨code, .closing kind⟩ :: rest →
      (start args).exec done c = .ok (m, .ok ()) c' →
      ∃ items outer, m.groups = items :: outer ∧ (kind = .dict → Even items.length)) ∧
    (∀ c m c', (start args).exec f.steps c = .ok (m, .ok ()) c' →
      m.groups = [] ∧ m.bottom.length = f.itemCount) := by
  obtain ⟨s, hfold, hg, hcount⟩ := Format.scan_of_compile h
  constructor
  · intro done code kind rest c m c' hsteps hexec
    rw [hsteps, List.foldlM_append] at hfold
    -- All steps were taken in, so those of a beginning were, and the next one after them.
    cases hdone : done.foldlM Scan.addStep {} with
    | error e =>
      rw [hdone] at hfold
      cases hfold
    | ok s₁ =>
      rw [hdone] at hfold
      have hrest : (s₁.addDirective code (.closing kind) >>=
          fun s => rest.foldlM Scan.addStep s) = .ok s := hfold
      cases hclose : s₁.addDirective code (.closing kind) with
      | error e =>
        rw [hclose] at hrest
        cases hrest
      | ok s₂ =>
        obtain ⟨items, outer, hm, he, -⟩ :=
          (tracks_exec (.start args) hdone hexec).closing hclose
        exact ⟨items, outer, hm, he⟩
  · intro c m c' hexec
    have htracks := tracks_exec (.start args) hfold hexec
    exact ⟨List.map_eq_nil_iff.mp (htracks.groups.trans (by rw [hg]; rfl)),
      htracks.bottom.trans hcount⟩

end Machine

end NativeCall
