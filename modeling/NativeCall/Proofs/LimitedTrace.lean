import Mathlib.Data.List.Basic
import Mathlib.Tactic.ByContra
import Mathlib.Tactic.Lemma
import Mathlib.Tactic.SplitIfs
import NativeCall.Trace

/-!
# Traces with a limit

A printing tracer with a limit prints the line of an event, counts it, and only then compares the
count with the limit. The line that reaches the limit is followed by the notice, and the tracer is
stopped. A limit of zero is not met before the first line is printed, so that line is one too many.

What such a log holds can be told from the lines it was given (`after`). One more line leads from
the log after some lines to the log after these and the new one (`emit_after`), and from that the
log after any events is known (`foldl_record_after`). `cutAt` says which lines are to be seen for a
number of lines that may be shown, and `lines_of_limited` compares what is printed with what the
limit allows.

`cutAt` has two numbers because they come apart: how many lines are shown, and which limit the
notice names. For every positive limit both are the limit. For zero the notice names zero and one
line is shown. Writing the number of lines that are shown as `max limit 1` keeps the step lemma free
of a case for zero, so that the exception is stated once, in the comparison at the end.

That the notice is printed once is counted in the lines of the log, so it has to be known that no
event has the notice for its line. The lines of events begin with one of four characters, and the
notice with none of them (`line_ne_notice`).
-/

namespace NativeCall

open TraceEvent (line)

namespace TraceLog

variable {n shown limit : Nat} {ls : List String} {l : String}

/-- A log that stops at a limit, before its first line. -/
def limited (limit : Nat) : TraceLog :=
  { limit := some limit }

/-! ## What is to be seen -/

/-- The first lines, as many as may be `shown`, and the notice if there are so many. Before the
first line there is no notice. -/
def cutAt (shown limit : Nat) (ls : List String) : List String :=
  ls.take shown ++ if shown ≤ ls.length ∧ ls ≠ [] then [notice limit] else []

lemma cutAt_of_lt (h : ls.length < shown) : cutAt shown limit ls = ls := by
  simp [cutAt, List.take_of_length_le (Nat.le_of_lt h), Nat.not_le_of_lt h]

lemma cutAt_of_le (h : shown ≤ ls.length) (hls : ls ≠ []) :
    cutAt shown limit ls = ls.take shown ++ [notice limit] := by
  rw [cutAt, if_pos ⟨h, hls⟩]

/-- The notice stands once where the lines reach the limit, and nowhere else. -/
lemma count_notice (h : notice limit ∉ ls) : (cutAt shown limit ls).count (notice limit) =
    if shown ≤ ls.length ∧ ls ≠ [] then 1 else 0 := by
  have htake : (ls.take shown).count (notice limit) = 0 :=
    List.count_eq_zero.mpr (fun hmem => h (List.mem_of_mem_take hmem))
  rw [cutAt, List.count_append, htake]
  split_ifs <;> simp

lemma le_length_of_notice_mem (h : notice limit ∉ ls) (hmem : notice limit ∈ cutAt shown limit ls) :
    shown ≤ ls.length := by
  by_contra hopen
  rw [cutAt_of_lt (Nat.lt_of_not_le hopen)] at hmem
  exact h hmem

/-- Where there is a line, the notice is due for one that is always shown just when it is due for
the limit alone. -/
lemma max_one_le_iff : max limit 1 ≤ ls.length ∧ ls ≠ [] ↔ limit ≤ ls.length ∧ ls ≠ [] := by
  refine and_congr_left (fun hls => ?_)
  have hpos := List.length_pos_of_ne_nil hls
  omega

/-- Only for a limit of zero does it matter that one line is always shown. -/
lemma cutAt_max_one_iff : cutAt (max n 1) limit ls = cutAt n limit ls ↔ n ≠ 0 ∨ ls = [] := by
  rcases Nat.eq_zero_or_pos n with rfl | hn
  · cases ls with
    | nil => simp [cutAt]
    | cons l ls => simp [cutAt]
  · simp [Nat.max_eq_left hn, Nat.ne_of_gt hn]

/-! ## The log after some lines -/

/-- A log with a limit that was given some lines. -/
def after (limit : Nat) (ls : List String) : TraceLog where
  limit := some limit
  count := min ls.length (max limit 1)
  stopped := decide (max limit 1 ≤ ls.length)
  reversed := (cutAt (max limit 1) limit ls).reverse

/-- Before the limit the log holds the lines. -/
lemma after_of_lt (h : ls.length < max limit 1) :
    after limit ls = ⟨some limit, ls.length, false, ls.reverse⟩ := by
  rw [after, cutAt_of_lt h, Nat.min_eq_left (Nat.le_of_lt h), decide_eq_false (Nat.not_le_of_lt h)]

lemma after_nil : after limit [] = TraceLog.limited limit :=
  after_of_lt (Nat.le_max_right limit 1)

/-- From the limit on it holds the first lines and the notice. -/
lemma after_of_le (h : max limit 1 ≤ ls.length) : after limit ls =
    ⟨some limit, max limit 1, true, notice limit :: (ls.take (max limit 1)).reverse⟩ := by
  have hls : ls ≠ [] := List.ne_nil_of_length_pos (by omega)
  rw [after, cutAt_of_le h hls, Nat.min_eq_right h, decide_eq_true h, List.reverse_append]
  rfl

/-- There is nothing after the notice. -/
lemma after_append (h : max limit 1 ≤ ls.length) (more : List String) :
    after limit (ls ++ more) = after limit ls := by
  have hlength : max limit 1 ≤ (ls ++ more).length := by
    rw [List.length_append]
    omega
  rw [after_of_le h, after_of_le hlength, List.take_append_of_le_length h]

lemma emit_of_stopped {log : TraceLog} (h : log.stopped = true) : log.emit l = log := by
  rw [emit, if_pos h]

lemma emit_of_open (count : Nat) (reversed : List String) :
    emit ⟨some limit, count, false, reversed⟩ l =
      if limit ≤ count + 1 then ⟨some limit, count + 1, true, notice limit :: l :: reversed⟩
      else ⟨some limit, count + 1, false, l :: reversed⟩ :=
  rfl

/-- **One line.** The log was stopped before, or the line reaches the limit, or there is more to
come. -/
lemma emit_after : (after limit ls).emit l = after limit (ls ++ [l]) := by
  have hlength : (ls ++ [l]).length = ls.length + 1 := List.length_append
  rcases Nat.lt_or_ge ls.length (max limit 1) with hlt | hstopped
  · rw [after_of_lt hlt, emit_of_open]
    split_ifs with hlimit
    · have hreach : max limit 1 = (ls ++ [l]).length := by omega
      rw [after_of_le (Nat.le_of_eq hreach), hreach, List.take_length, List.reverse_append, hlength]
      rfl
    · rw [after_of_lt (by omega), List.reverse_append, hlength]
      rfl
  · rw [after_append hstopped, after_of_le hstopped, emit_of_stopped rfl]

/-! ## What is printed -/

lemma head?_append {s : String} {c : Char} (hs : s.toList.head? = some c) (t : String) :
    (s ++ t).toList.head? = some c := by
  rw [String.toList_append, List.head?_append, hs, Option.some_or]

/-- The characters that the line of an event may begin with. -/
lemma head?_line (e : TraceEvent) : ∃ c ∈ ['b', 'E', 'i', 't'], e.line.toList.head? = some c := by
  cases e with
  | build | bind =>
    simp only [line, String.append_assoc]
    exact ⟨'b', by decide, head?_append (by simp) _⟩
  | bindError =>
    simp only [line, String.append_assoc]
    exact ⟨'E', by decide, head?_append (by simp) _⟩
  | namesInterned =>
    simp only [line, String.append_assoc]
    exact ⟨'i', by decide, head?_append (by simp) _⟩
  | entry =>
    simp only [line, String.append_assoc]
    exact ⟨'t', by decide, head?_append (by simp) _⟩

/-- No event is reported in the words of the notice. -/
lemma line_ne_notice (e : TraceEvent) (limit : Nat) : e.line ≠ notice limit := by
  intro h
  obtain ⟨c, hc, hfirst⟩ := head?_line e
  have hnotice : (notice limit).toList.head? = some '-' :=
    head?_append (head?_append (by simp) _) _
  rw [h, hnotice] at hfirst
  obtain rfl := Option.some.inj hfirst
  exact absurd hc (by decide)

lemma notice_not_mem (events : List TraceEvent) (limit : Nat) :
    notice limit ∉ events.map line := by
  intro hmem
  obtain ⟨e, -, he⟩ := List.mem_map.mp hmem
  exact line_ne_notice e limit he

/-- Events that are reported one after the other. -/
lemma foldl_record_after (events : List TraceEvent) :
    events.foldl Tracer.record (.printing (after limit ls)) =
      .printing (after limit (ls ++ events.map line)) := by
  induction events generalizing ls with
  | nil => rw [List.map_nil, List.append_nil, List.foldl_nil]
  | cons e events ih =>
    rw [List.foldl_cons, List.map_cons, List.append_cons, ← ih, ← emit_after]
    rfl

lemma lines_after : (after limit ls).lines = cutAt (max limit 1) limit ls := by
  rw [lines, after, List.reverse_reverse]

/-- **Limited traces.** A printing tracer with a limit that is given some events prints a line for
each of the first ones, up to the limit but for one event at least, and then, if there were so many,
the notice, once. After the notice it prints nothing. This is what the limit allows, unless the
limit is zero and there was an event: the line of the first event is one too many then. -/
theorem lines_of_limited (limit : Nat) (events : List TraceEvent) :
    ∃ log, events.foldl Tracer.record (.printing (.limited limit)) = .printing log ∧
      log.lines = cutAt (max limit 1) limit (events.map line) ∧
      log.lines.count (notice limit) = (if limit ≤ events.length ∧ events ≠ [] then 1 else 0) ∧
      (notice limit ∈ log.lines →
        ∀ more : List TraceEvent, more.foldl Tracer.record (.printing log) = .printing log) ∧
      (log.lines = cutAt limit limit (events.map line) ↔ limit ≠ 0 ∨ events = []) := by
  have hnotice := notice_not_mem events limit
  refine ⟨after limit (events.map line), ?_, lines_after, ?_, ?_, ?_⟩
  · rw [← after_nil, foldl_record_after, List.nil_append]
  -- The number of lines that are shown is reached just if the limit is, once there is a line at
  -- all.
  · have hdue : (max limit 1 ≤ (events.map line).length ∧ events.map line ≠ []) ↔
        (limit ≤ events.length ∧ events ≠ []) := by
      rw [max_one_le_iff, List.length_map, ne_eq, List.map_eq_nil_iff]
    rw [lines_after, count_notice hnotice]
    exact if_congr hdue rfl rfl
  · intro hmem more
    rw [lines_after] at hmem
    rw [foldl_record_after, after_append (le_length_of_notice_mem hnotice hmem)]
  · rw [lines_after, cutAt_max_one_iff, List.map_eq_nil_iff]

/-- A limit of two and three events: two lines and the notice, and nothing for a fourth event. -/
theorem lines_of_limited_two : ∃ log,
    [TraceEvent.build "i" true, .bind (some "f") 1 1 false, .entry .keywords true].foldl
        Tracer.record (.printing (.limited 2)) = .printing log ∧
      log.lines = ["build  \"i\"                ok", "bind   f()                nargs=1 nkwargs=1 slow",
        "--- trace limit reached (2 events) ---"] ∧
      Tracer.record (.printing log) (.build "l" true) = .printing log := by
  obtain ⟨log, hlog, hlines, -, hstopped, -⟩ := lines_of_limited 2
    [.build "i" true, .bind (some "f") 1 1 false, .entry .keywords true]
  have hall : log.lines = ["build  \"i\"                ok",
      "bind   f()                nargs=1 nkwargs=1 slow",
      "--- trace limit reached (2 events) ---"] := hlines.trans (by decide +kernel)
  refine ⟨log, hlog, hall, hstopped ?_ [.build "l" true]⟩
  rw [hall]
  decide +kernel

/-- A limit of zero and one event: its line is printed, though the limit allows only the notice. -/
theorem lines_of_limited_zero : ∃ log,
    [TraceEvent.build "i" true].foldl Tracer.record (.printing (.limited 0)) = .printing log ∧
      log.lines = ["build  \"i\"                ok", "--- trace limit reached (0 events) ---"] ∧
      cutAt 0 0 [line (.build "i" true)] = ["--- trace limit reached (0 events) ---"] :=
  ⟨_, rfl, by decide +kernel, by decide +kernel⟩

end TraceLog

end NativeCall
