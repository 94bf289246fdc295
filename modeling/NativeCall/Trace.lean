import NativeCall.Entry.Family
import NativeCall.Text.Quoted
import NativeCall.Text.Truncate

/-!
# Traces

A runtime may report what it marshals. A `TraceEvent` is one report, made when a call of the
builder, of the binder or of an entry point ends. A call that runs inside another, by way of a
conversion or of a native function, therefore reports before the other does.

A `Tracer` drops the events, keeps them, or prints a line for each. A printing tracer may have a
limit: with the line that reaches it comes a notice, and nothing after that. The line is printed
before the count is compared with the limit.
-/

namespace NativeCall

/-- One report. -/
inductive TraceEvent where
  /-- A format was built from; `ok` if a value came of it. -/
  | build (format : String) (ok : Bool)
  /-- A call was bound. -/
  | bind (fname : Option String) (nargs nkwargs : Nat) (fast : Bool)
  /-- A call could not be bound. -/
  | bindError (fname : Option String) (message : String)
  /-- The names of a declaration were interned for the first time. -/
  | namesInterned (fname : Option String) (count : Nat)
  /-- An entry point returned; `ok` unless it reported failure. -/
  | entry (family : Family) (ok : Bool)
  deriving DecidableEq, Repr

namespace TraceEvent

def columnWidth : Nat := 18

def column (s : String) : String :=
  Text.padRight columnWidth s

def status (ok : Bool) : String :=
  if ok then "ok" else "error"

/-- A function as lines show it. -/
def displayName (fname : Option String) : String :=
  match fname with
  | some name => name ++ "()"
  | none => "<anonymous>"

def line : TraceEvent → String
  | build format ok => "build  " ++ column (Quoted.logged format) ++ " " ++ status ok
  | bind fname nargs nkwargs fast =>
    "bind   " ++ column (displayName fname) ++ " nargs=" ++ toString nargs ++
      " nkwargs=" ++ toString nkwargs ++ (if fast then " fast" else " slow")
  | bindError fname message => "ERROR  " ++ column (displayName fname) ++ " " ++ message
  | namesInterned fname count =>
    "intern " ++ column (displayName fname) ++ " names=" ++ toString count
  | entry family ok => "tramp  " ++ column family.name ++ " " ++ status ok

/-- A call was bound the long way. -/
def isSlowBind : TraceEvent → Bool
  | bind _ _ _ fast => !fast
  | _ => false

end TraceEvent

/-- What a printing tracer has printed, and whether it goes on. -/
structure TraceLog where
  limit : Option Nat
  count : Nat := 0
  stopped : Bool := false
  /-- The lines so far, the last one in front. -/
  reversed : List String := []
  deriving DecidableEq, Repr

namespace TraceLog

def notice (limit : Nat) : String :=
  "--- trace limit reached (" ++ toString limit ++ " events) ---"

/-- Prints one line, and the notice if that line reaches the limit. -/
def emit (log : TraceLog) (line : String) : TraceLog :=
  if log.stopped then log
  else
    -- The line comes first, whatever the limit is.
    let log := { log with count := log.count + 1, reversed := line :: log.reversed }
    match log.limit with
    | some limit =>
      if limit ≤ log.count then
        { log with stopped := true, reversed := notice limit :: log.reversed }
      else log
    | none => log

def lines (log : TraceLog) : List String :=
  log.reversed.reverse

/-- Everything printed, each line ended by a line feed. -/
def text (log : TraceLog) : String :=
  String.join (log.lines.map (· ++ "\n"))

end TraceLog

/-- What becomes of events. -/
inductive Tracer where
  | silent
  /-- Keeps the events, the last one in front. -/
  | recording (reversed : List TraceEvent)
  | printing (log : TraceLog)
  deriving DecidableEq, Repr

namespace Tracer

def record (t : Tracer) (e : TraceEvent) : Tracer :=
  match t with
  | silent => silent
  | recording reversed => recording (e :: reversed)
  | printing log => printing (log.emit e.line)

/-- The events kept so far, if they are kept. -/
def events? : Tracer → Option (List TraceEvent)
  | recording reversed => some reversed.reverse
  | _ => none

def printed? : Tracer → Option String
  | printing log => some log.text
  | _ => none

end Tracer

end NativeCall
