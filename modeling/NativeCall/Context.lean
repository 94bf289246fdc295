import NativeCall.Param.Names
import NativeCall.Trace

/-!
# Contexts

A context is one runtime as extension code sees it: a heap, the pending error, the interned names of
the declarations met so far, and a tracer. Everything that marshals runs in `ContextM`; like heap
operations it may stop at a misused slot and keeps the state it stopped in.

The pending error is how a native function tells its caller why it answered with null. It is one
place and not a stack: setting it forgets what was there, and taking it leaves nothing. No operation
of the heap touches it, nor the names or the tracer (`onHeap`).
-/

namespace NativeCall

structure Context where
  heap : Heap
  /-- The error that the last failing native call left for its caller. -/
  pending : Option RunError
  names : NameCache
  tracer : Tracer
  deriving Repr

/-- Operations of a runtime. -/
abbrev ContextM := EStateM Misuse Context

namespace Context

def fresh (limits : Option Limits) (tracer : Tracer) : Context where
  heap := .fresh (.ofLimits limits)
  pending := none
  names := .empty
  tracer := tracer

def onHeap {α : Type} (x : HeapM α) : ContextM α := fun ⟨heap, pending, names, tracer⟩ =>
  -- The heap is taken out of the context meanwhile, so that its slots can change in place.
  match x heap with
  | .ok a heap => .ok a ⟨heap, pending, names, tracer⟩
  | .error m heap => .error m ⟨heap, pending, names, tracer⟩

instance : MonadLift HeapM ContextM := ⟨onHeap⟩

/-- Runs a heap operation that may raise, and hands out what came of it. -/
def attempt {α : Type} (x : RunM α) : ContextM (Except RunError α) :=
  onHeap x.run

instance : MonadLift RunM (ExceptT RunError ContextM) := ⟨fun x => ExceptT.mk (attempt x)⟩

def trace (e : TraceEvent) : ContextM Unit :=
  modify (fun c => { c with tracer := c.tracer.record e })

/-- Sets the pending error; an earlier one is forgotten. -/
def setError (e : RunError) : ContextM Unit :=
  modify ({ · with pending := some e })

def takeError : ContextM (Option RunError) :=
  modifyGet (fun c => (c.pending, { c with pending := none }))

end Context

end NativeCall
