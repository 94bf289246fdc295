import NativeCall.Bind.Basic
import NativeCall.Proofs.Build.Effects
import NativeCall.Proofs.Entry.Protocol

/-!
# Programs of extension code

Native code uses a runtime from outside and from within: a native function that an entry point calls
may build and bind, and so may a conversion that a build runs. `Program allowed declared x` says
that `x` is an operation of this sort. It does one thing after the other, depending on what it got
and on what it sees of the runtime, works on the heap as it likes as long as it changes objects in
their slots only where that is `allowed`, and builds, binds and calls entry points, where the
foreign code that runs in between is a program again. The declarations that calls are bound with are
among those `declared`.

To show something of every program, it is shown of the parts that programs are made of. A build is
taken apart by `Hosts.run` and an entry point by `Invocation.run_of_admits`, so that what has to be
shown of them is about the conversions and the native function and one event.

Foreign code is a function of the language and could be anything. As arbitrary functions of the
runtime, conversions could replace the heap or the cache by another one, and nothing would hold of a
build that runs them. The inductive definition is the least that has to be known: foreign code
reaches the runtime through the operations that it is given. It does not say that foreign code
releases what it owns or raises what it is told; where that matters it is asked for in addition.

The second part of a sequence need only be a program for results that the first part can have, so
that a program may depend on what it has computed and need not be defined elsewhere.
-/

namespace NativeCall

open Heap

/-- What native code does with a runtime. -/
inductive Program (allowed : Object → Object → Prop) (declared : Set ParamSpec) :
    (α : Type) → ContextM α → Prop where
  | ret {α : Type} (a : α) : Program allowed declared α (pure a)
  /-- One program and then another, which may depend on the result of the first. -/
  | seq {α β : Type} {x : ContextM α} {f : α → ContextM β} (hx : Program allowed declared α x)
      (hf : ∀ c a c', x c = .ok a c' → Program allowed declared β (f a)) :
      Program allowed declared β (x >>= f)
  | look : Program allowed declared Context (getThe Context)
  | heap {α : Type} {x : HeapM α} (hx : Marshals allowed x) :
      Program allowed declared α (Context.onHeap x)
  | setError (e : RunError) : Program allowed declared Unit (Context.setError e)
  | takeError : Program allowed declared (Option RunError) Context.takeError
  /-- A build from a format that was read before. -/
  | build (f : Format) {args : List BuildArg}
      (hargs : ∀ arg ∈ args, ∀ a, arg = .convert (some a) → Program allowed declared _ a.run) :
      Program allowed declared _ (f.build args).run
  /-- A build from a format string. -/
  | buildValue (source : String) {args : List BuildArg}
      (hargs : ∀ arg ∈ args, ∀ a, arg = .convert (some a) → Program allowed declared _ a.run) :
      Program allowed declared _ (NativeCall.buildValue source args).run
  | bind (call : Call) (hcall : call.spec ∈ declared) :
      Program allowed declared _ call.bind.run
  /-- A call of an entry point, whatever heap its words are looked at on. -/
  | entry {α : Type} (inv : Entry.Invocation α)
      (himpl : ∀ h impl, inv.Admits h impl → Program allowed declared α impl) :
      Program allowed declared α inv.run
  /-- The function of an entry point that destroys does nothing to the runtime. -/
  | destroy {α : Type} (f : List UInt8 → α) (obj : Word) :
      Program allowed declared (Option α) (Entry.within (Entry.destroy f obj))

end NativeCall
