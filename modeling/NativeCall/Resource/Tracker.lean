import NativeCall.Exception

/-!
# Resource limits

A host may bound how many allocations a heap makes over its life and how many bytes its objects
occupy at a time. A `Meter` counts both; a `Tracker` is a meter or the absence of one.

A charge that would pass a limit is refused and changes nothing (`Meter.charge`), and the limit on
the number of allocations is looked at first. Allocations are never given back; bytes are
(`Meter.credit`).

A credit takes off what an object occupies when it goes, and no more than is there: a meter that is
given back more than it was charged stops at 0. It has no means to tell that this happened.
-/

namespace NativeCall

/-- The limits of one heap; an absent limit is no limit. -/
structure Limits where
  maxAllocations : Option Nat := none
  maxMemory : Option Nat := none
  deriving DecidableEq, Repr

/-- Why an allocation was refused. -/
inductive ResourceError where
  /-- The allocation would have been number `count`. -/
  | allocations (limit count : Nat)
  /-- The heap would have come to hold `used` bytes. -/
  | memory (limit used : Nat)
  deriving DecidableEq, Repr

namespace ResourceError

def message : ResourceError → String
  | allocations limit count =>
    "allocation limit exceeded: " ++ toString count ++ " > " ++ toString limit
  | memory limit used =>
    "memory limit exceeded: " ++ toString used ++ " bytes > " ++ toString limit ++ " bytes"

/-- Exhaustion of a resource is fatal: extension code cannot swallow it. -/
def toRunError (e : ResourceError) : RunError :=
  .fatal ⟨.memoryError, some e.message⟩

@[simp] theorem isInstance_toRunError (e : ResourceError) (c : ExcClass) :
    e.toRunError.isInstance c = false := rfl

end ResourceError

/-- What a limited heap has used so far. -/
structure Meter where
  limits : Limits
  allocations : Nat := 0
  memory : Nat := 0
  deriving DecidableEq, Repr

namespace Meter

/-- The limit that `n` passes, if it passes one. -/
def passed? (limit : Option Nat) (n : Nat) : Option Nat :=
  limit.filter (· < n)

/-- Counts one allocation of `size` bytes, unless a limit forbids it. -/
def charge (m : Meter) (size : Nat) : Except ResourceError Meter :=
  let count := m.allocations + 1
  let used := m.memory + size
  match passed? m.limits.maxAllocations count with
  | some max => .error (.allocations max count)
  | none =>
    match passed? m.limits.maxMemory used with
    | some max => .error (.memory max used)
    | none => .ok { m with allocations := count, memory := used }

/-- Gives back the bytes of a freed object. -/
def credit (m : Meter) (size : Nat) : Meter :=
  -- Cut off at 0.
  { m with memory := m.memory - size }

theorem passed?_eq_none {limit : Option Nat} {n : Nat} :
    passed? limit n = none ↔ ∀ max ∈ limit, n ≤ max := by
  cases limit <;> simp [passed?, Option.filter]

/-- A charge is granted exactly when it respects both limits, and then it adds one allocation and
its bytes. -/
theorem charge_eq_ok {m n : Meter} {size : Nat} :
    m.charge size = .ok n ↔
      (∀ max ∈ m.limits.maxAllocations, m.allocations + 1 ≤ max) ∧
      (∀ max ∈ m.limits.maxMemory, m.memory + size ≤ max) ∧
      n = { m with allocations := m.allocations + 1, memory := m.memory + size } := by
  simp only [← passed?_eq_none, charge]
  cases passed? m.limits.maxAllocations (m.allocations + 1) <;>
    cases passed? m.limits.maxMemory (m.memory + size) <;> simp [eq_comm]

end Meter

/-- The resource accounting of a heap. -/
inductive Tracker where
  | unlimited
  | limited (m : Meter)
  deriving DecidableEq, Repr

namespace Tracker

def ofLimits : Option Limits → Tracker
  | none => unlimited
  | some limits => limited ⟨limits, 0, 0⟩

/-- Asks for one allocation of `size` bytes. -/
def charge (t : Tracker) (size : Nat) : Except ResourceError Tracker :=
  match t with
  | unlimited => .ok unlimited
  | limited m => limited <$> m.charge size

/-- Gives back the bytes of a freed object. -/
def credit (t : Tracker) (size : Nat) : Tracker :=
  match t with
  | unlimited => unlimited
  | limited m => limited (m.credit size)

def allocations? : Tracker → Option Nat
  | unlimited => none
  | limited m => some m.allocations

def memory? : Tracker → Option Nat
  | unlimited => none
  | limited m => some m.memory

end Tracker

end NativeCall
