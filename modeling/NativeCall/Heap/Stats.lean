import NativeCall.Heap.Basic

/-!
# Heap statistics

A summary of a heap, by which a host can see that nothing was left behind. Live objects are counted
in the slots and empty slots on the free list, so the two numbers need not add up to the number of
slots on a heap that was made up; on the heaps that operations make they do. Of the tracker only the
totals are shown, and nothing where nothing is counted.
-/

namespace NativeCall

/-- How a heap is filled. -/
structure HeapStats where
  live : Nat
  free : Nat
  slots : Nat
  /-- How many objects there are of each kind that occurs. -/
  kinds : List (Object.Kind × Nat)
  interned : Nat
  allocations : Option Nat
  memory : Option Nat
  deriving Repr

namespace Heap

def objects (h : Heap) : List Object :=
  h.slots.toList.filterMap (fun s => s.map (·.object))

def liveCount (h : Heap) : Nat :=
  h.slots.countP Option.isSome

theorem liveCount_eq_length_objects (h : Heap) : h.liveCount = h.objects.length := by
  simp [liveCount, objects, List.length_filterMap_eq_countP, ← Array.countP_toList]

def emptyCount (h : Heap) : Nat :=
  h.slots.countP Option.isNone

def stats (h : Heap) : HeapStats :=
  let kinds := h.objects.map Object.kind
  { live := h.liveCount
    free := h.freeList.length
    slots := h.slots.size
    kinds := (Object.Kind.all.map (fun k => (k, kinds.count k))).filter (fun p => p.2 ≠ 0)
    interned := h.interned.length
    allocations := h.tracker.allocations?
    memory := h.tracker.memory? }

end Heap

end NativeCall
