import NativeCall.Proofs.Bind.Binding
import NativeCall.Proofs.Build.Ownership
import NativeCall.Proofs.Build.Simulation
import NativeCall.Session.Run
import NativeCall.Proofs.Heap.History
import NativeCall.Proofs.Heap.Effects
import NativeCall.Proofs.Heap.Command
import NativeCall.Proofs.Heap.Accounting
import NativeCall.Proofs.Accounting
import NativeCall.Proofs.Heap.ExactCounts
import NativeCall.Proofs.Bind.Placement
import NativeCall.Proofs.Heap.StoredKeys
import NativeCall.Proofs.Bind.Agreement
import NativeCall.Proofs.Bind.Repeating
import NativeCall.Proofs.Heap.Recursive
import NativeCall.Proofs.Activations
import NativeCall.Proofs.Interning
import NativeCall.Proofs.Heap.Values
import NativeCall.Proofs.Heap.Pairs
import NativeCall.Proofs.Bind.Indexed
import NativeCall.Proofs.Build.Positions
import NativeCall.Proofs.Build.Pending
import NativeCall.Proofs.Heap.Cascade
import NativeCall.Proofs.Growth
import NativeCall.Proofs.Refusal
import NativeCall.Proofs.Build.Integers
import NativeCall.Proofs.Build.Texts
import NativeCall.Proofs.Heap.Builders
import NativeCall.Proofs.Entry.Destruction
import NativeCall.Proofs.Heap.Collisions
import NativeCall.Proofs.Heap.KeyDepth
import NativeCall.Proofs.Heap.NumberTexts
import NativeCall.Proofs.LimitedTrace
import NativeCall.Proofs.Heap.Literals
