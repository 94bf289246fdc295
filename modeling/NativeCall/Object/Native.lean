/-!
# Native objects

An instance of an extension type is a block of bytes: a header of sixteen, the payload, and zeros
up to a multiple of eight. The block is zero at first and only its payload is ever written.

A destructor sees the block from its base, unless the type is *pure*: then it sees it from the
payload on.
-/

namespace NativeCall

/-- The flags of an extension type, one bit each. -/
structure TypeFlags where
  bits : UInt64
  deriving DecidableEq, Repr

namespace TypeFlags

def default : TypeFlags := ⟨0⟩

/-- Instances hide their header from the destructor. -/
def pureInternal : TypeFlags := ⟨0x100⟩

def contains (a b : TypeFlags) : Bool :=
  a.bits &&& b.bits == b.bits

end TypeFlags

/-- An instance of an extension type. -/
structure NativeObject where
  typeName : String
  flags : TypeFlags
  payloadSize : Nat
  storage : Array UInt8
  deriving DecidableEq, Repr

namespace NativeObject

def headerSize : Nat := 16

/-- The bytes of a block with `n` bytes of payload. -/
def blockSize (n : Nat) : Nat :=
  (headerSize + n + 7) / 8 * 8

def zeroed (typeName : String) (flags : TypeFlags) (payloadSize : Nat) : NativeObject :=
  ⟨typeName, flags, payloadSize, Array.replicate (blockSize payloadSize) 0⟩

def payload (o : NativeObject) : List UInt8 :=
  (o.storage.extract headerSize (headerSize + o.payloadSize)).toList

/-- Overwrites the payload from an offset on; bytes that would fall behind its end are left
out. -/
def write (o : NativeObject) (offset : Nat) (bytes : List UInt8) : NativeObject :=
  let start := headerSize + offset
  -- What is behind the payload stays zero whatever is written.
  let fitting := bytes.take (o.payloadSize - offset)
  { o with storage :=
      o.storage.extract 0 start ++ fitting.toArray ++ o.storage.extract (start + fitting.length) }

/-- Where the destructor's view of the block starts. -/
def destructorOffset (o : NativeObject) : Nat :=
  if o.flags.contains .pureInternal then headerSize else 0

def destructorView (o : NativeObject) : List UInt8 :=
  (o.storage.extract o.destructorOffset).toList

theorem size_storage_zeroed (typeName : String) (flags : TypeFlags) (n : Nat) :
    (zeroed typeName flags n).storage.size = blockSize n := by
  simp [zeroed]

end NativeObject

end NativeCall
