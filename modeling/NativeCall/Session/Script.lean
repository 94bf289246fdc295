import NativeCall.Heap.Slots
import NativeCall.Heap.Stats
import NativeCall.Session.Natives

/-!
# Scripts

A script is what a client does with one runtime, step by step. Objects are named by registers: a
register remembers a reference for ever, and may own it.

Steps are as raw as native code is. They may drop a reference that is still in use, adopt one that
belongs to somebody else, or point at any slot, and what becomes of the heap then is part of what a
script shows. A step that makes a value from a literal is the one convenience: its parts are made
and given away without names of their own.

A `Reply` shows all that a client could see of a step, so that two runs of a script can be compared
step by step.
-/

namespace NativeCall.Session

/-- An object that a step refers to, without taking a reference. -/
inductive Operand where
  | register (name : String)
  /-- One of the objects that are always there, or any slot. -/
  | ref (r : Ref)
  deriving DecidableEq, Repr

/-- A value that a step makes; each one is owned. -/
inductive Literal where
  | none
  | bool (b : Bool)
  | int (i : Int64)
  | uint (u : UInt64)
  | bigInt (i : Int)
  | float (x : Binary64)
  | str (s : String)
  | bytes (bs : List UInt8)
  | interned (s : String)
  | native (typeName : String) (flags : TypeFlags) (payloadSize : Nat)
  | tuple (items : List Literal)
  | list (items : List Literal)
  /-- Keys and values in turn. -/
  | dict (items : List Literal)
  /-- A new reference to an object. -/
  | retained (x : Operand)
  /-- The reference that a register owns. -/
  | moved (register : String)

inductive ArgLiteral where
  | text (bytes : Option (List UInt8))
  | wide (units : Option (List UInt32))
  | size (n : Int64)
  | int (i : Int64)
  | uint (u : UInt64)
  | float (x : Binary64)
  | borrowed (x : Option Operand)
  | stolen (v : Literal)
  | stolenNull
  /-- A conversion; its argument may be null, or something else than an integer. -/
  | convert (c : Natives.Converter) (arg : Option (Option Int64))

/-- The format of a build: a string, or the name of a format made before. -/
inductive FormatSource where
  | string (s : String)
  | compiled (name : String)

inductive KeywordOperand where
  | none
  | dict (x : Operand)
  | names (names : Operand) (values : List Operand)

inductive NativeFn where
  | typeName | fail | sameArg | pack | call | init | compare | getBuffer | releaseBuffer | dealloc
  deriving DecidableEq, Repr

structure EntryCall where
  fn : NativeFn
  self : Option Operand
  arg : Option Operand
  kw : Option Operand
  /-- The buffer view that is passed, and shown afterwards. -/
  view : Option String
  /-- The operator of a comparison, or the flags of a buffer request. -/
  n : Int
  nullContext : Bool

/-- One step of a script. Where a step names a destination, the value made goes into that
register; without one it is released at once. -/
inductive Step where
  | lit (v : Literal) (dest : Option String)
  | drop (x : String)
  | clone (x : String) (dest : Option String)
  | intoRaw (x : String)
  | adopt (x : Operand) (dest : Option String)
  | incRef (x : Operand)
  | decRef (x : Operand)
  | releaseStorage (x : Operand)
  | intern (s : String) (dest : Option String)
  | inspect (x : Operand)
  | repr (x : Operand)
  | typeName (x : Operand)
  | strEq (a b : Operand)
  | key (x : Operand)
  | stats
  | depthEnter (n : Nat)
  | depthExit (n : Nat)
  | setPayload (x : Operand) (offset : Nat) (bytes : List UInt8)
  | push (x : Operand) (v : Literal)
  | setError (e : Exception)
  | takeError
  | format (name : String) (source : String)
  | build (format : FormatSource) (args : List ArgLiteral) (dest : Option String)
  | spec (name : String) (keywords : List String) (fname : Option String)
  | bind (spec : String) (args : List Operand) (kwargs : KeywordOperand) (arity : Arity)
  | names (spec : String) (cache : Option String)
  | cache (cache : String) (spec : String)
  | sameSpec (a b : String)
  | unpackStack (args : List Operand) (name : Option String) (least most : Nat)
  | unpackTuple (args : Operand) (name : Option String) (least most : Nat)
  | noKeywords (name : String) (x : Option Operand)
  | noPositional (name : String) (x : Option Operand)
  | badArgument (name display expected : String) (x : Operand)
  | trackNew (t : String)
  | trackAdd (t : String) (x : String)
  | trackForget (t : String) (namedBy : String)
  | trackClose (t : String)
  | slotsNew (b : String) (kind : SequenceKind) (length : Nat)
  | slotsSet (b : String) (i : Nat) (v : Literal)
  | slotsBuild (b : String) (dest : Option String)
  | slotsCancel (b : String)
  | tupleOf (items : List Operand) (dest : Option String)
  | dictNew (d : String)
  | dictSet (d : String) (k v : Literal)
  | dictGet (d : String) (x : Operand)
  | dictDrop (d : String)
  | dictFinish (d : String) (dest : Option String)
  | entry (c : EntryCall) (dest : Option String)
  | events

/-- An object as replies show it: its slot and its text. -/
structure Shown where
  index : Nat
  text : String
  deriving DecidableEq, Repr

structure Inspection where
  ref : Ref
  kind : Object.Kind
  typeName : String
  refCount : Nat
  interned : Bool
  text : Option String
  int : Option Int64
  tuple : Option (List Ref)
  dict : Option Dict
  native : Option NativeObject
  deriving Repr

structure BoundShown where
  bound : BoundArgs
  slots : List (Option Shown)
  deriving Repr

structure NameShown where
  index : Nat
  text : Option String
  interned : Bool
  deriving DecidableEq, Repr

inductive DictOutcome where
  | done
  | found (s : Option Shown)
  | raised (e : RunError)
  deriving Repr

inductive EntryAnswer where
  | object (s : Option Shown)
  | status (n : Int)
  | nothing
  /-- The bytes that the destructor was handed, up to the end of the payload. -/
  | destroyed (seen : Option (List UInt8))
  deriving Repr

/-- The answer to a step. -/
inductive Reply where
  | done
  | shown (s : Shown)
  | raised (e : RunError)
  | buildFailed (e : BuildError)
  | bindFailed (e : BindError)
  | exhausted (e : ResourceError)
  | misused (m : Misuse)
  | nat (n : Nat)
  | bool (b : Bool)
  | text (s : String)
  | inspection (i : Option Inspection)
  | key (k : Key)
  | stats (s : HeapStats)
  | native (o : Option NativeObject)
  /-- Whether an error was pending, the error, and whether one is pending now. -/
  | tookError (before : Bool) (e : Option RunError) (after : Bool)
  | format (f : Format)
  | spec (p : ParamSpec) (l : Layout)
  | specFailed (e : SpecError)
  | bound (b : BoundShown)
  /-- The size of a name cache and the names of one declaration in it. -/
  | cached (size : Nat) (names : Option (List NameShown))
  | names (names : List NameShown)
  | items (items : List Shown)
  | added (index size : Nat)
  | forgotten (indices : List Nat) (size : Nat)
  | dict (outcome : DictOutcome) (size : Nat) (entries : List (Shown × Shown))
  | entry (answer : EntryAnswer) (pending : Option RunError) (view : Option BufferView)
  | events (events : Option (List TraceEvent))

end NativeCall.Session
