import NativeCall.Bind.Arguments
import NativeCall.Session.Json
import NativeCall.Session.State

/-!
# Running scripts

`perform` answers one step of a script; `run` answers a whole script. After every step the number
of live objects and of empty slots is noted. A step that misuses the heap answers with the misuse,
and the script ends there.

A step first makes the values and keys it is given, from left to right. Only then does it look up
the format, the dict or the slot builder that it is to use them with, so a value that cannot be
made is the answer also where such a name stands for nothing.
-/

namespace NativeCall.Session

open Heap (decRef decRefs)

def checkReply (outcome : Except BindError Unit) : Reply :=
  match outcome with
  | .ok () => .done
  | .error e => .bindFailed e

def describeAll (outcome : Except BindError (List Ref)) : SessionM Reply := do
  match outcome with
  | .ok items => return .items (← items.mapM describe)
  | .error e => return .bindFailed e

def inspect (h : Heap) (r : Ref) : Option Inspection :=
  (h.object? r).map fun o =>
    { ref := r
      kind := o.kind
      typeName := o.typeName
      refCount := h.refCount r
      interned := h.isInterned r
      text := o.text?
      int := o.toInt64?
      tuple := o.tupleItems?
      dict := o.dict?
      native := o.native? }

/-! ## Builds -/

/-- The argument of a build. Only a value that is given away can fail to be made. -/
def ArgLiteral.make (a : ArgLiteral) : SessionM (Except RunError BuildArg) :=
  match a with
  | .text bytes => return .ok (.text bytes)
  | .wide units => return .ok (.wide units)
  | .size n => return .ok (.size n)
  | .int i => return .ok (.int i)
  | .uint u => return .ok (.uint u)
  | .float x => return .ok (.float x)
  | .borrowed x => return .ok (.borrowed (← resolveWord x))
  | .stolen v => return (← v.make).map (fun r => .stolen (some r))
  | .stolenNull => return .ok (.stolen none)
  | .convert c arg => return .ok (.convert (arg.map c.action))

/-- The arguments of a build; `made` holds those made before, the last one in front. If one fails,
what those before it give away is released. -/
def makeArgs (made : List BuildArg) : List ArgLiteral → SessionM (Except RunError (List BuildArg))
  | [] => return .ok made.reverse
  | a :: rest => do
    match ← a.make with
    | .ok arg => makeArgs (arg :: made) rest
    | .error e =>
      onHeap (decRefs (made.reverse.flatMap BuildArg.owned))
      return .error e

def buildReply (format : FormatSource) (args : List ArgLiteral) (dest : Option String) :
    SessionM Reply := do
  match ← makeArgs [] args with
  | .error e => return .raised e
  | .ok args =>
    let outcome ←
      match format with
      | .string s => onContext (buildValue s args).run
      | .compiled name => do
        let f ← named (·.formats) name
        onContext (f.build args).run
    match outcome with
    | .ok r => return .shown (← deliver r dest)
    | .error e => return .buildFailed e

/-! ## Calls -/

def KeywordOperand.resolve (k : KeywordOperand) : SessionM KeywordSource :=
  match k with
  | .none => return .none
  | .dict x => .dict <$> x.resolve
  | .names tuple values => do
    return .names (← tuple.resolve) (← values.mapM Operand.resolve)

def bindReply (spec : String) (args : List Operand) (kwargs : KeywordOperand) (arity : Arity) :
    SessionM Reply := do
  let spec ← named (·.specs) spec
  let args ← args.mapM Operand.resolve
  let keywords ← kwargs.resolve
  match ← onContext (Call.bind ⟨spec, args, keywords, arity⟩).run with
  | .ok bound =>
    let slots ← bound.toList.mapM fun slot => do
      match slot with
      | some r => some <$> describe r
      | none => return none
    return .bound ⟨bound, slots⟩
  | .error e => return .bindFailed e

def showNames (h : Heap) (names : List Ref) : List NameShown :=
  names.map (fun r => ⟨r.index, h.text? r, h.isInterned r⟩)

def namesReply (spec : String) (cache : Option String) : SessionM Reply := do
  let spec ← named (·.specs) spec
  let s ← get
  let cache := match cache with
    | some name => (s.caches.get? name).getD .empty
    | none => s.context.names
  return .cached cache.size ((cache.get? spec).map (showNames s.context.heap))

def cacheReply (cache spec : String) : SessionM Reply := do
  let spec ← named (·.specs) spec
  let known := ((← get).caches.get? cache).getD .empty
  match ← attempt (known.names spec) with
  -- A failure keeps the cache as it was, and makes an empty one where there was none.
  | .ok (names, known) =>
    modify (fun s => { s with caches := s.caches.put cache known })
    return .names (showNames (← theHeap) names)
  | .error e =>
    modify (fun s => { s with caches := s.caches.put cache known })
    return .raised e

/-! ## Handle sets and slot builders -/

def trackAddReply (t x : String) : SessionM Reply := do
  let set ← named (·.trackers) t
  let r ← takeOwned x
  let set := set.add r
  modify (fun s => { s with trackers := s.trackers.put t set })
  return .added r.index set.size

/-- Puts references into registers that are numbered behind a common name. -/
def nameAll (namedBy : String) (i : Nat) : List Ref → SessionM Unit
  | [] => return ()
  | r :: rest => do
    setRegister (namedBy ++ toString i) ⟨r, true⟩
    nameAll namedBy (i + 1) rest

def trackForgetReply (t namedBy : String) : SessionM Reply := do
  let set ← named (·.trackers) t
  modify (fun s => { s with trackers := s.trackers.put t .empty })
  nameAll namedBy 0 set.handles
  return .forgotten (set.handles.map (·.index)) HandleSet.empty.size

def slotsSetReply (b : String) (i : Nat) (v : Literal) : SessionM Reply := do
  match ← v.make with
  | .error e => return .raised e
  | .ok r =>
    let builder ← named (·.builders) b
    match ← attempt (builder.set i r) with
    | .ok builder =>
      modify (fun s => { s with builders := s.builders.put b builder })
      return .done
    | .error e => return .raised e

def takeBuilder (b : String) : SessionM SlotBuilder := do
  let builder ← named (·.builders) b
  modify (fun s => { s with builders := s.builders.erase b })
  return builder

/-! ## Dicts -/

def describeEntries (d : Dict) : SessionM (List (Shown × Shown)) :=
  d.entries.mapM fun e => do
    let key ← describe e.keyRef
    let value ← describe e.value
    return (key, value)

/-- The reply to a step on a dict, after the step's own outcome. -/
def dictReply (outcome : DictOutcome) (d : Dict) : SessionM Reply := do
  return .dict outcome d.size (← describeEntries d)

def dictSetReply (name : String) (k v : Literal) : SessionM Reply := do
  match ← makeAll [k, v] [] with
  | .error e => return .raised e
  | .ok [key, value] =>
    let d ← named (·.dicts) name
    match ← attempt (Heap.setItem d key value) with
    | .ok d =>
      modify (fun s => { s with dicts := s.dicts.put name d })
      dictReply .done d
    | .error e => dictReply (.raised e) d
  -- Two literals make two values.
  | .ok _ => return .done

def dictGetReply (name : String) (x : Operand) : SessionM Reply := do
  let key ← attempt (Heap.projection (← x.resolve))
  let d ← named (·.dicts) name
  match key with
  | .error e => dictReply (.raised e) d
  | .ok k =>
    match d.get? k with
    | some value => dictReply (.found (some (← describe value))) d
    | none => dictReply (.found none) d

def takeDict (name : String) : SessionM Dict := do
  let d ← named (·.dicts) name
  modify (fun s => { s with dicts := s.dicts.erase name })
  return d

/-! ## Entry points -/

/-- Calls an entry point with the session's context, or with a null one. -/
def throughEntry {α : Type} (nullContext : Bool) (call : EntryM α) : SessionM α := fun s =>
  match call (if nullContext then none else some s.context) with
  | .ok a c => .ok a { s with context := c.getD s.context }
  | .error m c => .error (.misuse m) { s with context := c.getD s.context }

def objectAnswer (result : Word) (dest : Option String) : SessionM EntryAnswer := do
  match result with
  | some r => return .object (some (← deliver r dest))
  | none => return .object none

/-- The bytes of the destructor's view up to the end of the payload. -/
def upToPayload (o : NativeObject) (seen : List UInt8) : List UInt8 :=
  seen.take (NativeObject.headerSize + o.payloadSize - o.destructorOffset)

/-- The view of a name; it shows nothing until it is filled. -/
def State.viewOf (s : State) (name : String) : BufferView :=
  (s.views.get? name).getD .zeroed

def answer (c : EntryCall) (dest : Option String) : SessionM EntryAnswer := do
  let self ← resolveWord c.self
  let arg ← resolveWord c.arg
  let kw ← resolveWord c.kw
  let s ← get
  let view := c.view.map s.viewOf
  let setView (v : Option BufferView) : SessionM Unit :=
    match c.view, v with
    | some name, some v => modify (fun s => { s with views := s.views.put name v })
    | _, _ => return ()
  let object (call : EntryM Word) : SessionM EntryAnswer := do
    objectAnswer (← throughEntry c.nullContext call) dest
  match c.fn with
  | .typeName => object (Entry.noArgs Natives.typeName self arg)
  | .fail => object (Entry.noArgs Natives.fail self arg)
  | .sameArg => object (Entry.oneArg Natives.sameArg self arg)
  | .pack => object (Entry.varArgs Natives.pack self arg)
  | .call => object (Entry.keywords Natives.call self arg kw)
  | .compare => object (Entry.richCompare Natives.compare self arg c.n)
  | .init =>
    let status ← throughEntry c.nullContext (Entry.init Natives.init self arg kw)
    return .status status
  | .getBuffer =>
    let (v, status) ← throughEntry c.nullContext
      (Entry.getBuffer Natives.getBuffer self view c.n)
    setView v
    return .status status
  | .releaseBuffer =>
    let v ← throughEntry c.nullContext
      (Entry.releaseBuffer Natives.releaseBuffer self view)
    setView v
    return .nothing
  | .dealloc =>
    -- Where the payload ends is asked before the instance is gone.
    let o := self.bind (← theHeap).native?
    let seen ← throughEntry c.nullContext (Entry.destroy id self)
    return .destroyed (do return upToPayload (← o) (← seen))

def entryReply (c : EntryCall) (dest : Option String) : SessionM Reply := do
  let answer ← answer c dest
  let s ← get
  return .entry answer s.context.pending (c.view.map s.viewOf)

/-! ## Steps -/

/-- Answers one step. -/
def perform (step : Step) : SessionM Reply := do
  match step with
  | .lit v dest => deliverReply (← v.make) dest
  | .drop x =>
    let r ← named (·.registers) x
    setRegister x { r with owned := false }
    if r.owned then onHeap (decRef r.ref)
    return .done
  | .clone x dest =>
    let r ← named (·.registers) x
    let r ← onHeap (Heap.retain r.ref)
    return .shown (← deliver r dest)
  | .intoRaw x => return .nat (← takeOwned x).index
  | .adopt x dest => return .shown (← deliver (← x.resolve) dest)
  | .incRef x =>
    let r ← x.resolve
    onHeap (Heap.incRef r)
    return .nat ((← theHeap).refCount r)
  | .decRef x =>
    let r ← x.resolve
    onHeap (decRef r)
    return .nat ((← theHeap).refCount r)
  | .releaseStorage x =>
    let r ← x.resolve
    onHeap (Heap.releaseStorage r)
    return .bool ((← theHeap).isLive r)
  | .intern s dest =>
    match ← onHeap (Heap.intern s).run with
    | .ok r =>
      if let some name := dest then setRegister name ⟨r, false⟩
      return .nat r.index
    | .error e => return .exhausted e
  | .inspect x =>
    let r ← x.resolve
    return .inspection (Session.inspect (← theHeap) r)
  | .repr x => return .text (← onHeap (Heap.repr (← x.resolve)))
  | .typeName x => return .text (← onHeap (Heap.typeName (← x.resolve)))
  | .strEq a b => return .bool ((← theHeap).sameText (← a.resolve) (← b.resolve))
  | .key x =>
    match ← attempt (Heap.projection (← x.resolve)) with
    | .ok k => return .key k
    | .error e => return .raised e
  | .stats => return .stats (← theHeap).stats
  | .depthEnter n => return .nat (← onHeap (Heap.enterLevels n))
  | .depthExit n =>
    onHeap (Heap.exitLevels n)
    return .done
  | .setPayload x offset bytes =>
    let r ← x.resolve
    match (← theHeap).native? r with
    | none => return .native none
    | some o =>
      let o := o.write offset bytes
      onHeap (Heap.update r (fun _ => .native o))
      return .native (some o)
  | .push x v =>
    match ← v.make with
    | .error e => return .raised e
    | .ok item =>
      let r ← x.resolve
      onHeap (Heap.update r fun o =>
        match o with
        | .list store => .list (store.push item)
        -- An object that is no list takes nothing in, and the item is lost.
        | o => o)
      match (← theHeap).object? r with
      | some (.list store) => return .nat store.items.length
      | _ => return .nat 0
  | .setError e =>
    onContext (Context.setError (.ordinary e))
    return .raised (.ordinary e)
  | .takeError =>
    -- Looked at on both sides: taking it must leave nothing pending.
    let before := (← get).context.pending.isSome
    let e ← onContext Context.takeError
    return .tookError before e (← get).context.pending.isSome
  | .format name source =>
    match Format.compile source with
    | .ok f =>
      modify (fun s => { s with formats := s.formats.put name f })
      return .format f
    | .error e => return .buildFailed (.format e)
  | .build format args dest => buildReply format args dest
  | .spec name keywords fname =>
    let p : ParamSpec := ⟨(← get).nextSpec, keywords, fname⟩
    modify (fun s => { s with specs := s.specs.put name p, nextSpec := s.nextSpec + 1 })
    match p.layout with
    | .ok l => return .spec p l
    | .error e => return .specFailed e
  | .bind spec args kwargs arity => bindReply spec args kwargs arity
  | .names spec cache => namesReply spec cache
  | .cache cache spec => cacheReply cache spec
  | .sameSpec a b =>
    return .bool ((← named (·.specs) a).id = (← named (·.specs) b).id)
  | .unpackStack args name least most =>
    describeAll (Arguments.unpackStack (← args.mapM Operand.resolve) name least most)
  | .unpackTuple args name least most =>
    let r ← args.resolve
    describeAll (Arguments.unpackTuple (← theHeap) r name least most)
  | .noKeywords name x =>
    let w ← resolveWord x
    return checkReply (Arguments.noKeywords (← theHeap) name w)
  | .noPositional name x =>
    let w ← resolveWord x
    return checkReply (Arguments.noPositional (← theHeap) name w)
  | .badArgument name display expected x =>
    let r ← x.resolve
    return .bindFailed (← onHeap (Arguments.badArgument name display expected r))
  | .trackNew t =>
    modify (fun s => { s with trackers := s.trackers.put t .empty })
    return .done
  | .trackAdd t x => trackAddReply t x
  | .trackForget t namedBy => trackForgetReply t namedBy
  | .trackClose t =>
    let set ← named (·.trackers) t
    modify (fun s => { s with trackers := s.trackers.erase t })
    onHeap set.close
    return .done
  | .slotsNew b kind length =>
    modify (fun s => { s with builders := s.builders.put b (.empty kind length) })
    return .done
  | .slotsSet b i v => slotsSetReply b i v
  | .slotsBuild b dest => deliverReply (← attempt (← takeBuilder b).build) dest
  | .slotsCancel b =>
    onHeap (← takeBuilder b).cancel
    return .done
  | .tupleOf items dest =>
    deliverReply (← attempt (Heap.tupleOf (← items.mapM Operand.resolve))) dest
  | .dictNew d =>
    modify (fun s => { s with dicts := s.dicts.put d .empty })
    return .done
  | .dictSet d k v => dictSetReply d k v
  | .dictGet d x => dictGetReply d x
  | .dictDrop d =>
    onHeap (Heap.releaseDict (← takeDict d))
    return .done
  | .dictFinish d dest => deliverReply (← attempt (Heap.newDict (← takeDict d))) dest
  | .entry c dest => entryReply c dest
  | .events =>
    match (← get).context.tracer with
    | .recording reversed =>
      modify (fun s => { s with context := { s.context with tracer := .recording [] } })
      return .events (some reversed.reverse)
    | _ => return .events none

/-! ## Scripts -/

/-- The reply to a step, with the number of live objects and of empty slots after it. -/
structure StepReport where
  reply : Reply
  /-- Nothing is noted after a misuse. -/
  heap : Option (Nat × Nat)

def StepReport.after (reply : Reply) (h : Heap) : StepReport :=
  ⟨reply, some (h.liveCount, h.emptyCount)⟩

/-- Answers the steps of a script in turn, up to the first one that misuses the heap. `reports` are
those on the steps before, the last one in front. -/
def runFrom (reports : List StepReport) (s : State) :
    List Step → Except String (List StepReport × State)
  | [] => .ok (reports.reverse, s)
  | step :: rest =>
    match perform step s with
    | .ok reply s => runFrom (.after reply s.context.heap :: reports) s rest
    | .error (.misuse m) s => .ok ((⟨.misused m, none⟩ :: reports).reverse, s)
    | .error (.unknownName name) _ => .error name

/-- The state in which a script starts. -/
def State.fresh (limits : Option Limits) (tracer : Tracer) : State :=
  { context := .fresh limits tracer }

/-- The reports on a script and all that was printed. A name that stands for nothing is an
error. -/
def run (limits : Option Limits) (tracer : Tracer) (script : List Step) :
    Except String (List StepReport × Option String) := do
  let (reports, s) ← runFrom [] (.fresh limits tracer) script
  return (reports, s.context.tracer.printed?)

end NativeCall.Session
