import Tributary.Debouncer
import Tributary.Marker
import Tributary.Registry
import Tributary.Rehearsal.Strategies
import Tributary.Store.Directory
import Tributary.Store.Memory
import Tributary.Time.Timeline

/-!
# A world to rehearse in

A store, a downstream and a clock that do as they are told. Calls of the store can be made
to fail, other writers can be made to come in between, and the answers of the downstream
are scripted. What happens is logged.
-/

namespace Tributary.Rehearsal

/-- Records in memory beside a folder that has nothing to do with them, or in the files of the
folder. -/
inductive Backend where
  | memory (records : Memory) (folder : Folder)
  | directory (directory : Directory)

namespace Backend

def perform (b : Backend) (now : Instant) (c : Store.Call) : Store.Answer c × Backend :=
  match b with
  | .memory m folder =>
    let (answer, m) := Store.perform m now c
    (answer, .memory m folder)
  | .directory d =>
    let (answer, d) := Store.perform d now c
    (answer, .directory d)

def folder : Backend → Folder
  | .memory _ folder => folder
  | .directory d => d.folder

def withFolder (folder : Folder) : Backend → Backend
  | .memory m _ => .memory m folder
  | .directory d => .directory { d with folder }

/-- Opens the files again; the store has forgotten its tokens. -/
def reopen : Backend → Backend
  | .memory m folder => .memory m folder
  | .directory d => .directory (.openAt d.folder)

end Backend

/-- The kinds of store calls. -/
inductive Operation where
  | get
  | create
  | update
  | updateStatus
  | delete
  | list
  deriving DecidableEq

def Operation.of : Store.Call → Operation
  | .get _ => .get
  | .create _ => .create
  | .update _ => .update
  | .updateStatus _ => .updateStatus
  | .delete _ => .delete
  | .list => .list

/-- How a store call is made to fail. -/
inductive Fault where
  | pass
  | conflict
  | notFound
  | alreadyExists
  | backend (message : String)
  deriving DecidableEq

/-- The largest token there can be. -/
def lastToken : Nat := Nat.pow 2 64 - 1

/-- The text that stands for a fault. -/
def Fault.name : Fault → String
  | .pass => "pass"
  | .conflict => "conflict"
  | .notFound => "not_found"
  | .alreadyExists => "exists"
  | .backend message => message

/-- The error of a faulty call on a record, or on a key with token zero. -/
def Fault.error? (key : String) (token : Nat) : Fault → Option StoreError
  | .pass => none
  | .conflict => some (.conflict key token lastToken)
  | .notFound => some (.notFound key)
  | .alreadyExists => some (.alreadyExists key)
  | .backend message => some (.backend message)

def Fault.errorOf (f : Fault) : Store.Call → Option StoreError
  | .get key => f.error? key 0
  | .create r => f.error? r.key r.token
  | .update r => f.error? r.key r.token
  | .updateStatus r => f.error? r.key r.token
  | .delete r => f.error? r.key r.token
  | .list => if f = .pass then none else some (.backend f.name)

/-- What a contributor does. -/
inductive Contributor where
  | register (key : String) (template : Template) (source : Contribution)
  | unregister (key : String) (owner : Owner)
  | requestDeletion (key : String)

/-- What a hook waits for: a kind of call, or the write of a synchronised status. -/
inductive Trigger where
  | call (operation : Operation)
  | synced
  deriving DecidableEq

def Trigger.matches (t : Trigger) (c : Store.Call) : Bool :=
  match t, c with
  | .call op, c => Operation.of c = op
  | .synced, .updateStatus r => r.status.phase = .synced
  | .synced, _ => false

/-- Contributors that come in before a call, after so many others. -/
structure Hook where
  trigger : Trigger
  skip : Nat
  steps : List Contributor

/-- The contributors that come in before a call, and the hooks that are left. -/
def fire (c : Store.Call) : List Hook → List Contributor × List Hook
  | [] => ([], [])
  | h :: rest =>
    if h.trigger.matches c then
      match h.skip with
      | 0 => (h.steps, rest)
      | n + 1 =>
        let (steps, rest) := fire c rest
        (steps, { h with skip := n } :: rest)
    else
      let (steps, rest) := fire c rest
      (steps, h :: rest)

/-- What happened downstream. -/
structure DownstreamCall where
  isPush : Bool
  resourceType : String
  time : Nat
  scope : Table String
  credentials : Option String
  aggregation : Aggregation

/-- The answers that the downstream will give; it succeeds when there are none. -/
structure Script where
  push : List (Except DownstreamError PushOutcome) := []
  teardown : List (Except DownstreamError PushOutcome) := []
  credentials : List (Except DownstreamError PushOutcome) := []
  /-- How long a push takes. -/
  pushMs : Nat := 0

structure World where
  backend : Backend
  /-- The milliseconds since the beginning. -/
  clock : Nat := 0
  beginning : Int
  faults : List (Operation × Fault) := []
  hooks : List Hook := []
  script : Script := {}
  downstream : List (Json × String) := []
  /-- The debouncer that holds back passes. -/
  gate : Debouncer := {}
  /-- The latest first. -/
  calls : List DownstreamCall := []
  /-- The latest first. -/
  events : List Event := []
  /-- The events that no host has taken notice of yet. -/
  published : List Event := []
  /-- The directory that a host watches. -/
  watched : Option Location := none
  /-- The names of changed files in that directory, the first one first. -/
  touched : List String := []

namespace World

/-- Whether a place is directly in the watched directory. -/
def watches (w : World) (l : Location) : Bool := l ≠ [] && w.watched = some l.dropLast

/-- Puts changed files in place. -/
def changeFiles (w : World) (changed : List Location) (folder : Folder) : World :=
  { w with
    backend := w.backend.withFolder folder
    touched := w.touched ++ (changed.filter w.watches).filterMap (·.getLast?) }

def now (w : World) : Instant := .ofMillis (w.beginning + w.clock)

/-- Makes a store call, and listens to what the store publishes. -/
def perform (w : World) (c : Store.Call) : Store.Answer c × World :=
  let (answer, backend) := w.backend.perform w.now c
  let heard := (c.published answer).toList
  (answer, { w with backend, events := heard ++ w.events, published := w.published ++ heard })

/-- Runs the program of a contributor that nobody disturbs. -/
def undisturbed : Program α → World → World
  | .done _, w => w
  | .ask (.store c) next, w =>
    let (answer, w) := w.perform c
    undisturbed (next answer) w
  | .ask .now next, w => undisturbed (next w.now) w
  | .ask (.sleep d) next, w =>
    undisturbed (next ()) { w with clock := Timeline.after w.clock d.ticks }
  | .ask (.coalescing _) next, w => undisturbed (next false) w
  | .ask (.aggregate ..) next, w => undisturbed (next (.ok .empty)) w
  | .ask (.credentials reference) next, w => undisturbed (next (.ok ⟨reference⟩)) w
  | .ask (.push ..) next, w => undisturbed (next (.ok {})) w
  | .ask (.teardown ..) next, w => undisturbed (next (.ok ())) w

def contribute (w : World) : Contributor → World
  | .register key template source => undisturbed (Registry.register {} key template source) w
  | .unregister key owner => undisturbed (Registry.unregister {} key owner) w
  | .requestDeletion key => undisturbed (Registry.requestDeletion {} key) w

/-- The first fault for a kind of call, and the others. -/
def takeFault (op : Operation) : List (Operation × Fault) → Fault × List (Operation × Fault)
  | [] => (.pass, [])
  | (o, f) :: rest =>
    if o = op then (f, rest)
    else
      let (found, rest) := takeFault op rest
      (found, (o, f) :: rest)

/-- Makes a store call that hooks come before and faults may befall. -/
def call (w : World) (c : Store.Call) : Store.Answer c × World :=
  let (steps, hooks) := fire c w.hooks
  let w := steps.foldl contribute { w with hooks }
  let (fault, faults) := takeFault (.of c) w.faults
  let w := { w with faults }
  match fault.errorOf c with
  | some e => (.error e, w)
  | none => w.perform c

/-- The managed entries of an aggregation of entry lists, each with the marker of its owner. -/
def managedEntries (value : Json) : List (Json × String) :=
  match value with
  | .arr items => items.filterMap fun item =>
    match item.get? "entry", item.get? "owner" with
    | some entry, some owner =>
      (Json.read Owner.read owner.compact).map fun o => (entry, Marker.append o "")
    | _, _ => none
  | _ => []

/-- What a successful call leaves downstream. -/
def settleDownstream (w : World) (resourceType : String) (a : Aggregation) : World :=
  if resourceType = "access-rules" then
    { w with
      downstream := Marker.mergePreservingExternal (·.2) (managedEntries a.value) w.downstream }
  else w

/-- What a push answers by itself. -/
def created : PushOutcome :=
  { externalId := some "ext-1", summary := .ofList [("zoneId", "ext-1")] }

/-- The next answer of a script. -/
def nextAnswer (fallback : PushOutcome) :
    List (Except DownstreamError PushOutcome) →
      Except DownstreamError PushOutcome × List (Except DownstreamError PushOutcome)
  | [] => (.ok fallback, [])
  | answer :: rest => (answer, rest)

def credentials (w : World) (reference : Option String) :
    Except DownstreamError Credentials × World :=
  let (answer, rest) := nextAnswer {} w.script.credentials
  (answer.map fun _ => ⟨reference⟩, { w with script := { w.script with credentials := rest } })

def logCall (w : World) (isPush : Bool) (resourceType : String) (scope : Table String)
    (c : Credentials) (a : Aggregation) : World :=
  { w with calls := ⟨isPush, resourceType, w.clock, scope, c.reference, a⟩ :: w.calls }

/-- The end of a push. -/
def finishPush (w : World) (resourceType : String) (a : Aggregation) :
    Except DownstreamError PushOutcome × World :=
  let (answer, rest) := nextAnswer created w.script.push
  let w := { w with script := { w.script with push := rest } }
  match answer with
  | .ok _ => (answer, w.settleDownstream resourceType a)
  | .error _ => (answer, w)

def teardown (w : World) (resourceType : String) (scope : Table String) (c : Credentials)
    (a : Aggregation) : Except DownstreamError Unit × World :=
  let w := w.logCall false resourceType scope c a
  let (answer, rest) := nextAnswer {} w.script.teardown
  let w := { w with script := { w.script with teardown := rest } }
  match answer with
  | .ok _ => (.ok (), w.settleDownstream resourceType a)
  | .error e => (.error e, w)

def aggregate (resourceType : String) (sources : List Contribution) :
    Except SyncError Aggregation :=
  match aggregator? resourceType with
  | some f => f sources
  | none => .ok .empty

/-- A program that waits: for how long, and how it goes on then. -/
inductive Slice (α : Type) where
  | finished (value : α)
  | waiting (ticks : Nat) (resume : World → World × Program α)

/-- Runs a program until it ends or has to wait. `coalescing` tells which keys are held
back. A wait of no time is none. -/
def run (coalescing : String → Bool) : Program α → World → Slice α × World
  | .done a, w => (.finished a, w)
  | .ask (.store c) next, w =>
    let (answer, w) := w.call c
    run coalescing (next answer) w
  | .ask .now next, w => run coalescing (next w.now) w
  | .ask (.sleep d) next, w =>
    if d.ticks = 0 then run coalescing (next ()) w
    else (.waiting d.ticks fun w => (w, next ()), w)
  | .ask (.coalescing key) next, w => run coalescing (next (coalescing key)) w
  | .ask (.aggregate resourceType sources) next, w =>
    run coalescing (next (aggregate resourceType sources)) w
  | .ask (.credentials reference) next, w =>
    let (answer, w) := w.credentials reference
    run coalescing (next answer) w
  | .ask (.push resourceType scope c a) next, w =>
    let w := w.logCall true resourceType scope c a
    if w.script.pushMs = 0 then
      let (answer, w) := w.finishPush resourceType a
      run coalescing (next answer) w
    else
      (.waiting w.script.pushMs fun w =>
        let (answer, w) := w.finishPush resourceType a
        (w, next answer), w)
  | .ask (.teardown resourceType scope c a) next, w =>
    let (answer, w) := w.teardown resourceType scope c a
    run coalescing (next answer) w

end World

end Tributary.Rehearsal
