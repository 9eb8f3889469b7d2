import Tributary.Preview
import Tributary.Rehearsal.Stage

/-!
# Scenes

What can be done on a stage: the work of contributors and passes, previews, changes of the
record files, and starting and stopping a host.
-/

namespace Tributary.Rehearsal

/-- Whether a request writes a record. -/
def isWrite : Request → Bool
  | .store (.update _) => true
  | .store (.updateStatus _) => true
  | _ => false

/-- A program that also answers how often it has written, starting from a count. -/
def countWrites : Program α → Nat → Program (α × Nat)
  | .done a, n => .done (a, n)
  | .ask q next, n =>
    .ask q fun answer => countWrites (next answer) (if isWrite q then n + 1 else n)

structure Scene where
  stage : Stage
  config : EngineConfig
  /-- Whether the host has ended by itself because it could not watch. -/
  hostFailed : Bool := false

namespace Scene

def perform (s : Scene) (p : Program α) : α × Scene :=
  let (a, stage) := s.stage.perform p
  (a, { s with stage })

def register (s : Scene) (key : String) (template : Template) (source : Contribution) :
    Except SyncError Record × Scene :=
  s.perform (Registry.register s.config.updater key template source)

def unregister (s : Scene) (key : String) (owner : Owner) : Except SyncError Bool × Scene :=
  s.perform (Registry.unregister s.config.updater key owner)

def requestDeletion (s : Scene) (key : String) : Except SyncError Bool × Scene :=
  s.perform (Registry.requestDeletion s.config.updater key)

def engine (s : Scene) : Engine :=
  { knows := Stage.knows, backoff := s.config.backoff, updater := s.config.updater }

def reconcile (s : Scene) (key : String) : Except SyncError Action × Scene :=
  s.perform (s.engine.reconcile key)

def call (s : Scene) (c : Store.Call) : Store.Answer c × Scene :=
  let (answer, world) := s.stage.world.call c
  (answer, { s with stage := { s.stage with world } })

/-- Changes a copy of a record by a session; also how often that has written. -/
def session (s : Scene) (work : Session Unit) (copy : Record) :
    ((Except SyncError Unit × Record) × Nat) × Scene :=
  s.perform (countWrites (work.start copy) 0)

/-- A change that can be counted. -/
def bump (add : Nat) (r : Record) : Record :=
  { r with
    generation := r.generation + add
    status := { r.status with configVersion := r.status.configVersion + add } }

def update (s : Scene) (half : Half) (add : Nat) (copy : Record) :=
  s.session (Update.changing s.config.updater half fun r => (bump add r, ())) copy

/-- Why there is no preview. -/
inductive NoPreview where
  | unknownType
  | store (error : StoreError)
  | aggregation (error : SyncError)

def preview (s : Scene) (key : String) : Except NoPreview Preview × Scene :=
  let (answer, s) := s.call (.get key)
  match answer with
  | .error e => (.error (.store e), s)
  | .ok r =>
    match aggregator? r.resourceType with
    | none => (.error .unknownType, s)
    | some aggregate =>
      match aggregate r.sources with
      | .error e => (.error (.aggregation e), s)
      | .ok a => (.ok (r.preview a), s)

def advance (s : Scene) (ms : Nat) : Scene := { s with stage := s.stage.advance ms }

/-- Changes the world between two steps. -/
def changeWorld (s : Scene) (f : World → World) : Scene :=
  { s with stage := { s.stage with world := f s.stage.world } }

def holdBack (s : Scene) (key : String) (ms : Nat) : Scene :=
  { s with stage := s.stage.holdBack key ms }

/-- Lets go of a key that is held back; whether it was. -/
def cancel (s : Scene) (key : String) : Bool × Scene :=
  (s.stage.world.gate.isPending key,
    s.changeWorld fun w => { w with gate := w.gate.cancel key })

/-! ## Files

Paths of files begin in the directory of the records. -/

def folder (s : Scene) : Folder := s.stage.world.backend.folder

/-- Where a path leads. -/
def placesOf (s : Scene) (path : String) : List Location :=
  ((s.folder.follow? Directory.base path).map (·.location)).toList

/-- Changes the files, if that can be done; whether it was. -/
def changeFiles (s : Scene) (changed : List Location) (folder : Option Folder) : Bool × Scene :=
  match folder with
  | none => (false, s)
  | some f => (true, s.changeWorld (·.changeFiles changed f))

def putFile (s : Scene) (path : String) (content : List UInt8) : Bool × Scene :=
  s.changeFiles (s.placesOf path) (s.folder.write? Directory.base path content)

def dropFile (s : Scene) (path : String) : Bool × Scene :=
  s.changeFiles (s.placesOf path) (s.folder.remove? Directory.base path)

/-- What becomes of the watch of a directory when another place is given to one: it stays
with its directory, and ends with one that is replaced. -/
def movedWatch (old new watched : Location) : Option Location :=
  if old ≠ new ∧ new = watched then none else some (Location.moved old new watched)

def renameFile (s : Scene) (path newPath : String) : Bool × Scene :=
  match s.folder.follow? Directory.base path, s.folder.follow? Directory.base newPath with
  | some old, some new =>
    let (renamed, s) := s.changeFiles [old.location, new.location]
      (s.folder.rename? Directory.base path newPath)
    (renamed, if renamed then
        s.changeWorld fun w =>
          { w with watched := w.watched.bind (movedWatch old.location new.location) }
      else s)
  | _, _ => (false, s)

def contentOf? (s : Scene) (path : String) : Option (List UInt8) :=
  s.folder.read? Directory.base path

def fileMode? (s : Scene) (path : String) : Option Nat := s.folder.modeOf? Directory.base path

/-- Makes a directory and those above it, from the top. -/
def makeFromTop (s : Scene) (path : String) : Bool × Scene :=
  let m := s.folder.makeDirectory path
  (m.complete, s.changeWorld (·.changeFiles m.made m.folder))

def makeDirectory (s : Scene) (path : String) : Bool × Scene :=
  s.makeFromTop (Paths.join Paths.records path)

/-- Takes the directory of the records away, and the watches in it. -/
def removeRecords (s : Scene) : Bool × Scene :=
  match s.folder.removeDirectory? Directory.base with
  | none => (false, s)
  | some f =>
    let gone (l : Location) : Bool := Directory.base.isPrefixOf l
    let removed := (s.folder.entries.keys.map (·.splitOn "/")).filter gone
    (true, s.changeWorld fun w =>
      { w.changeFiles removed f with watched := w.watched.filter (!gone ·) })

def reopen (s : Scene) : Scene := s.changeWorld fun w => { w with backend := w.backend.reopen }

/-! ## Hosts -/

/-- Where a path leads from the top, if something is there. -/
def found? (s : Scene) (path : String) : Option Location :=
  ((s.folder.follow? [] path).filter fun t =>
    if t.directory then s.folder.isDirectory t.location else s.folder.contains t.location).map
      (·.location)

/-- Watches a directory, which is made if it is not there; whether that can be done. -/
def watch (s : Scene) (path : String) : Bool × Scene :=
  let (ready, s) := if (s.found? path).isSome then (true, s) else s.makeFromTop path
  (ready, s.changeWorld fun w =>
    { w with watched := if ready then s.found? path else none, touched := [] })

/-- Starts a host; one that cannot watch looks at its records and ends. -/
def startHost (s : Scene) (config : HostConfig) (watched : Option String) : Scene :=
  let (ready, s) := match watched with
    | none => (true, s)
    | some path => s.watch path
  if ready then { s with stage := (s.stage.startHost config).settle, hostFailed := false }
  else { (s.call .list).2 with hostFailed := true }

/-- How a host has ended. -/
inductive Ending where
  | stopped
  | notRunning
  | failed

def stopHost (s : Scene) : Ending × Scene :=
  let (stage, wasRunning) := s.stage.stopHost
  let world := { stage.world with watched := none, touched := [] }
  (if s.hostFailed then .failed else if wasRunning then .stopped else .notRunning,
    { s with stage := { stage with world }, hostFailed := false })

/-- Lets the host take notice of the files that have changed. -/
def awaitWatcher (s : Scene) : Scene :=
  let names := s.stage.world.touched
  let s := s.changeWorld fun w => { w with touched := [] }
  { s with stage := s.stage.settle.noticeFiles (names.filterMap fun name => Paths.keyOf? name) }

/-! ## Logs -/

/-- Forgets what has happened. -/
def clearLogs (s : Scene) : Scene := s.changeWorld fun w => { w with calls := [], events := [] }

def calls (s : Scene) : List DownstreamCall := s.stage.world.calls.reverse

def events (s : Scene) : List Event := s.stage.world.events.reverse

/-- A record as it is stored, past hooks and faults. -/
def stored (s : Scene) (key : String) : Except StoreError Record :=
  (s.stage.world.backend.perform s.stage.world.now (.get key)).1

end Scene

end Tributary.Rehearsal
