import Tributary.Json.Fingerprint
import Tributary.Update

/-!
# Passes

One look at a record. A record that lost contributions or is to go is torn down first. Then
the contributions are aggregated and, if the result is not what was synchronised last, it
is pushed. Failures of the downstream are entered into the record and never reported; only
the store's errors are.
-/

namespace Tributary

/-- What whoever ran a pass should do next. -/
inductive Action where
  | done
  | requeue (delay : Duration)
  /-- Nothing before the record changes. -/
  | awaitChange
  deriving DecidableEq

/-- What passes go by. -/
structure Engine where
  /-- Whether a resource type can be synchronised. -/
  knows : String → Bool
  backoff : Backoff := {}
  updater : RetryPolicy := {}

namespace Pass

variable (e : Engine)

/-- Enters a failure into the record. -/
def fail (category : Category) (reason : String) : Session Action := do
  let generation := (← get).generation
  let now ← Session.request .now
  let outcome ← Update.changing e.updater .status fun r =>
    let (status, outcome) := e.backoff.recordFailure r.status category reason generation now
    ({ r with status }, outcome)
  match outcome with
  | .retry delay => return .requeue delay
  | .failed => return .awaitChange

def aggregationFailed (error : SyncError) : Session Action :=
  fail e .permanent ("aggregation failed: " ++ error.message)

def unknownType : Session Action := do
  let r ← get
  if Backoff.parked r then return .awaitChange
  fail e .permanent ("no sync strategy for resource type " ++ r.resourceType)

/-- The status of a record whose configuration is downstream now. -/
def synced (s : Status) (a : Aggregation) (generation budget : Nat) (now : Instant) : Status :=
  { s with
    phase := .synced
    configHash := a.hash
    -- A counter of 64 bits, taken to be unbounded: one status write counts it up once
    -- (`Run.counted`).
    configVersion := s.configVersion + 1
    lastSyncTime := some now
    snapshot := some a.value
    observedGeneration := generation
    maxRetries := budget }.clearFailure

/-! ## Teardown -/

/-- Calls the downstream, unless nothing was ever created there; `none` if all is well. -/
def cutBack (resourceType : String) (remaining : Aggregation) :
    Session (Option DownstreamError) := do
  let r ← get
  if r.isPending then return none
  match ← Session.request (.credentials r.credentialsRef) with
  | .error error => return if error.isNotFound then none else some error
  | .ok credentials =>
    match ← Session.request (.teardown resourceType r.scopeIds credentials remaining) with
    | .error error => return if error.isNotFound then none else some error
    | .ok () => return none

/-- Deletes a record that has been torn down at a generation. If the record has changed
since, nothing is answered: it is looked at once more. -/
def releaseAndDelete (generation : Nat) : Session (Option Action) := do
  if (← get).pendingTeardown then
    Update.spec e.updater fun r =>
      if r.generation = generation then { r with pendingTeardown := false } else r
  if (← get).generation ≠ generation then
    Update.guard e.updater
    return none
  let r ← get
  match ← Session.request (.store (.delete r)) with
  | .ok _ => return some .done
  | .error error =>
    if error.isConflict then
      Update.refresh
      unless (← get).abandoned do Update.guard e.updater
      return none
    else throw (.store error)

/-- Enters into a record what remains downstream at a generation. -/
def finishPartial (remaining : Aggregation) (generation : Nat) : Session (Option Action) := do
  unless (← get).isPending do
    let now ← Session.request .now
    Update.status e.updater fun r =>
      if r.generation = generation then
        synced r.status remaining generation e.backoff.maxRetries now
      else r.status
  Update.spec e.updater fun r =>
    if r.generation = generation then { r with teardownRequested := false } else r
  return if (← get).generation = generation then some .done else none

/-- One round of teardown: to nothing if the record is abandoned, else to what its
contributions still ask for. -/
def teardown (resourceType : String) : Session (Option Action) := do
  let r ← get
  if Backoff.parked r then return some .awaitChange
  if let some wait := Backoff.retryWait r (← Session.request .now) then
    return some (.requeue wait)
  let generation := r.generation
  let full := r.abandoned
  let remaining ← if full then pure (.ok Aggregation.empty)
    else Session.request (.aggregate resourceType r.sources)
  match remaining with
  | .error error => some <$> aggregationFailed e error
  | .ok remaining =>
    match ← cutBack resourceType remaining with
    | some error => some <$> fail e error.category ("teardown failed: " ++ error.text)
    | none =>
      if full then releaseAndDelete e generation else finishPartial e remaining generation

/-- At most so many rounds of teardown, as long as the record asks for it. -/
def rounds (key resourceType : String) : Nat → Session (Option Action)
  | 0 => throw (.retriesExhausted key e.updater.maxAttempts)
  | n + 1 => do
    if (← get).needsTeardown then
      match ← teardown e resourceType with
      | some action => return some action
      | none => rounds key resourceType n
    else return none

/-! ## Push -/

def push (resourceType : String) (a : Aggregation) :
    Session (Except DownstreamError PushOutcome) := do
  let r ← get
  match ← Session.request (.credentials r.credentialsRef) with
  | .error error => return .error error
  | .ok credentials => Session.request (.push resourceType r.scopeIds credentials a)

/-- Replaces a placeholder by the identity that a push reported. A record that keeps its
placeholder would be created downstream once more, so a failure is a failed attempt. -/
def adopt (outcome : PushOutcome) : Session (Option Action) := do
  let r ← get
  match outcome.externalId with
  | some id =>
    if r.isPending && !Pending.isPlaceholder id then
      match ← Session.attempt (Update.migrate e.updater id) with
      | .ok () => return none
      | .error error =>
        if error.isNotFound then throw error
        some <$> fail e .transient ("identity migration failed: " ++ error.message)
    else return none
  | none => return none

def complete (a : Aggregation) (outcome : PushOutcome) : Session Action := do
  if let some action ← adopt e outcome then return action
  let generation := (← get).generation
  let now ← Session.request .now
  Update.status e.updater fun r =>
    { synced r.status a generation e.backoff.maxRetries now with resultData := outcome.summary }
  return .done

/-- Aggregates and pushes the contributions of a record that needs no teardown. -/
def synchronise (key resourceType : String) : Session Action := do
  Update.guard e.updater
  if Backoff.parked (← get) then return .awaitChange
  if (← get).status.phase = .failed then
    Update.status e.updater fun r => Backoff.resetFailed r.status
  if ← Session.request (.coalescing key) then return .done
  let r ← get
  match ← Session.request (.aggregate resourceType r.sources) with
  | .error error => aggregationFailed e error
  | .ok a =>
    if r.status.phase = .synced && !fingerprintChanged r.status.configHash a.hash then return .done
    if let some wait := Backoff.retryWait r (← Session.request .now) then return .requeue wait
    Update.status e.updater fun r => { r.status with phase := .syncing }
    match ← push resourceType a with
    | .ok outcome => complete e a outcome
    | .error error => fail e error.category error.text

/-- A pass over the session's copy. The resource type is that of the version read first. -/
def run (key : String) : Session Action := do
  let r ← get
  if e.knows r.resourceType then
    match ← rounds e key r.resourceType e.updater.maxAttempts with
    | some action => return action
    | none => synchronise e key r.resourceType
  else unknownType e

end Pass

/-- A pass; a record that is gone needs nothing. -/
def Engine.reconcile (e : Engine) (key : String) : Program (Except SyncError Action) := do
  let outcome ← match ← Program.request (.store (.get key)) with
    | .ok r => Prod.fst <$> (Pass.run e key).start r
    | .error error => pure (.error (.store error))
  match outcome with
  | .ok action => return .ok action
  | .error error => return if error.isNotFound then .ok .done else .error error

end Tributary
