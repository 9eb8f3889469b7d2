import Tributary.Debouncer
import Tributary.Host.Config
import Tributary.Host.Dispatcher
import Tributary.Pass

/-!
# Hosts

A host turns store events into passes. Events other than those of status writes wait in the
intake until their key is quiet, then queue up for the dispatcher. What a pass asks to be
tried again waits in the requeue debouncer and queues up in the same way. A stopped host
lets the workers that it has finish and starts nothing else.
-/

namespace Tributary

structure Host where
  config : HostConfig
  intake : Debouncer := {}
  requeue : Debouncer := {}
  dispatcher : Dispatcher
  /-- Triggered keys, the first one first. -/
  queue : List String := []
  /-- Events of the store that have not been taken in. -/
  undelivered : List Event := []
  stopping : Bool := false

namespace Host

def start (config : HostConfig) : Host := { config, dispatcher := { free := config.passes } }

/-- Status writes are made by passes and start none. -/
def triggersPass (change : ChangeKind) : Bool := change ≠ .status

/-- Lets a change of a key wait for quiet; the number of its alarm. -/
def coalesce (h : Host) (key : String) : Host × Nat :=
  let (intake, number) := h.intake.schedule key
  ({ h with intake }, number)

/-- Takes in the first event; the alarm that has to be set for it. -/
def takeEvent (h : Host) : Host × Option (String × Nat) :=
  match h.undelivered with
  | [] => (h, none)
  | e :: rest =>
    let h := { h with undelivered := rest }
    if triggersPass e.change then
      let (h, number) := h.coalesce e.key
      (h, some (e.key, number))
    else (h, none)

def enqueue (h : Host) (keys : List String) : Host := { h with queue := h.queue ++ keys }

/-- An alarm of the intake rings; whether the key is queued. -/
def intakeRings (h : Host) (key : String) (number : Nat) : Host × Bool :=
  match h.intake.claim key number with
  | none => (h, false)
  | some intake => ({ h with intake }.enqueue [key], true)

/-- An alarm of the requeue debouncer rings; whether the key is queued. -/
def requeueRings (h : Host) (key : String) (number : Nat) : Host × Bool :=
  match h.requeue.claim key number with
  | none => (h, false)
  | some requeue => ({ h with requeue }.enqueue [key], true)

/-- Triggers the first key of the queue; the key that needs a worker for that. -/
def dispatch (h : Host) : Host × Option String :=
  match h.queue with
  | [] => (h, none)
  | key :: rest =>
    let (dispatcher, fresh) := h.dispatcher.trigger key
    ({ h with dispatcher, queue := rest }, if fresh then some key else none)

/-- After which time the outcome of a pass has to be looked at again. -/
def retryAfter (h : Host) : Except SyncError Action → Option Duration
  | .ok .done => none
  | .ok .awaitChange => none
  | .ok (.requeue delay) => some delay
  | .error _ => some h.config.errorRequeue

/-- Settles the outcome of a pass; the alarm that has to be set for it. -/
def settle (h : Host) (key : String) (outcome : Except SyncError Action) :
    Host × Option (Duration × Nat) :=
  match h.retryAfter outcome with
  | none => (h, none)
  | some delay =>
    let (requeue, number) := h.requeue.schedule key
    ({ h with requeue }, some (delay, number))

/-- From now on nothing is taken in or dispatched. -/
def stop (h : Host) : Host := { h with stopping := true, undelivered := [] }

/-- Drops what waits in both debouncers. -/
def flush (h : Host) : Host := { h with intake := h.intake.flush, requeue := h.requeue.flush }

def engine (h : Host) (knows : String → Bool) : Engine :=
  { knows, backoff := h.config.engine.backoff, updater := h.config.engine.updater }

end Host

end Tributary
