import Tributary.Config
import Tributary.Program

/-!
# Updates

A change is made to the session's copy and written with its token. If somebody else has
written first, the record is read again after a pause and the change is made to that
version, as often as the policy allows. Afterwards the copy is the stored version.
-/

namespace Tributary

/-- Which half of a record is written. -/
inductive Half where
  | spec
  | status
  deriving DecidableEq

namespace Update

/-- The conditional write of a copy. -/
def put (half : Half) (copy : Record) : Program (Except StoreError Nat) :=
  match half with
  | .spec => Program.request (.store (.update copy))
  | .status => Program.request (.store (.updateStatus copy))

/-- Reads the record again. -/
def refresh : Session Unit := do set (← Session.call (.get (← get).key))

/-- Tries a change at most so many times; what the last try made of the record beside its
new version is the answer. -/
def tries (policy : RetryPolicy) (half : Half) (change : Record → Record × β) : Nat → Session β
  | 0 => do throw (.retriesExhausted (← get).key policy.maxAttempts)
  | n + 1 => do
    let (copy, answer) := change (← get)
    set copy
    match ← liftM (put half copy) with
    | .ok _ =>
      refresh
      return answer
    | .error e =>
      if e.isConflict then
        Session.request (.sleep policy.conflictDelay)
        refresh
        tries policy half change n
      else throw (.store e)

def changing (policy : RetryPolicy) (half : Half) (change : Record → Record × β) : Session β :=
  tries policy half change policy.maxAttempts

/-- Changes everything but the status. -/
def spec (policy : RetryPolicy) (change : Record → Record) : Session Unit :=
  changing policy .spec fun r => (change r, ())

/-- Changes the status only. -/
def status (policy : RetryPolicy) (change : Record → Status) : Session Unit :=
  changing policy .status fun r => ({ r with status := change r }, ())

/-- Sets the guard that keeps a record from being deleted. -/
def guard (policy : RetryPolicy) : Session Unit := do
  unless (← get).pendingTeardown do
    spec policy fun r => { r with pendingTeardown := true }

def release (policy : RetryPolicy) : Session Unit := do
  if (← get).pendingTeardown then
    spec policy fun r => { r with pendingTeardown := false }

/-- Gives a record its identity downstream. -/
def migrate (policy : RetryPolicy) (externalId : String) : Session Unit := do
  unless (← get).externalId = externalId do
    spec policy fun r => { r with externalId }

end Update

end Tributary
