import Tributary.Update

/-!
# Registrations

Contributors register and unregister their configurations and ask for deletions. The first
registration creates the record. Whatever changes the contributions raises the generation. It is a
counter of 64 bits that `contribute`, `withdraw` and `condemn` take to be unbounded: each of them
raises it by one, so that no run of less than `2 ^ 64` moves can tell (`Run.counted`).
-/

namespace Tributary

/-- What a record is created with. -/
structure Template where
  resourceType : String
  scopeIds : Table String := {}
  credentialsRef : Option String := none
  /-- The identity of something that is there already. -/
  externalId : Option String := none

/-- A record of its first contribution. -/
def Template.instantiate (t : Template) (key : String) (first : Contribution) (now : Instant) :
    Record :=
  { Record.blank key t.resourceType
      (t.externalId.getD (Pending.placeholder first.owner.name)) now with
    scopeIds := t.scopeIds
    credentialsRef := t.credentialsRef
    sources := [first]
    generation := 1 }

namespace Registry

/-- The record with a contribution, a new generation if that changes it. -/
def contribute (source : Contribution) (r : Record) : Record :=
  if r.lacks source then { r.upsertSource source with generation := r.generation + 1 } else r

/-- The record without the contribution of an owner, and whether it had one. -/
def withdraw (owner : Owner) (r : Record) : Record × Bool :=
  if (r.sourceFor owner).isSome then
    ({ r.removeSource owner with
        generation := r.generation + 1
        teardownRequested := true }, true)
  else (r, false)

/-- The record with a request for its deletion. -/
def condemn (r : Record) : Record :=
  { r with deletionRequested := true, generation := r.generation + 1 }

/-- Adds a contribution to a record that is there. -/
def join (policy : RetryPolicy) (source : Contribution) (r : Record) :
    Program (Except SyncError Record) :=
  if r.lacks source then do
    match ← (Update.spec policy (contribute source)).start r with
    | (.ok (), r) => return .ok r
    | (.error e, _) => return .error e
  else return .ok r

/-- Registers a contribution, with the record if there is none. A record that another
contributor creates meanwhile is joined. -/
def register (policy : RetryPolicy) (key : String) (template : Template) (source : Contribution) :
    Program (Except SyncError Record) := do
  match ← Program.request (.store (.get key)) with
  | .ok r => join policy source r
  | .error (.notFound _) =>
    let now ← Program.request .now
    match ← Program.request (.store (.create (template.instantiate key source now))) with
    | .ok r => return .ok r
    | .error (.alreadyExists _) =>
      match ← Program.request (.store (.get key)) with
      | .ok r => join policy source r
      | .error e => return .error (.store e)
    | .error e => return .error (.store e)
  | .error e => return .error (.store e)

/-- Takes the contribution of an owner back; whether there was one. -/
def unregister (policy : RetryPolicy) (key : String) (owner : Owner) :
    Program (Except SyncError Bool) := do
  match ← Program.request (.store (.get key)) with
  | .ok r =>
    if (r.sourceFor owner).isSome then
      return (← (Update.changing policy .spec (withdraw owner)).start r).1
    else return .ok false
  | .error (.notFound _) => return .ok false
  | .error e => return .error (.store e)

/-- Asks for a record to be taken down with all that it manages; whether that is new. -/
def requestDeletion (policy : RetryPolicy) (key : String) : Program (Except SyncError Bool) := do
  match ← Program.request (.store (.get key)) with
  | .ok r =>
    if r.deletionRequested then return .ok false
    else
      match ← (Update.spec policy condemn).start r with
      | (.ok (), _) => return .ok true
      | (.error e, _) => return .error e
  | .error (.notFound _) => return .ok false
  | .error e => return .error (.store e)

end Registry

end Tributary
