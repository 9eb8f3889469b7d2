import Tributary.Json.Value
import Tributary.Owner
import Tributary.Pending
import Tributary.Record.Phase
import Tributary.Time.Instant

/-!
# Managed records

A record is the stored view of one downstream resource: who contributes to it, where it
lives downstream and how the last synchronisation went. Its generation rises whenever its
contributions change; its token is new after every write.
-/

namespace Tributary

/-- One owner's slice of configuration; a lower priority number wins. -/
structure Contribution where
  owner : Owner
  priority : Int
  payload : List UInt8
  deriving DecidableEq, Inhabited

/-- How the last synchronisation of a record went. -/
structure Status where
  phase : Phase := .pending
  /-- Hash of the configuration that was last synchronised; empty before the first time. -/
  configHash : String := ""
  configVersion : Nat := 0
  lastSyncTime : Option Instant := none
  retryCount : Nat := 0
  maxRetries : Nat := 0
  failureReason : Option String := none
  errorCategory : Option Category := none
  failedAt : Option Instant := none
  nextRetryAt : Option Instant := none
  /-- The generation that the last outcome was about. -/
  observedGeneration : Nat := 0
  resultData : Table String := {}
  snapshot : Option Json := none
  deriving Inhabited, BEq

namespace Status

/-- Forgets every failure and retry. -/
def clearFailure (s : Status) : Status :=
  { s with
    retryCount := 0
    failureReason := none
    errorCategory := none
    failedAt := none
    nextRetryAt := none }

end Status

structure Record where
  key : String
  resourceType : String
  externalId : String
  scopeIds : Table String := {}
  credentialsRef : Option String := none
  /-- In order of registration, one for each owner. -/
  sources : List Contribution := []
  generation : Nat := 0
  /-- While it is set, the store refuses to delete the record. -/
  pendingTeardown : Bool := false
  /-- A contributor has left; downstream has to be cut back. -/
  teardownRequested : Bool := false
  /-- The record and all it manages downstream have to go. -/
  deletionRequested : Bool := false
  token : Nat := 0
  status : Status := {}
  createdAt : Instant
  updatedAt : Instant
  deriving Inhabited, BEq

/-- Puts a contribution in the place of its owner's earlier one, or at the end. -/
def upsert (source : Contribution) : List Contribution → List Contribution
  | [] => [source]
  | s :: rest => if s.owner = source.owner then source :: rest else s :: upsert source rest

namespace Record

/-- A record without contributions. -/
def blank (key resourceType externalId : String) (now : Instant) : Record :=
  { key, resourceType, externalId, createdAt := now, updatedAt := now }

/-- Whether nothing has been created downstream yet. -/
def isPending (r : Record) : Bool := Pending.isPlaceholder r.externalId

def sourceFor (r : Record) (owner : Owner) : Option Contribution :=
  r.sources.find? (·.owner = owner)

/-- Whether a contribution would change the record. -/
def lacks (r : Record) (source : Contribution) : Bool := r.sourceFor source.owner ≠ some source

def upsertSource (r : Record) (source : Contribution) : Record :=
  { r with sources := upsert source r.sources }

def removeSource (r : Record) (owner : Owner) : Record :=
  { r with sources := r.sources.filter (·.owner ≠ owner) }

/-- Whether the next pass has to cut back or remove what is downstream. -/
def needsTeardown (r : Record) : Bool :=
  r.deletionRequested || r.teardownRequested || r.sources.isEmpty

/-- Whether nothing at all is to remain downstream. -/
def abandoned (r : Record) : Bool := r.deletionRequested || r.sources.isEmpty

end Record

end Tributary
