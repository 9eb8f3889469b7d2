import Tributary.Readable
import Tributary.Record.Basic
import Tributary.Time.Rfc3339

/-!
# Records as data

How a record is written, field after field in the order of its declaration, and how it is
read back. A part that is absent is left out; reading takes such a part, and a null in its
place, as absent.
-/

namespace Tributary

open Readable

/-- The member of an optional part. -/
def optionalMember (name : String) (value : Option Json) : List (String × Json) :=
  match value with
  | none => []
  | some v => [(name, v)]

def tableJson (t : Table String) : Json := .ofTable (t.map .str)

def instantJson (t : Instant) : Json := .str (Rfc3339.format t)

def instant? [Readable σ] (s : σ) : Reading Instant := (text? s).filterMap Rfc3339.parse

namespace Owner

def toJson (o : Owner) : Json :=
  .obj [("kind", .str o.kind), ("namespace", .str o.namespaceName), ("name", .str o.name)]

def read [Readable σ] (s : σ) : Reading Owner := do
  let f ← fields? ["kind", "namespace", "name"] s
  return {
    kind := ← required f "kind" text?
    namespaceName := ← required f "namespace" text?
    name := ← required f "name" text? }

end Owner

namespace Contribution

def toJson (c : Contribution) : Json :=
  .obj [
    ("owner", c.owner.toJson),
    ("priority", .int c.priority),
    ("raw_config", .arr (c.payload.map fun b => .nat b.toNat))]

def read [Readable σ] (s : σ) : Reading Contribution := do
  let f ← fields? ["owner", "priority", "raw_config"] s
  return {
    owner := ← required f "owner" Owner.read
    priority := ← required f "priority" (int? (-(Nat.pow 2 31 : Nat)) (Nat.pow 2 31 - 1 : Nat))
    payload := ← fallback f "raw_config" [] bytes? }

end Contribution

namespace Status

def toJson (s : Status) : Json :=
  .obj <|
    [("phase", .str s.phase.name),
     ("config_hash", .str s.configHash),
     ("config_version", .nat s.configVersion)] ++
    optionalMember "last_sync_time" (s.lastSyncTime.map instantJson) ++
    [("retry_count", .nat s.retryCount), ("max_retries", .nat s.maxRetries)] ++
    optionalMember "failure_reason" (s.failureReason.map .str) ++
    optionalMember "error_category" (s.errorCategory.map fun c => .str c.name) ++
    optionalMember "failed_at" (s.failedAt.map instantJson) ++
    optionalMember "next_retry_at" (s.nextRetryAt.map instantJson) ++
    [("observed_generation", .nat s.observedGeneration),
     ("result_data", tableJson s.resultData)] ++
    optionalMember "aggregated_config_snapshot" s.snapshot

def fieldNames : List String :=
  ["phase", "config_hash", "config_version", "last_sync_time", "retry_count", "max_retries",
   "failure_reason", "error_category", "failed_at", "next_retry_at", "observed_generation",
   "result_data", "aggregated_config_snapshot"]

def read [Readable σ] (s : σ) : Reading Status := do
  let f ← fields? fieldNames s
  return {
    phase := ← fallback f "phase" .pending fun s => (variant? s).filterMap Phase.ofName?
    configHash := ← fallback f "config_hash" "" text?
    configVersion := ← fallback f "config_version" 0 (nat? 64)
    lastSyncTime := ← optionally f "last_sync_time" instant?
    retryCount := ← fallback f "retry_count" 0 (nat? 32)
    maxRetries := ← fallback f "max_retries" 0 (nat? 32)
    failureReason := ← optionally f "failure_reason" text?
    errorCategory := ← optionally f "error_category" fun s =>
      (variant? s).filterMap Category.ofName?
    failedAt := ← optionally f "failed_at" instant?
    nextRetryAt := ← optionally f "next_retry_at" instant?
    observedGeneration := ← fallback f "observed_generation" 0 (nat? 64)
    resultData := ← fallback f "result_data" {} (table? text?)
    snapshot := ← optionally f "aggregated_config_snapshot" json? }

end Status

namespace Record

def toJson (r : Record) : Json :=
  .obj <|
    [("key", .str r.key),
     ("resource_type", .str r.resourceType),
     ("external_id", .str r.externalId),
     ("scope_ids", tableJson r.scopeIds)] ++
    optionalMember "credentials_ref" (r.credentialsRef.map .str) ++
    [("sources", .arr (r.sources.map Contribution.toJson)),
     ("generation", .nat r.generation),
     ("pending_teardown", .bool r.pendingTeardown),
     ("teardown_requested", .bool r.teardownRequested),
     ("deletion_requested", .bool r.deletionRequested),
     ("token", .nat r.token),
     ("status", r.status.toJson),
     ("created_at", instantJson r.createdAt),
     ("updated_at", instantJson r.updatedAt)]

def fieldNames : List String :=
  ["key", "resource_type", "external_id", "scope_ids", "credentials_ref", "sources", "generation",
   "pending_teardown", "teardown_requested", "deletion_requested", "token", "status", "created_at",
   "updated_at"]

def read [Readable σ] (s : σ) : Reading Record := do
  let f ← fields? fieldNames s
  return {
    key := ← required f "key" text?
    resourceType := ← required f "resource_type" text?
    externalId := ← required f "external_id" text?
    scopeIds := ← fallback f "scope_ids" {} (table? text?)
    credentialsRef := ← optionally f "credentials_ref" text?
    sources := ← fallback f "sources" [] (list? Contribution.read)
    generation := ← fallback f "generation" 0 (nat? 64)
    pendingTeardown := ← fallback f "pending_teardown" false bool?
    teardownRequested := ← fallback f "teardown_requested" false bool?
    deletionRequested := ← fallback f "deletion_requested" false bool?
    token := ← fallback f "token" 0 (nat? 64)
    status := ← fallback f "status" {} Status.read
    createdAt := ← required f "created_at" instant?
    updatedAt := ← required f "updated_at" instant? }

end Record

end Tributary
