import Tributary.Rehearsal.Kinds
import Tributary.SyncError

/-!
# Resource types to rehearse with

How the contributions of each resource type are aggregated. The type `unmergeable` refuses
to aggregate as soon as one payload is poisoned.
-/

namespace Tributary.Rehearsal

/-- A payload that spoils the aggregation. -/
def poison : List UInt8 := "\"poison\"".toUTF8.toList

/-- Settings, unless a payload is poisoned. -/
def unmergeable (sources : List Contribution) : Except SyncError Aggregation :=
  if sources.any (·.payload = poison) then .error (.json "cannot merge")
  else .ok (flatSettings.aggregate sources).aggregation

/-- The aggregation of a resource type, if it is known. -/
def aggregator? : String → Option (List Contribution → Except SyncError Aggregation)
  | "zone-settings" => some fun s => .ok (flatSettings.aggregate s).aggregation
  | "access-rules" => some fun s => .ok (((texts false).aggregate s).aggregation .str)
  | "host-rules" => some fun s => .ok (((hostRules true).aggregate s).aggregation HostRule.toJson)
  | "routing" => some fun s => .ok (((routing false).aggregate s).aggregation Routing.toJson)
  | "trace" => some fun s => .ok (((trace false).aggregate s).aggregation id)
  | "unmergeable" => some unmergeable
  | _ => none

end Tributary.Rehearsal
