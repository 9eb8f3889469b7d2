import Tributary.Aggregation.Entries
import Tributary.Aggregation.Scalar
import Tributary.Aggregation.Settings

/-!
# Configurations to rehearse with

Resource types whose aggregation uses each of the aggregators once with small
configurations of its own.
-/

namespace Tributary.Rehearsal

open Readable

/-- A list of rules and the target of all else. -/
structure Routing where
  rules : List String := []
  fallback : Option String := none

def Routing.read [Readable σ] (s : σ) : Reading Routing := do
  let f ← fields? ["rules", "fallback"] s
  return {
    rules := ← Readable.fallback f "rules" [] (list? text?)
    fallback := ← optionally f "fallback" text? }

def Routing.toJson (r : Routing) : Json :=
  .obj [("rules", .strings r.rules), ("fallback", (r.fallback.map .str).getD .null)]

/-- Rules in order, and the first target of all else. -/
def Routing.merge (a b : Routing) (_ : Owner) (_ : Int) : Routing :=
  { rules := a.rules ++ b.rules, fallback := a.fallback <|> b.fallback }

/-- Sorted rules, then one that catches all. -/
def Routing.close (r : Routing) : Routing :=
  { r with rules := (r.rules.mergeSort fun a b => a ≤ b) ++ ["catch-all"] }

def routing (closed : Bool) : ScalarAggregator Routing where
  read := Json.readBytes Routing.read
  initial := {}
  merge := Routing.merge
  finalize := if closed then Routing.close else id

def ownerItems (o : Owner) : Json := .strings [o.kind, o.namespaceName, o.name]

/-- The calls of the merge function as a list. -/
def traceMerge (a b : Json) (owner : Owner) (priority : Int) : Json :=
  let before := match a with
    | .arr items => items
    | _ => []
  .arr (before ++ [.arr [ownerItems owner, .int priority, b]])

def trace (closed : Bool) : ScalarAggregator Json where
  read := Json.parseBytes
  initial := .null
  merge := traceMerge
  finalize := if closed then fun v => .obj [("final", v)] else id

/-- Entries from a list of texts. -/
def texts (dedup : Bool) : EntryAggregator (List String) String where
  read := Json.readBytes (list? text?)
  extract := id
  dedupKey := if dedup then some id else none

structure HostRule where
  host : String
  target : String

def HostRule.read [Readable σ] (s : σ) : Reading HostRule := do
  let f ← fields? ["host", "target"] s
  return { host := ← required f "host" text?, target := ← required f "target" text? }

def HostRule.toJson (r : HostRule) : Json := .obj [("host", .str r.host), ("target", .str r.target)]

/-- Entries under the name `rules`, at most one for each host when duplicates are dropped. -/
def hostRules (dedup : Bool) : EntryAggregator (List HostRule) HostRule where
  read := Json.readBytes fun s => do
    let f ← fields? ["rules"] s
    fallback f "rules" [] (list? HostRule.read)
  extract := id
  dedupKey := if dedup then some (·.host) else none

/-- Entries of any form, told apart by their canonical texts. -/
def anyValues : EntryAggregator (List Json) Json where
  read := Json.readBytes (list? json?)
  extract := id
  dedupKey := some Json.canonical

/-- Settings written as one object. -/
def flatSettings : SettingsAggregator (Table Json) where
  read := Json.readBytes (table? json?)
  extract := id

/-- Settings under the name `settings`. -/
def zoneSettings : SettingsAggregator (Table Json) where
  read := Json.readBytes fun s => do
    let f ← fields? ["settings"] s
    required f "settings" (table? json?)
  extract := id

end Tributary.Rehearsal
