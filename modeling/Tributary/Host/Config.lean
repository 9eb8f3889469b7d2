import Tributary.Config
import Tributary.Paths
import Tributary.Text.Blank
import Tributary.Yaml.Place

/-!
# Host settings

How many passes may run at once, when all records are looked at again and where they are
kept. A file that is missing or blank leaves every setting at its default.
-/

namespace Tributary

structure HostConfig where
  workers : Nat := 4
  /-- Zero for no periodic resync. -/
  resyncIntervalSecs : Nat := 600
  errorRequeueSecs : Nat := 30
  jsonLogs : Bool := false
  storeRoot : Option String := none
  engine : EngineConfig := {}
  deriving DecidableEq, Inhabited

namespace HostConfig

/-- How many passes may run at once; there is always one. -/
def passes (c : HostConfig) : Nat := max c.workers 1

def resyncInterval (c : HostConfig) : Option Duration :=
  if c.resyncIntervalSecs = 0 then none else some (.ofSecs c.resyncIntervalSecs)

def errorRequeue (c : HostConfig) : Duration := .ofSecs c.errorRequeueSecs

def root (c : HostConfig) (home : String) : String := c.storeRoot.getD (Paths.defaultRoot home)

open Readable

/-- Reads settings; the engine settings that are not written are the given ones. -/
def readWith [Readable σ] (engine : EngineConfig) (s : σ) : Reading HostConfig := do
  let f ← fields?
    ["workers", "resync_interval_secs", "error_requeue_secs", "json_logs", "store_root", "engine"] s
  return {
    workers := ← fallback f "workers" 4 (nat? 64)
    resyncIntervalSecs := ← fallback f "resync_interval_secs" 600 (nat? 64)
    errorRequeueSecs := ← fallback f "error_requeue_secs" 30 (nat? 64)
    jsonLogs := ← fallback f "json_logs" false bool?
    storeRoot := ← optionally f "store_root" text?
    engine := ← fallback f "engine" engine EngineConfig.read }

def read [Readable σ] (s : σ) : Reading HostConfig := readWith {} s

def toJson (c : HostConfig) : Json :=
  .obj <|
    [("workers", .nat c.workers),
     ("resync_interval_secs", .nat c.resyncIntervalSecs),
     ("error_requeue_secs", .nat c.errorRequeueSecs),
     ("json_logs", .bool c.jsonLogs)] ++
    (match c.storeRoot with
     | none => []
     | some root => [("store_root", .str root)]) ++
    [("engine", c.engine.toJson)]

/-- Why settings cannot be loaded. -/
inductive Fault where
  /-- The file is no text. -/
  | unreadable
  | malformed
  deriving DecidableEq

/-- The settings in a file. -/
def load (file : Option (List UInt8)) : Except Fault HostConfig :=
  match file with
  | none => .ok {}
  | some bytes =>
    match String.fromUTF8? ⟨bytes.toArray⟩ with
    | none => .error .unreadable
    | some text =>
      if text.toList.all Text.isBlank then .ok {}
      else
        match Yaml.read read text with
        | none => .error .malformed
        | some c => .ok c

end HostConfig

end Tributary
