import Tributary.Aggregation.Basic

/-!
# One table of settings

Each key goes to the first contribution, in order of precedence, that sets it.
-/

namespace Tributary

structure SettingsAggregator (γ : Type) where
  read : List UInt8 → Option γ
  extract : γ → Table Json

/-- A value and the contribution that won its key. -/
structure Setting where
  value : Json
  owner : Owner
  priority : Int

structure SettingsResult where
  settings : Table Setting
  owners : List Owner

namespace SettingsAggregator

/-- Sets the keys of one contribution that no earlier one has set. -/
def contribute (source : Contribution) (settings : Table Setting) (config : Table Json) :
    Table Setting :=
  config.entries.foldl (fun t (key, value) =>
    if t.contains key then t else t.set key ⟨value, source.owner, source.priority⟩) settings

def aggregate (a : SettingsAggregator γ) (sources : List Contribution) : SettingsResult :=
  let read := Aggregation.decoded a.read sources
  { settings := read.foldl (fun t (source, config) => contribute source t (a.extract config)) {}
    owners := read.map (·.1.owner) }

end SettingsAggregator

namespace SettingsResult

def get? (r : SettingsResult) (key : String) : Option Json := (r.settings.get? key).map (·.value)

def ownerOf? (r : SettingsResult) (key : String) : Option Owner :=
  (r.settings.get? key).map (·.owner)

def values (r : SettingsResult) : Table Json := r.settings.map (·.value)

/-- The values without the keys that an owner won. -/
def without (r : SettingsResult) (owner : Owner) : Table Json :=
  ⟨(r.settings.entries.filter (·.2.owner ≠ owner)).map fun (k, s) => (k, s.value)⟩

def aggregation (r : SettingsResult) : Aggregation :=
  ⟨.ofTable r.values, r.owners.length, r.owners⟩

end SettingsResult

end Tributary
