import Tributary.Aggregation.Basic
import Tributary.Diff.Unified
import Tributary.Json.Text

/-!
# Previews

What the next push would change, as a diff of the configuration that was last synchronised
and the one that is wanted now.
-/

namespace Tributary

structure Preview where
  changed : Bool
  currentHash : String
  previousHash : String
  diff : String

/-- Compares an aggregation of the contributions of a record with the record's status. -/
def Record.preview (r : Record) (a : Aggregation) : Preview :=
  let changed := fingerprintChanged r.status.configHash a.hash
  { changed
    currentHash := a.hash
    previousHash := r.status.configHash
    diff :=
      if changed then
        Diff.unified ("a/" ++ r.key) ("b/" ++ r.key) ((r.status.snapshot.map Json.pretty).getD "")
          a.value.pretty
      else "" }

end Tributary
