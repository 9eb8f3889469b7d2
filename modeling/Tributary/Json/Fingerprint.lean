import Tributary.Digest.Sha256
import Tributary.Json.Text

/-!
# Fingerprints

The SHA-256 digest of the canonical text. Values that differ only in the order of their
members have the same fingerprint.
-/

namespace Tributary

def Json.fingerprint (v : Json) : String := Sha256.hex v.canonical

theorem Json.fingerprint_ne_empty (v : Json) : v.fingerprint ≠ "" := Sha256.hex_ne_empty _

/-- Whether a configuration has to be pushed: nothing was pushed before, or something else. -/
def fingerprintChanged (previous current : String) : Bool := previous = "" || previous ≠ current

theorem fingerprintChanged_eq_false {previous current : String} :
    fingerprintChanged previous current = false ↔ previous ≠ "" ∧ previous = current := by
  simp [fingerprintChanged]

end Tributary
