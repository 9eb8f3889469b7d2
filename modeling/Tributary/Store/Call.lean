import Tributary.Record.Basic
import Tributary.Store.Error

/-!
# Store calls

What can be asked of a store, whatever keeps its records. Writes are conditional on the
token of the version that was read; `update` writes everything but the status and
`updateStatus` nothing else. A successful write publishes one event; how long a subscriber may fall
behind before it misses events is not told here.
-/

namespace Tributary

/-- What a write changed. -/
inductive ChangeKind where
  | created
  | spec
  | status
  | deleted
  deriving DecidableEq

structure Event where
  key : String
  change : ChangeKind
  deriving DecidableEq

namespace Store

inductive Call where
  | get (key : String)
  | create (record : Record)
  | update (record : Record)
  | updateStatus (record : Record)
  | delete (record : Record)
  | list

namespace Call

/-- What a call answers if it succeeds: the record, its new token or the sorted keys. -/
@[reducible] def Result : Call → Type
  | .get _ => Record
  | .create _ => Record
  | .update _ => Nat
  | .updateStatus _ => Nat
  | .delete _ => Unit
  | .list => List String

/-- The event of a successful call. -/
def event? : Call → Option Event
  | .create r => some ⟨r.key, .created⟩
  | .update r => some ⟨r.key, .spec⟩
  | .updateStatus r => some ⟨r.key, .status⟩
  | .delete r => some ⟨r.key, .deleted⟩
  | .get _ => none
  | .list => none

end Call

abbrev Answer (c : Call) := Except StoreError c.Result

/-- What is published with the answer to a call. -/
def Call.published (c : Call) : Answer c → Option Event
  | .ok _ => c.event?
  | .error _ => none

end Store

/-- Something that keeps records: what it answers at an instant, and what it is afterwards. -/
class Store (σ : Type) where
  perform : σ → Instant → (c : Store.Call) → Store.Answer c × σ

/-- What a store publishes to its subscribers when it meets a call, after the change is made. -/
def Store.published [Store σ] (s : σ) (now : Instant) (c : Store.Call) : Option Event :=
  c.published (Store.perform s now c).1

/-- Whether a version may be replaced by what was made of `r`. -/
def Record.checkToken (r stored : Record) : Except StoreError Unit :=
  if r.token = stored.token then .ok () else .error (.conflict r.key r.token stored.token)

/-- The version after an update: the given record with the stored status. -/
def Record.updated (r stored : Record) (token : Nat) (now : Instant) : Record :=
  { r with status := stored.status, token, updatedAt := now }

/-- The version after a status update: the stored record with the given status. -/
def Record.statusUpdated (r stored : Record) (token : Nat) : Record :=
  { stored with status := r.status, token }

/-- Whether a record may be deleted. -/
def Record.checkReleased (stored : Record) (key : String) : Except StoreError Unit :=
  if stored.pendingTeardown then .error (.teardownPending key) else .ok ()

end Tributary
