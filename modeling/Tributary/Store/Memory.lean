import Tributary.Store.Call

/-!
# Records in memory

A table of records. Tokens count the writes; a refused call changes nothing. Tokens have 64 bits,
and their counter is taken to be unbounded: a call issues one token at most, so that no run of less
than `2 ^ 64` moves can tell (`Run.counted`).
-/

namespace Tributary

structure Memory where
  records : Table Record := {}
  nextToken : Nat := 1
  deriving Inhabited

namespace Memory

def find (m : Memory) (key : String) : Except StoreError Record :=
  match m.records.get? key with
  | some r => .ok r
  | none => .error (.notFound key)

/-- The stored version of a record, unless another writer was faster. -/
def current (m : Memory) (r : Record) : Except StoreError Record := do
  let stored ← m.find r.key
  r.checkToken stored
  return stored

/-- Puts a version in place; it carries the next token. -/
def put (m : Memory) (r : Record) : Memory :=
  { records := m.records.set r.key r, nextToken := m.nextToken + 1 }

def create (m : Memory) (r : Record) : Except StoreError Record × Memory :=
  if m.records.contains r.key then (.error (.alreadyExists r.key), m)
  else
    let created := { r with token := m.nextToken }
    (.ok created, m.put created)

def update (m : Memory) (now : Instant) (r : Record) : Except StoreError Nat × Memory :=
  match m.current r with
  | .error e => (.error e, m)
  | .ok stored => (.ok m.nextToken, m.put (r.updated stored m.nextToken now))

def updateStatus (m : Memory) (r : Record) : Except StoreError Nat × Memory :=
  match m.current r with
  | .error e => (.error e, m)
  | .ok stored => (.ok m.nextToken, m.put (r.statusUpdated stored m.nextToken))

def delete (m : Memory) (r : Record) : Except StoreError Unit × Memory :=
  match m.current r with
  | .error e => (.error e, m)
  | .ok stored =>
    match stored.checkReleased r.key with
    | .error e => (.error e, m)
    | .ok () => (.ok (), { m with records := m.records.erase r.key })

def perform (m : Memory) (now : Instant) : (c : Store.Call) → Store.Answer c × Memory
  | .get key => (m.find key, m)
  | .create r => m.create r
  | .update r => m.update now r
  | .updateStatus r => m.updateStatus r
  | .delete r => m.delete r
  | .list => (.ok m.records.keys, m)

instance : Store Memory := ⟨perform⟩

end Memory

end Tributary
