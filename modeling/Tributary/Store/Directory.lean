import Tributary.Record.Document
import Tributary.Store.Call
import Tributary.Store.Folder

/-!
# Records in files

One document for each record, under the name of its key. A document is written as a draft
beside its place, protected and then renamed, so that it is replaced at once or not at all.
Tokens never fall behind the clock: a record that is created again under an old key cannot
get a token that a stale copy still holds. Tokens have 64 bits, and `issue` takes them to be
unbounded: the clock reaches `2 ^ 64` microseconds after half a million years, and a call adds one
to what the clock, the latest token or the stored one shows.
-/

namespace Tributary

structure Directory where
  folder : Folder
  lastToken : Nat := 0

namespace Directory

/-- Only the owner may look into the directory and the files. -/
def folderMode : Nat := 0o700

def documentMode : Nat := 0o600

/-- Where the files of the records are. -/
def base : Location := [Paths.records]

/-- The place of the record of a key. -/
def place (key : String) : Location := base ++ [Paths.recordName key]

/-- Opens the directory of the records, which is made if it is not there. -/
def openAt (f : Folder) : Directory :=
  { folder := if f.contains base then f else f.put base (.directory folderMode) }

def checkKey (key : String) : Except StoreError Unit :=
  if key = "" then .error (.invalidKey key .empty)
  else if key.toList.any fun c => c = '/' ∨ c = '\\' then .error (.invalidKey key .separator)
  else if key.toList.head? = some '.' then .error (.invalidKey key .leadingDot)
  else .ok ()

/-- Whether the place of a record is taken. -/
def holds (d : Directory) (key : String) : Bool :=
  d.folder.contains (place key)

/-- The record of a document. -/
def decode (content : List UInt8) : Except StoreError Record :=
  match String.fromUTF8? ⟨content.toArray⟩ with
  | none => .error .unreachable
  | some text =>
    match Record.ofDocument? text with
    | none => .error .malformed
    | some r => .ok r

def load (d : Directory) (key : String) : Except StoreError Record :=
  if d.holds key then
    match d.folder.content? (place key) with
    | none => .error .unreachable
    | some content => decode content
  else .error (.notFound key)

/-- The next token: above all earlier ones, above `floor` and not behind the clock. -/
def issue (d : Directory) (now : Instant) (floor : Nat) : Nat × Directory :=
  let token := max d.lastToken (max now.micros.toNat floor) + 1
  (token, { d with lastToken := token })

/-- One change of the files, whose paths begin in the directory of the records. -/
inductive Step where
  | write (path : String) (content : List UInt8)
  | protect (path : String) (mode : Nat)
  | rename (path newPath : String)
  deriving DecidableEq

def Step.run? (f : Folder) : Step → Option Folder
  | .write path content => f.write? base path content
  | .protect path mode => f.protect? base path mode
  | .rename path newPath => f.rename? base path newPath

/-- How a record is written to the place of a key. -/
def saving (key : String) (r : Record) : List Step :=
  let draft := Paths.draftName r.key
  [.write draft r.document.toUTF8.toList, .protect draft documentMode,
   .rename draft (Paths.recordName key)]

/-- Makes changes until one of them fails; whether all were made, and the files then. -/
def runSteps (f : Folder) : List Step → Bool × Folder
  | [] => (true, f)
  | s :: rest =>
    match s.run? f with
    | none => (false, f)
    | some f => runSteps f rest

/-- Writes a record to the place of a key; a draft that cannot take it is thrown away. -/
def save (d : Directory) (key : String) (r : Record) : Except StoreError Unit × Directory :=
  match runSteps d.folder (saving key r) with
  | (true, folder) => (.ok (), { d with folder })
  | (false, folder) =>
    (.error .unreachable,
      { d with folder := (folder.remove? base (Paths.draftName r.key)).getD folder })

/-- The stored version of a record, unless another writer was faster. -/
def current (d : Directory) (r : Record) : Except StoreError Record := do
  checkKey r.key
  let stored ← d.load r.key
  r.checkToken stored
  return stored

def create (d : Directory) (now : Instant) (r : Record) : Except StoreError Record × Directory :=
  match checkKey r.key with
  | .error e => (.error e, d)
  | .ok () =>
    let (token, d) := d.issue now 0
    if d.holds r.key then (.error (.alreadyExists r.key), d)
    else
      let created := { r with token }
      match d.save r.key created with
      | (.ok (), d) => (.ok created, d)
      | (.error e, d) => (.error e, d)

/-- Replaces the stored version of a key by what is made of it and its new token. -/
def replace (d : Directory) (now : Instant) (key : String) (stored : Record) (make : Nat → Record) :
    Except StoreError Nat × Directory :=
  let (token, d) := d.issue now stored.token
  match d.save key (make token) with
  | (.ok (), d) => (.ok token, d)
  | (.error e, d) => (.error e, d)

def update (d : Directory) (now : Instant) (r : Record) : Except StoreError Nat × Directory :=
  match d.current r with
  | .error e => (.error e, d)
  | .ok stored => d.replace now r.key stored (r.updated stored · now)

def updateStatus (d : Directory) (now : Instant) (r : Record) : Except StoreError Nat × Directory :=
  match d.current r with
  | .error e => (.error e, d)
  | .ok stored => d.replace now r.key stored (r.statusUpdated stored ·)

def delete (d : Directory) (r : Record) : Except StoreError Unit × Directory :=
  match d.current r with
  | .error e => (.error e, d)
  | .ok stored =>
    match stored.checkReleased r.key with
    | .error e => (.error e, d)
    | .ok () =>
      match d.folder.remove? base (Paths.recordName r.key) with
      | none => (.error .unreachable, d)
      | some folder => (.ok (), { d with folder })

/-- The keys of all records, unless a file has taken the place of their directory. -/
def keys (d : Directory) : Except StoreError (List String) :=
  if d.folder.contains base && !d.folder.isDirectory base then .error .unreachable
  else
    .ok (((d.folder.fileNames base).filterMap Paths.keyOf?).mergeSort fun a b => a ≤ b)

def perform (d : Directory) (now : Instant) : (c : Store.Call) → Store.Answer c × Directory
  | .get key =>
    match checkKey key with
    | .error e => (.error e, d)
    | .ok () => (d.load key, d)
  | .create r => d.create now r
  | .update r => d.update now r
  | .updateStatus r => d.updateStatus now r
  | .delete r => d.delete r
  | .list => (d.keys, d)

instance : Store Directory := ⟨perform⟩

end Directory

end Tributary
