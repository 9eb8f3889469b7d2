/-!
# Paths

Where settings and records are kept. Paths are texts with slashes between their parts; they
are joined and taken apart without being normalised.
-/

namespace Tributary.Paths

def isAbsolute (path : String) : Bool := path.toList.head? = some '/'

/-- An absolute path replaces the one it is joined to. -/
def join (base path : String) : String :=
  if isAbsolute path then path
  else if base.toList.getLast?.all (· = '/') then base ++ path
  else base ++ "/" ++ path

/-- The parts of a path, without empty ones and dots. -/
def parts (path : String) : List (List Char) :=
  (path.toList.splitOn '/').filter fun part => part ≠ [] ∧ part ≠ ['.']

/-- The last part of a path, unless that leads back up. -/
def fileName? (path : String) : Option (List Char) :=
  (parts path).getLast?.filter (· ≠ ['.', '.'])

/-- What the files of records end in. -/
def recordEnding : List Char := ".yaml".toList

/-- The key of the record that a file of this name holds. -/
def keyOfName? (name : List Char) : Option String :=
  if recordEnding.isSuffixOf name then
    let stem := name.take (name.length - recordEnding.length)
    if stem = [] ∨ stem.head? = some '.' then none else some (String.ofList stem)
  else none

def keyOf? (path : String) : Option String := (fileName? path).bind keyOfName?

/-- The name of the file of a record. -/
def recordName (key : String) : String := key ++ ".yaml"

/-- The name under which a record is written before it takes its place. -/
def draftName (key : String) : String := key ++ ".yaml.tmp"

/-- The name of the directory that holds the files of the records. -/
def records : String := "records"

def recordsDirectory (root : String) : String := join root records

def recordFile (root key : String) : String := join (recordsDirectory root) (recordName key)

/-- Where the settings of a home directory are. -/
def settingsDirectory (home : String) : String := join home ".concord"

def settingsFile (home : String) : String := join (settingsDirectory home) "config.yaml"

/-- Where records are kept unless the settings say otherwise. -/
def defaultRoot (home : String) : String := settingsDirectory home

end Tributary.Paths
