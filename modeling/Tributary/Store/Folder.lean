import Tributary.Paths
import Tributary.Table

/-!
# Folders

Files and directories with their permissions, each at the place to which a list of names
leads from the top. The top, the directories above it and the root of all files are always
there. A path is followed from a directory part by part, and every part but the last one
has to be a directory that is there; two dots lead back up. An operation that fails changes
nothing, unless it says so.
-/

namespace Tributary

/-- The names that lead to a place from the top. Two dots stand for the directory above, and
a slash for the root of all files. -/
abbrev Location := List String

namespace Location

/-- The text under which a place is kept. -/
def name (l : Location) : String := "/".intercalate l

/-- The top, the directories above it and the root. -/
def isFixed (l : Location) : Bool := l.all (· = "..") || l = ["/"]

/-- Where two dots lead. -/
def up (l : Location) : Location :=
  if l = ["/"] then l else if l.isFixed then l ++ [".."] else l.dropLast

/-- Where a place is after the directory `old` has been moved. -/
def moved (old new l : Location) : Location :=
  if old.isPrefixOf l then new ++ l.drop old.length else l

end Location

inductive Folder.Entry where
  | file (mode : Nat) (content : List UInt8)
  | directory (mode : Nat)
  deriving DecidableEq

structure Folder where
  entries : Table Folder.Entry := {}

namespace Folder

/-- The permissions of new files and directories. -/
def fileMode : Nat := 0o644

def directoryMode : Nat := 0o755

/-- Nothing but a device that is never a directory. -/
def start : Folder :=
  ⟨.ofList [(Location.name ["/", "dev"], .directory directoryMode),
    (Location.name ["/", "dev", "null"], .file 0o666 [])]⟩

def entry? (f : Folder) (l : Location) : Option Entry := f.entries.get? l.name

/-- Whether there is something at a place. -/
def contains (f : Folder) (l : Location) : Bool := l.isFixed || (f.entry? l).isSome

def isDirectory (f : Folder) (l : Location) : Bool :=
  l.isFixed ||
    match f.entry? l with
    | some (.directory _) => true
    | _ => false

def put (f : Folder) (l : Location) (entry : Entry) : Folder := ⟨f.entries.set l.name entry⟩

/-! ## Following paths -/

/-- A name of at most 255 bytes. -/
def isName (s : String) : Bool := s.utf8ByteSize ≤ 255

/-- A path of at most 4071 bytes, none of which is zero. -/
def isPath (s : String) : Bool := s.utf8ByteSize ≤ 4071 && !s.toList.contains '\x00'

/-- The directory in a directory to which a part of a path leads. -/
def enter? (f : Folder) (l : Location) (part : String) : Option Location :=
  if part = "" ∨ part = "." then some l
  else if part = ".." then some l.up
  else if isName part ∧ f.isDirectory (l ++ [part]) then some (l ++ [part])
  else none

/-- What a path leads to, which need not be there. -/
structure Target where
  location : Location
  /-- Whether only a directory can be there: the path ends in a slash or in dots. -/
  directory : Bool
  /-- Whether the path ends in a name. -/
  named : Bool

/-- The parts of a path, without empty ones at its end. -/
def parts (path : String) : List String :=
  ((path.toList.splitOn '/').map String.ofList).reverse.dropWhile (· = "") |>.reverse

def follow? (f : Folder) (base : Location) (path : String) : Option Target := do
  let base := if Paths.isAbsolute path then ["/"] else base
  if !isPath path || !f.isDirectory base then none
  match (parts path).getLast? with
  | none => some ⟨base, true, false⟩
  | some last =>
    let l ← (parts path).dropLast.foldlM f.enter? base
    if last = "." ∨ last = ".." then (f.enter? l last).map (⟨·, true, false⟩)
    else if isName last then some ⟨l ++ [last], path.toList.getLast? = some '/', true⟩
    else none

/-! ## Files -/

/-- The bytes of a file. -/
def content? (f : Folder) (l : Location) : Option (List UInt8) :=
  match f.entry? l with
  | some (.file _ content) => some content
  | _ => none

/-- The place of a path that can be that of a file. -/
def filePlace? (f : Folder) (base : Location) (path : String) : Option Location := do
  let t ← f.follow? base path
  if t.directory || f.isDirectory t.location then none else some t.location

def read? (f : Folder) (base : Location) (path : String) : Option (List UInt8) :=
  (f.filePlace? base path).bind f.content?

def modeOf? (f : Folder) (base : Location) (path : String) : Option Nat := do
  let t ← f.follow? base path
  match f.entry? t.location with
  | some (.file mode _) => if t.directory then none else some mode
  | some (.directory mode) => some mode
  | none => if t.location.isFixed then some directoryMode else none

/-- Writes a file; one that is there keeps its permissions. -/
def write? (f : Folder) (base : Location) (path : String) (content : List UInt8) :
    Option Folder := do
  let l ← f.filePlace? base path
  match f.entry? l with
  | some (.file mode _) => some (f.put l (.file mode content))
  | _ => some (f.put l (.file fileMode content))

def protect? (f : Folder) (base : Location) (path : String) (mode : Nat) : Option Folder := do
  let t ← f.follow? base path
  match f.entry? t.location with
  | some (.file _ content) =>
    if t.directory then none else some (f.put t.location (.file mode content))
  | some (.directory _) => some (f.put t.location (.directory mode))
  | none => none

def remove? (f : Folder) (base : Location) (path : String) : Option Folder := do
  let l ← f.filePlace? base path
  (f.content? l).map fun _ => ⟨f.entries.erase l.name⟩

/-- The names of the files that are in a directory and in none below it. -/
def fileNames (f : Folder) (l : Location) : List String :=
  let start := (l.name ++ "/").toList
  f.entries.entries.filterMap fun
    | (name, .file ..) =>
      if start.isPrefixOf name.toList then
        let rest := name.toList.drop start.length
        if rest.contains '/' then none else some (String.ofList rest)
      else none
    | (_, .directory _) => none

/-! ## Directories -/

/-- What lies below a directory, by the text of its place. -/
def isBelow (l : Location) (name : String) : Bool := (l.name ++ "/").toList.isPrefixOf name.toList

/-- Whether nothing lies below a place. -/
def isBare (f : Folder) (l : Location) : Bool := f.entries.keys.all fun name => !isBelow l name

/-- Puts a directory and what lies below it at another place. -/
def moveDirectory (f : Folder) (old new : Location) : Folder :=
  let place (name : String) : String :=
    if name = old.name ∨ isBelow old name then
      String.ofList (new.name.toList ++ name.toList.drop old.name.toList.length)
    else name
  ⟨.ofList ((f.entries.erase new.name).entries.map fun (name, entry) => (place name, entry))⟩

/-- Gives a file or a directory another place; a file or an empty directory that is there is
replaced by one of its kind. -/
def rename? (f : Folder) (base : Location) (path newPath : String) : Option Folder := do
  let s ← f.follow? base path
  let t ← f.follow? base newPath
  if !s.named || !t.named then none
  match f.entry? s.location with
  | some (.file mode content) =>
    if s.directory || t.directory || f.isDirectory t.location then none
    else some (Folder.put ⟨f.entries.erase s.location.name⟩ t.location (.file mode content))
  | some (.directory _) =>
    if s.location = t.location then some f
    else if s.location.isPrefixOf t.location then none
    else if !f.contains t.location || f.isDirectory t.location && f.isBare t.location then
      some (f.moveDirectory s.location t.location)
    else none
  | none => none

/-- The outcome of making directories: those that were made stay, also if one could not be. -/
structure Making where
  folder : Folder
  made : List Location := []
  complete : Bool := true

/-- Makes the directories on the way along parts of a path. -/
def makeAlong (m : Making) (l : Location) : List String → Making
  | [] => m
  | part :: rest =>
    if part = ".." then makeAlong m l.up rest
    else
      let inner := l ++ [part]
      if m.folder.isDirectory inner then makeAlong m inner rest
      else if isName part ∧ ¬ m.folder.contains inner then
        makeAlong { m with
          folder := m.folder.put inner (.directory directoryMode)
          made := m.made ++ [inner] } inner rest
      else { m with complete := false }

/-- Makes a directory and those above it. One that is written with a dot at its end is not
made, only those above it; it has to be there. -/
def makeDirectory (f : Folder) (path : String) : Making :=
  if isPath path then
    let base := if Paths.isAbsolute path then ["/"] else []
    let names := (parts path).filter fun part => part ≠ "" ∧ part ≠ "."
    if (parts path).getLast? = some "." then
      let m := makeAlong { folder := f } base names.dropLast
      { m with complete := m.complete && (m.folder.follow? [] path).isSome }
    else makeAlong { folder := f } base names
  else { folder := f, complete := false }

/-- Takes a directory away with all that lies below it. -/
def removeDirectory? (f : Folder) (l : Location) : Option Folder :=
  match f.entry? l with
  | some (.directory _) =>
    some ⟨⟨f.entries.entries.filter fun p => !(p.1 = l.name || isBelow l p.1)⟩⟩
  | _ => none

end Folder

end Tributary
