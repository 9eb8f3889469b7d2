import Tributary.Json.Tree

/-!
# Reading structured data

What a form of writing must offer so that records and settings can be read from it:
structures by field name, lists, tables, optional parts and scalars. No form converts
between kinds of scalar. A structure refuses a known field that is written twice and
ignores fields it does not know.

A form may let one part stand for another by reference. How many references are followed
is limited for all parts together, so every reader counts them.
-/

namespace Tributary

/-- A reader that may follow only so many references: it fails, or it gives a value and how
many references may still be followed. -/
abbrev Reading (α : Type) := StateT Nat Option α

namespace Reading

variable {α β : Type}

/-- A value that takes no reference, or failure. -/
def ofOption (value : Option α) : Reading α := fun left => value.map (·, left)

/-- Follows one reference. -/
def follow : Reading Unit := fun left =>
  match left with
  | 0 => none
  | left + 1 => some ((), left)

def filterMap (r : Reading α) (f : α → Option β) : Reading β := do ofOption (f (← r))

/-- The value of a reader that may follow so many references. -/
def read? (r : Reading α) (references : Nat) : Option α := (r references).map (·.1)

end Reading

class Readable (σ : Type) where
  text? : σ → Reading String
  bool? : σ → Reading Bool
  /-- An integer between two bounds. -/
  int? : Int → Int → σ → Reading Int
  /-- The name of an alternative without contents. -/
  variant? : σ → Reading String
  /-- What is written where something may be missing. -/
  optional? : σ → Reading (Option σ)
  items? : σ → Reading (List σ)
  entries? : σ → Reading (List (String × σ))
  /-- The fields of a structure whose field names are given. -/
  fields? : List String → σ → Reading (String → Option σ)
  json? : σ → Reading Json

namespace Readable

variable {σ : Type} [Readable σ] {α : Type}

def required (f : String → Option σ) (name : String) (read : σ → Reading α) : Reading α :=
  match f name with
  | none => failure
  | some s => read s

/-- A field with a value to fall back on. -/
def fallback (f : String → Option σ) (name : String) (value : α) (read : σ → Reading α) :
    Reading α :=
  match f name with
  | none => pure value
  | some s => read s

/-- A field that may be missing, or be written as nothing. -/
def optionally (f : String → Option σ) (name : String) (read : σ → Reading α) :
    Reading (Option α) :=
  match f name with
  | none => pure none
  | some s => do
    match ← optional? s with
    | none => pure none
    | some s => some <$> read s

/-- A natural number of at most so many bits. -/
def nat? (bits : Nat) (s : σ) : Reading Nat :=
  Int.toNat <$> int? 0 (Nat.pow 2 bits - 1 : Nat) s

def list? (read : σ → Reading α) (s : σ) : Reading (List α) := do (← items? s).mapM read

/-- A table; a repeated key keeps its last value. -/
def table? (read : σ → Reading α) (s : σ) : Reading (Table α) := do
  let pairs ← (← entries? s).mapM fun (k, v) => do return (k, ← read v)
  return .ofList pairs

def bytes? (s : σ) : Reading (List UInt8) := list? (fun b => Nat.toUInt8 <$> nat? 8 b) s

end Readable

/-- The fields among members of which every known one is written at most once. -/
def uniqueFields {σ : Type} (names : List String) (members : List (String × σ)) :
    Option (String → Option σ) :=
  let known := members.filter fun p => names.contains p.1
  if (known.map (·.1)).Nodup then some fun name => Table.look name known else none

/-- A place in a written JSON text, and how many containers may still open there. -/
structure Json.Cursor where
  tree : Json.Tree
  depth : Nat

namespace Json.Cursor

def start (tree : Tree) : Cursor := ⟨tree, maxDepth⟩

def inside (c : Cursor) (tree : Tree) : Cursor := ⟨tree, c.depth - 1⟩

/-- Members with the texts of their keys, each of which must have one. -/
def members? (c : Cursor) (members : List (Option String × Tree)) :
    Option (List (String × Cursor)) :=
  members.mapM fun (k, v) => k.map (·, c.inside v)

def items? (c : Cursor) : Option (List Cursor) :=
  match c.tree with
  | .arr items => if c.depth = 0 then none else some (items.map c.inside)
  | _ => none

def entries? (c : Cursor) : Option (List (String × Cursor)) :=
  match c.tree with
  | .obj members => if c.depth = 0 then none else c.members? members
  | _ => none

/-- A structure is an object, or an array of its fields in their order, which may end early. -/
def fields? (names : List String) (c : Cursor) : Option (String → Option Cursor) :=
  match c.tree with
  | .obj _ => c.entries?.bind (uniqueFields names)
  | .arr _ => c.items?.bind fun items =>
    if items.length ≤ names.length then
      some fun name => Table.look name (names.zip items)
    else none
  | _ => none

/-- An alternative is its name, or an object with its name over nothing. -/
def variant? (c : Cursor) : Option String :=
  match c.tree with
  | .str s => s
  | .obj [(k, .null)] => if c.depth = 0 then none else k
  | _ => none

instance : Readable Cursor where
  text? c := match c.tree with
    | .str s => .ofOption s
    | _ => failure
  bool? c := match c.tree with
    | .bool b => pure b
    | _ => failure
  int? lo hi c := match c.tree with
    | .num (some (.int n)) => if lo ≤ n ∧ n ≤ hi then pure n else failure
    | _ => failure
  variant? c := .ofOption c.variant?
  optional? c := match c.tree with
    | .null => pure none
    | _ => pure (some c)
  items? c := .ofOption c.items?
  entries? c := .ofOption c.entries?
  fields? names c := .ofOption (c.fields? names)
  json? c := .ofOption (c.tree.value? c.depth)

end Json.Cursor

/-- Reads a structure from the text of a JSON document, which knows no references. -/
def Json.readBytes {α : Type} (read : Json.Cursor → Reading α) (text : List UInt8) : Option α :=
  (Json.Tree.parse text).bind fun t => (read (.start t)).read? 0

def Json.read {α : Type} (read : Json.Cursor → Reading α) (text : String) : Option α :=
  Json.readBytes read text.toUTF8.toList

end Tributary
