/-!
# Tokens of YAML texts

Besides what is written, tokens say where indentation opens and closes a block collection.
A tag is a string of bytes: percent escapes can write such as are no text.
-/

namespace Tributary.Yaml

inductive Style where
  | plain
  | singleQuoted
  | doubleQuoted
  | literal
  | folded
  deriving DecidableEq, Inhabited

structure Tag where
  bytes : List UInt8
  deriving DecidableEq, Inhabited

namespace Tag

def ofText (s : String) : Tag := ⟨s.toUTF8.toList⟩

def bool : Tag := .ofText "tag:yaml.org,2002:bool"

def int : Tag := .ofText "tag:yaml.org,2002:int"

def float : Tag := .ofText "tag:yaml.org,2002:float"

def null : Tag := .ofText "tag:yaml.org,2002:null"

/-- What the two handles that need no directive stand for. -/
def handles : List (String × Tag) := [("!", .ofText "!"), ("!!", .ofText "tag:yaml.org,2002:")]

def append (t u : Tag) : Tag := ⟨t.bytes ++ u.bytes⟩

/-- Whether a tag has a meaning in its own document only. -/
def isLocal (t : Tag) : Bool := t.bytes.head? = some '!'.toUInt8

/-- The name of a local tag, if that is a text. -/
def localName? (t : Tag) : Option String :=
  if t.isLocal then String.fromUTF8? ⟨(t.bytes.drop 1).toArray⟩ else none

end Tag

inductive Token where
  | version (major minor : Nat)
  | tagHandle (handle : String) (start : Tag)
  | documentStart
  | documentEnd
  | blockSequence
  | blockMapping
  | blockEnd
  | openSequence
  | closeSequence
  | openMapping
  | closeMapping
  | blockEntry
  | flowEntry
  | key
  | value
  | alias (name : String)
  | anchor (name : String)
  | tag (handle : String) (suffix : Tag)
  | scalar (style : Style) (text : String)
  deriving DecidableEq, Inhabited

end Tributary.Yaml
