import Tributary.Json.Token

/-!
# Reading JSON texts

A `Tree` is what a text writes down: members in their order, repeated keys kept, and
leaves that have no value. `Tree.parse` is one pass over the tokens with a stack of
open containers. `Tree.value?` is the value, if every leaf has one and the containers
are not nested too deeply; `Json.parse` joins the two.
-/

namespace Tributary.Json

inductive Tree where
  | null
  | bool (value : Bool)
  | num (value : Option Number)
  | str (value : Option String)
  | arr (items : List Tree)
  | obj (members : List (Option String × Tree))
  deriving Inhabited

namespace Tree

/-- A container whose end has not come, with what it holds so far, the latest first. -/
inductive Frame where
  | item (before : List Tree)
  | member (before : List (Option String × Tree)) (key : Option String)

/-- What has been read, and so what may come next. -/
inductive State where
  | value (stack : List Frame)
  | firstItem (stack : List Frame)
  | firstKey (stack : List Frame)
  | key (before : List (Option String × Tree)) (stack : List Frame)
  | colon (before : List (Option String × Tree)) (key : Option String) (stack : List Frame)
  | after (value : Tree) (stack : List Frame)

def stepValue (stack : List Frame) : Token → Option State
  | .null => some (.after .null stack)
  | .bool b => some (.after (.bool b) stack)
  | .num n => some (.after (.num n) stack)
  | .str s => some (.after (.str s) stack)
  | .openArr => some (.firstItem stack)
  | .openObj => some (.firstKey stack)
  | _ => none

def step : State → Token → Option State
  | .value stack, t => stepValue stack t
  | .firstItem stack, .closeArr => some (.after (.arr []) stack)
  | .firstItem stack, t => stepValue (.item [] :: stack) t
  | .firstKey stack, .closeObj => some (.after (.obj []) stack)
  | .firstKey stack, .str k => some (.colon [] k stack)
  | .key before stack, .str k => some (.colon before k stack)
  | .colon before k stack, .colon => some (.value (.member before k :: stack))
  | .after v (.item before :: stack), .comma => some (.value (.item (v :: before) :: stack))
  | .after v (.item before :: stack), .closeArr =>
    some (.after (.arr (v :: before).reverse) stack)
  | .after v (.member before k :: stack), .comma => some (.key ((k, v) :: before) stack)
  | .after v (.member before k :: stack), .closeObj =>
    some (.after (.obj ((k, v) :: before).reverse) stack)
  | _, _ => none

def ofTokens (ts : List Token) : Option Tree :=
  match ts.foldlM step (.value []) with
  | some (.after v []) => some v
  | _ => none

/-- The tree that a text writes down, from its bytes. -/
def parse (text : List UInt8) : Option Tree :=
  (tokens? (text.map fun b => Char.ofNat b.toNat)).bind ofTokens

mutual

/-- The value, if no leaf lacks one and at most `depth` containers are nested. -/
def value? : Tree → Nat → Option Json
  | .null, _ => some .null
  | .bool b, _ => some (.bool b)
  | .num n, _ => n.map .num
  | .str s, _ => s.map .str
  | .arr items, depth + 1 => (items? items depth).map .arr
  | .obj members, depth + 1 =>
    (members? members depth).map fun ms => .ofTable (.ofList ms)
  | .arr _, 0 => none
  | .obj _, 0 => none
termination_by structural x => x

def items? : List Tree → Nat → Option (List Json)
  | [], _ => some []
  | item :: rest, depth =>
    match item.value? depth, items? rest depth with
    | some v, some vs => some (v :: vs)
    | _, _ => none
termination_by structural x => x

def members? : List (Option String × Tree) → Nat → Option (List (String × Json))
  | [], _ => some []
  | (key, value) :: rest, depth =>
    match key, value.value? depth, members? rest depth with
    | some k, some v, some vs => some ((k, v) :: vs)
    | _, _, _ => none
termination_by structural x => x

end

end Tree

/-- As many containers may be nested in a text. -/
def maxDepth : Nat := 127

/-- The value that a text stands for, objects sorted and each key with its last value. -/
def parseBytes (text : List UInt8) : Option Json :=
  (Tree.parse text).bind (·.value? maxDepth)

def parse (text : String) : Option Json := parseBytes text.toUTF8.toList

end Tributary.Json
