import Tributary.Decimal.Double
import Tributary.Table

/-!
# JSON values

Numbers keep their kind: an integer is never the double of the same size. Members
are a list, so that a value can be built in any order; `Json.sorted` is the form in
which every object lists each key once, in ascending order.
-/

namespace Tributary

inductive Json.Number where
  | int (value : Int)
  | double (value : Decimal.Double)
  deriving DecidableEq

inductive Json where
  | null
  | bool (value : Bool)
  | num (value : Json.Number)
  | str (value : String)
  | arr (items : List Json)
  | obj (members : List (String × Json))
  deriving BEq, Inhabited

namespace Json

def int (n : Int) : Json := .num (.int n)

def nat (n : Nat) : Json := .int n

def strings (items : List String) : Json := .arr (items.map .str)

/-- The object of a table. -/
def ofTable (t : Table Json) : Json := .obj t.entries

mutual

/-- The same value with the members of every object in ascending key order; a
repeated key keeps its last value. -/
def sorted : Json → Json
  | .arr items => .arr (sortedItems items)
  | .obj members => ofTable (.ofList (sortedMembers members))
  | .null => .null
  | .bool b => .bool b
  | .num n => .num n
  | .str s => .str s
termination_by structural x => x

def sortedItems : List Json → List Json
  | [] => []
  | item :: rest => item.sorted :: sortedItems rest
termination_by structural x => x

def sortedMembers : List (String × Json) → List (String × Json)
  | [] => []
  | (key, value) :: rest => (key, value.sorted) :: sortedMembers rest
termination_by structural x => x

end

/-- The value under a key of an object. -/
def get? : Json → String → Option Json
  | .obj members, key => (Table.ofList members).get? key
  | _, _ => none

end Json

end Tributary
