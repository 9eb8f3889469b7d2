import Tributary.Json.Value
import Tributary.Decimal.Shortest

/-!
# JSON texts

`Json.canonical` is the compact text of the sorted value: one text for each value,
whatever order its objects were built in. `Json.pretty` lays the same value out over
lines, two spaces deeper for each container.
-/

namespace Tributary.Json

/-- Doubles carry the sign of an exponent. -/
def doubleLayout : Decimal.Layout := { plus := "+" }

def Number.text : Number → String
  | .int (.ofNat n) => Decimal.digitsOf n
  | .int (.negSucc n) => "-" ++ Decimal.digitsOf (n + 1)
  | .double x => doubleLayout.text x

/-- Two hexadecimal digits in lower case. -/
def hexByte (n : Nat) : List Char := [Nat.digitChar (n / 16 % 16), Nat.digitChar (n % 16)]

/-- Quotes, backslashes and control characters are escaped; all else stands for itself. -/
def escape (c : Char) : List Char :=
  if c = '"' then ['\\', '"']
  else if c = '\\' then ['\\', '\\']
  else if c = '\n' then ['\\', 'n']
  else if c = '\r' then ['\\', 'r']
  else if c = '\t' then ['\\', 't']
  else if c = '\x08' then ['\\', 'b']
  else if c = '\x0c' then ['\\', 'f']
  else if c.toNat < 0x20 then ['\\', 'u', '0', '0'] ++ hexByte c.toNat
  else [c]

def quote (s : String) : String :=
  "\"" ++ String.ofList (s.toList.flatMap escape) ++ "\""

mutual

/-- The text without any space, members in the order of the value. -/
def compact : Json → String
  | .null => "null"
  | .bool true => "true"
  | .bool false => "false"
  | .num n => n.text
  | .str s => quote s
  | .arr items => "[" ++ ",".intercalate (compactItems items) ++ "]"
  | .obj members => "\x7b" ++ ",".intercalate (compactMembers members) ++ "\x7d"
termination_by structural x => x

def compactItems : List Json → List String
  | [] => []
  | item :: rest => item.compact :: compactItems rest
termination_by structural x => x

def compactMembers : List (String × Json) → List String
  | [] => []
  | (key, value) :: rest => (quote key ++ ":" ++ value.compact) :: compactMembers rest
termination_by structural x => x

end

/-- The one text of a value. -/
def canonical (v : Json) : String := v.sorted.compact

def indent (depth : Nat) : String := String.ofList (List.replicate (2 * depth) ' ')

/-- Lines between two brackets, each at the given depth. -/
def block (opening closing : String) (depth : Nat) : List String → String
  | [] => opening ++ closing
  | lines =>
    let pad := "\n" ++ indent (depth + 1)
    opening ++ pad ++ ("," ++ pad).intercalate lines ++ "\n" ++ indent depth ++ closing

mutual

def layout : Json → Nat → String
  | .arr items, depth => block "[" "]" depth (layoutItems items (depth + 1))
  | .obj members, depth => block "\x7b" "\x7d" depth (layoutMembers members (depth + 1))
  | .null, _ => "null"
  | .bool true, _ => "true"
  | .bool false, _ => "false"
  | .num n, _ => n.text
  | .str s, _ => quote s
termination_by structural x => x

def layoutItems : List Json → Nat → List String
  | [], _ => []
  | item :: rest, depth => item.layout depth :: layoutItems rest depth
termination_by structural x => x

def layoutMembers : List (String × Json) → Nat → List String
  | [], _ => []
  | (key, value) :: rest, depth =>
    (quote key ++ ": " ++ value.layout depth) :: layoutMembers rest depth
termination_by structural x => x

end

/-- The lines of the sorted value, the last one ended too. -/
def pretty (v : Json) : String := v.sorted.layout 0 ++ "\n"

end Tributary.Json
