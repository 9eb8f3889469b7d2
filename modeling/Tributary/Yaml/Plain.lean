import Tributary.Json.Value

/-!
# What plain scalars stand for

A plain scalar is a null, a truth value, a number or else a text. Integers may have a sign
and be written in base 16, 8 or 2; a leading zero before other digits makes a text.
-/

namespace Tributary.Yaml.Plain

def isNull (s : String) : Bool := s ∈ ["null", "Null", "NULL", "~"]

def bool? (s : String) : Option Bool :=
  if s ∈ ["true", "True", "TRUE"] then some true
  else if s ∈ ["false", "False", "FALSE"] then some false
  else none

def digit? (base : Nat) (c : Char) : Option Nat :=
  let value :=
    if c.isDigit then some (c.toNat - '0'.toNat)
    else if 'a' ≤ c ∧ c ≤ 'z' then some (c.toNat - 'a'.toNat + 10)
    else if 'A' ≤ c ∧ c ≤ 'Z' then some (c.toNat - 'A'.toNat + 10)
    else none
  value.bind fun n => if n < base then some n else none

/-- Digits of a base, at least one of them. -/
def digits? (base : Nat) (s : List Char) : Option Nat :=
  if s = [] then none
  else (s.mapM (digit? base)).map fun ds => ds.foldl (fun n d => n * base + d) 0

def dropSign : List Char → List Char
  | '+' :: rest => rest
  | '-' :: rest => rest
  | s => s

/-- Zeros before further digits, which make a text of what would be a number. -/
def leadingZero (s : List Char) : Bool :=
  match dropSign s with
  | '0' :: d :: rest => d.isDigit && rest.all Char.isDigit
  | _ => false

/-- A magnitude with the mark of its base, or in base ten. -/
def magnitude? (s : List Char) : Option Nat :=
  match s with
  | '0' :: 'x' :: rest => digits? 16 rest
  | '0' :: 'o' :: rest => digits? 8 rest
  | '0' :: 'b' :: rest => digits? 2 rest
  | s => if leadingZero s then none else digits? 10 s

/-- An integer that is not negative, with or without a plus sign. -/
def unsigned? : List Char → Option Nat
  | '+' :: rest => magnitude? rest
  | s => magnitude? s

/-- An integer with any sign or none. -/
def integer? : List Char → Option Int
  | '-' :: rest => (magnitude? rest).map fun n => -(n : Int)
  | s => (unsigned? s).map Int.ofNat

/-- What is written of a decimal number: its digits without the point, how many of them
are behind it, and the exponent. -/
def exponentOf? : List Char → Option Int
  | [] => some 0
  | e :: rest =>
    if e = 'e' ∨ e = 'E' then
      match rest with
      | '-' :: ds => (digits? 10 ds).map fun n => -(n : Int)
      | '+' :: ds => (digits? 10 ds).map Int.ofNat
      | ds => (digits? 10 ds).map Int.ofNat
    else none

/-- The nearest double of a decimal number without a sign, if there is a finite one. -/
def magnitudeDouble? (negative : Bool) (s : List Char) : Option Decimal.Double := do
  let whole := s.takeWhile Char.isDigit
  let rest := s.dropWhile Char.isDigit
  let (fraction, rest) := match rest with
    | '.' :: rest => (rest.takeWhile Char.isDigit, rest.dropWhile Char.isDigit)
    | rest => ([], rest)
  let digits ← digits? 10 (whole ++ fraction)
  let exponent ← exponentOf? rest
  Decimal.Double.nearest? negative digits (exponent - fraction.length)

def double? : List Char → Option Decimal.Double
  | '-' :: rest => magnitudeDouble? true rest
  | '+' :: rest => magnitudeDouble? false rest
  | s => magnitudeDouble? false s

/-- The spellings of infinities and of the number that is none. -/
def isNotFinite (s : String) : Bool :=
  s ∈ [".inf", ".Inf", ".INF", "+.inf", "+.Inf", "+.INF", "-.inf", "-.Inf", "-.INF",
    ".nan", ".NaN", ".NAN"]

inductive Meaning where
  | null
  | bool (value : Bool)
  | integer (value : Int)
  /-- A double, or none if it is not finite. -/
  | double (value : Option Decimal.Double)
  | text
  deriving DecidableEq

/-- Integers count as such as far as 128 bits reach. -/
def fits (n : Int) : Bool := -(Nat.pow 2 127 : Nat) ≤ n ∧ n < (Nat.pow 2 128 : Nat)

def meaning (s : String) : Meaning :=
  if s = "" ∨ isNull s then .null
  else match bool? s with
  | some b => .bool b
  | none =>
    match (integer? s.toList).filter fits with
    | some n => .integer n
    | none =>
      if leadingZero s.toList then .text
      else if isNotFinite s then .double none
      else match double? s.toList with
      | some x => .double (some x)
      | none => .text

end Tributary.Yaml.Plain
