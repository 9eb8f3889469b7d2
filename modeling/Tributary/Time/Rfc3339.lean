import Tributary.Text.Blank
import Tributary.Time.Calendar
import Tributary.Time.Instant

/-!
# Instants as text

Instants are written as RFC 3339 in UTC, with the fewest of 0, 3, 6 or 9 fraction digits
that lose nothing, and a sign before years of other than four digits. The reader is more
lenient: blanks between the parts, a blank instead of the `T`, any offset.
-/

namespace Tributary.Rfc3339

open Calendar

/-- Decimal digits with leading zeros up to a width. -/
def padded (width n : Nat) : String :=
  let ds := Nat.toDigits 10 n
  String.ofList (List.replicate (width - ds.length) '0' ++ ds)

def yearText (y : Int) : String :=
  if 0 ≤ y ∧ y ≤ 9999 then padded 4 y.toNat
  else if y < 0 then "-" ++ padded 4 (-y).toNat
  else "+" ++ padded 4 y.toNat

def fractionText (nanos : Nat) : String :=
  if nanos = 0 then ""
  else if nanos % 1000000 = 0 then "." ++ padded 3 (nanos / 1000000)
  else if nanos % 1000 = 0 then "." ++ padded 6 (nanos / 1000)
  else "." ++ padded 9 nanos

/-- The text of an instant; a leap second is the second 60. -/
def format (t : Instant) : String :=
  let date := ofDayNumber (t.seconds / 86400)
  let clock := (t.seconds % 86400).toNat
  let leap := if t.isLeap then 1 else 0
  yearText date.year ++ "-" ++ padded 2 date.month ++ "-" ++ padded 2 date.day ++ "T" ++
    padded 2 (clock / 3600) ++ ":" ++ padded 2 (clock / 60 % 60) ++ ":" ++
    padded 2 (clock % 60 + leap) ++
    fractionText (if t.isLeap then t.nanos - Instant.nanosPerSecond else t.nanos) ++ "Z"

def skipBlanks (s : List Char) : List Char := s.dropWhile Text.isBlank

def valueOf (ds : List Char) : Nat := ds.foldl (fun n c => n * 10 + (c.toNat - '0'.toNat)) 0

/-- A number of one to `width` digits. -/
def number? (width : Nat) (s : List Char) : Option (Nat × List Char) :=
  let ds := (s.take width).takeWhile Char.isDigit
  if ds = [] then none else some (valueOf ds, s.drop ds.length)

/-- A number after blanks. -/
def part? (width : Nat) (s : List Char) : Option (Nat × List Char) :=
  number? width (skipBlanks s)

/-- A mark after blanks. -/
def mark? (c : Char) (s : List Char) : Option (List Char) :=
  match skipBlanks s with
  | d :: rest => if d = c then some rest else none
  | [] => none

/-- A year of up to four digits, or of any number of digits after a sign. -/
def year? (s : List Char) : Option (Int × List Char) :=
  match skipBlanks s with
  | '-' :: rest => (number? rest.length rest).map fun (n, r) => (-(n : Int), r)
  | '+' :: rest => (number? rest.length rest).map fun (n, r) => ((n : Int), r)
  | rest => (number? 4 rest).map fun (n, r) => ((n : Int), r)

/-- The fraction in nanoseconds; digits after the ninth are dropped. -/
def fraction? : List Char → Option (Nat × List Char)
  | '.' :: rest =>
    let ds := (rest.take 9).takeWhile Char.isDigit
    if ds = [] then none
    else
      some (valueOf ds * Nat.pow 10 (9 - ds.length), (rest.drop ds.length).dropWhile Char.isDigit)
  | s => some (0, s)

/-- The separator between date and time. -/
def separator? : List Char → Option (List Char)
  | 'T' :: rest => some rest
  | 't' :: rest => some rest
  | ' ' :: rest => some rest
  | _ => none

def twoDigits? : List Char → Option (Nat × List Char)
  | a :: b :: rest => if a.isDigit ∧ b.isDigit then some (valueOf [a, b], rest) else none
  | _ => none

/-- Hours and minutes east of UTC, in seconds; colons and blanks may stand between them. -/
def hoursMinutes? (s : List Char) : Option (Nat × List Char) := do
  let (hours, s) ← twoDigits? s
  let (minutes, s) ← twoDigits? (s.dropWhile fun c => c = ':' ∨ Text.isBlank c)
  if 60 ≤ minutes then none else some (hours * 3600 + minutes * 60, s)

/-- The offset from UTC in seconds: `Z`, `UTC` or a signed time, the minus sign of either kind. -/
def offset? : List Char → Option (Int × List Char)
  | 'Z' :: rest => some (0, rest)
  | 'z' :: rest => some (0, rest)
  | '+' :: rest => (hoursMinutes? rest).map fun (n, r) => ((n : Int), r)
  | '-' :: rest => (hoursMinutes? rest).map fun (n, r) => (-(n : Int), r)
  | '\u2212' :: rest => (hoursMinutes? rest).map fun (n, r) => (-(n : Int), r)
  | u :: t :: c :: rest =>
    if [u.toUpper, t.toUpper, c.toUpper] = ['U', 'T', 'C'] then some (0, rest) else none
  | _ => none

/-- The instant of a local date and time, if all its parts are in range. -/
def instant? (date : Date) (hour minute second nanos : Nat) (offset : Int) : Option Instant :=
  if date.valid ∧ hour < 24 ∧ minute < 60 ∧ second ≤ 60 ∧ -86400 < offset ∧ offset < 86400 then
    let clock : Int := hour * 3600 + minute * 60 + min second 59
    let nanos := if second = 60 then nanos + Instant.nanosPerSecond else nanos
    let seconds := date.dayNumber * 86400 + clock - offset
    if Instant.minSeconds ≤ seconds ∧ seconds ≤ Instant.maxSeconds then some ⟨seconds, nanos⟩
    else none
  else none

/-- Reads an instant, and nothing but blanks after it. -/
def parseChars (s : List Char) : Option Instant := do
  let (year, s) ← year? s
  let s ← mark? '-' s
  let (month, s) ← part? 2 s
  let s ← mark? '-' s
  let (day, s) ← part? 2 s
  let s ← separator? s
  let (hour, s) ← part? 2 s
  let s ← mark? ':' s
  let (minute, s) ← part? 2 s
  let s ← mark? ':' s
  let (second, s) ← part? 2 s
  let (nanos, s) ← fraction? s
  let (offset, s) ← offset? (skipBlanks s)
  if skipBlanks s = [] then instant? ⟨year, month, day⟩ hour minute second nanos offset else none

def parse (s : String) : Option Instant := parseChars s.toList

end Tributary.Rfc3339
