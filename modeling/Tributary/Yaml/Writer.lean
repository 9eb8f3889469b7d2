import Tributary.Json.Value
import Tributary.Decimal.Shortest
import Tributary.Yaml.Cursor
import Tributary.Yaml.Plain

/-!
# Writing YAML

A value is written in block style, two spaces deeper for each mapping, the items of a
sequence at the indentation of their key. A text is written plain if it reads back as that
text; otherwise in single quotes, as a literal block if it has lines, or in double quotes if
it holds anything that cannot be printed. Lines are never folded.
-/

namespace Tributary.Yaml.Writer

/-- The characters that stand for themselves. -/
def isPrintable (c : Char) : Bool :=
  let n := c.toNat
  n = 0x0a ∨ (0x20 ≤ n ∧ n ≤ 0x7e) ∨ (0xa0 ≤ n ∧ n ≤ 0xd7ff) ∨
    (0xe000 ≤ n ∧ n ≤ 0xfffd ∧ n ≠ 0xfeff) ∨ 0x10000 ≤ n

/-- A blank, a line break or the end. -/
def gapNext : List Char → Bool
  | [] => true
  | c :: _ => isSpaceOrTab c || isBreak c

/-- Whether a character at the beginning of a text, before `rest`, would be an indicator. -/
def leads (c : Char) (rest : List Char) : Bool :=
  c ∈ ['#', ',', '[', ']', '{', '}', '&', '*', '!', '|', '>', '\'', '"', '%', '@', '`'] ||
    ((c = '?' || c = ':' || c = '-') && gapNext rest)

/-- Whether a character within a text would be an indicator. -/
def interrupts (before c : Char) (rest : List Char) : Bool :=
  (c = ':' && gapNext rest) || (c = '#' && (isSpaceOrTab before || isBreak before))

/-- Whether two neighbours, or one character and what follows, meet a condition. -/
def anyPair (p : Char → Char → List Char → Bool) : List Char → Bool
  | a :: b :: rest => p a b rest || anyPair p (b :: rest)
  | _ => false

/-- Whether a text holds an indicator that keeps it from being plain. -/
def hasIndicators (s : List Char) : Bool :=
  ['-', '-', '-'].isPrefixOf s || ['.', '.', '.'].isPrefixOf s ||
    (match s with
     | c :: rest => leads c rest
     | [] => false) ||
    anyPair interrupts s

/-- What a text is made of, as far as it decides how the text can be written. -/
structure Shape where
  special : Bool
  breaks : Bool
  indicators : Bool
  /-- A blank or a line break at either end. -/
  ragged : Bool
  trailingSpace : Bool
  /-- A space after a line break. -/
  breakSpace : Bool
  /-- A space before a line break. -/
  spaceBreak : Bool

def shape (s : List Char) : Shape :=
  let edge (c : Option Char) : Bool := c.any fun c => c = ' ' ∨ isBreak c
  { special := s.any fun c => !isPrintable c
    breaks := s.any isBreak
    indicators := hasIndicators s
    ragged := edge s.head? || edge s.getLast?
    trailingSpace := s.getLast? = some ' '
    breakSpace := anyPair (fun a b _ => isBreak a && b = ' ') s
    spaceBreak := anyPair (fun a b _ => a = ' ' && isBreak b) s }

namespace Shape

def plainAllowed (s : Shape) : Bool :=
  !s.ragged && !s.special && !s.breaks && !s.indicators && !s.spaceBreak && !s.breakSpace

def quotedAllowed (s : Shape) : Bool := !s.breakSpace && !s.spaceBreak && !s.special

def literalAllowed (s : Shape) : Bool := !s.trailingSpace && !s.spaceBreak && !s.special

end Shape

/-- Whether a plain scalar with this text would be something other than the text, or look
like a number. -/
def misread (s : String) : Bool :=
  Plain.leadingZero s.toList || Plain.meaning s ≠ .text

inductive TextStyle where
  | plain
  | single
  | double
  | literal
  deriving DecidableEq

def style (s : String) : TextStyle :=
  let sh := shape s.toList
  if s.toList.contains '\n' then if sh.literalAllowed then .literal else .double
  else if sh.plainAllowed && !misread s then .plain
  else if sh.quotedAllowed then .single
  else .double

def hexDigit (n : Nat) : Char := (Nat.digitChar n).toUpper

/-- A number in hexadecimal capitals, with leading zeros up to a width. -/
def hexPadded (width n : Nat) : List Char :=
  (List.range width).reverse.map fun i => hexDigit (n / Nat.pow 16 i % 16)

/-- How a character is written in double quotes. -/
def escape (c : Char) : List Char :=
  let named (e : Char) : List Char := ['\\', e]
  if c = '"' ∨ c = '\\' then named c
  else if isPrintable c ∧ !isBreak c then [c]
  else if c = '\x00' then named '0'
  else if c = '\x07' then named 'a'
  else if c = '\x08' then named 'b'
  else if c = '\t' then named 't'
  else if c = '\n' then named 'n'
  else if c = '\x0b' then named 'v'
  else if c = '\x0c' then named 'f'
  else if c = '\r' then named 'r'
  else if c = '\x1b' then named 'e'
  else if c = '\u0085' then named 'N'
  else if c = '\u00a0' then named '_'
  else if c = '\u2028' then named 'L'
  else if c = '\u2029' then named 'P'
  else if c.toNat ≤ 0xff then '\\' :: 'x' :: hexPadded 2 c.toNat
  else if c.toNat ≤ 0xffff then '\\' :: 'u' :: hexPadded 4 c.toNat
  else '\\' :: 'U' :: hexPadded 8 c.toNat

def doubleQuoted (s : List Char) : List Char := '"' :: s.flatMap escape ++ ['"']

def spaces (n : Nat) : List Char := List.replicate n ' '

/-- The text between single quotes. A line feed is doubled, and the line after a break is
indented. -/
def singleBody (indent : Nat) (broken : Bool) : List Char → List Char
  | [] => if broken then spaces indent else []
  | c :: rest =>
    if isBreak c then
      (if !broken && c = '\n' then ['\n'] else []) ++ c :: singleBody indent true rest
    else
      (if broken then spaces indent else []) ++ (if c = '\'' then ['\'', '\''] else [c]) ++
        singleBody indent false rest

def singleQuoted (indent : Nat) (s : List Char) : List Char :=
  '\'' :: singleBody indent false s ++ ['\'']

/-- What follows the bar of a literal block: its indentation if the first line begins with
blanks or is empty, and what becomes of the line breaks at its end. -/
def literalHeader (s : List Char) : List Char :=
  let lead := match s with
    | c :: _ => if c = ' ' ∨ isBreak c then ['2'] else []
    | [] => []
  let ending := match s.reverse with
    | [] => ['-']
    | [c] => if isBreak c then ['+'] else ['-']
    | c :: d :: _ => if !isBreak c then ['-'] else if isBreak d then ['+'] else []
  lead ++ ending

/-- The lines of a literal block, each one indented unless it is empty. -/
def literalBody (indent : Nat) (broken : Bool) : List Char → List Char
  | [] => []
  | c :: rest =>
    if isBreak c then c :: literalBody indent true rest
    else (if broken then spaces indent else []) ++ c :: literalBody indent false rest

def literal (indent : Nat) (s : List Char) : List Char :=
  '|' :: literalHeader s ++ '\n' :: literalBody indent true s

/-- A text at an indentation. -/
def scalar (indent : Nat) (s : String) : List Char :=
  match style s with
  | .plain => s.toList
  | .single => singleQuoted indent s.toList
  | .double => doubleQuoted s.toList
  | .literal => literal indent s.toList

/-- Doubles have no sign before an exponent that is not negative. -/
def doubleLayout : Decimal.Layout := { plus := "" }

def number : Json.Number → String
  | .int (.ofNat n) => Decimal.digitsOf n
  | .int (.negSucc n) => "-" ++ Decimal.digitsOf (n + 1)
  | .double x => doubleLayout.text x

/-- Whether a key can stand before its colon on one line. -/
def isSimpleKey (s : String) : Bool := s.utf8ByteSize ≤ 128 && !s.toList.any isBreak

/-- Ends a line that is not ended yet. -/
def endLine (s : List Char) : List Char := if s.getLast?.any isBreak then s else s ++ ['\n']

/-- A key and what is written behind its colon; a key that is long or has lines goes behind
a question mark. -/
def member (indent : Nat) (key : String) (written : List Char) : List Char :=
  if isSimpleKey key then scalar indent key ++ ':' :: written
  else endLine ('?' :: ' ' :: scalar (indent + 2) key) ++ spaces indent ++ ':' :: written

mutual

/-- A value behind a mark, from the space after that to the end of the last line. `indent`
is the indentation of the surrounding collection. Behind a dash or a question mark's colon
(`inline`) a collection begins on the line of the mark. -/
def value (indent : Nat) (inline : Bool) : Json → List Char
  | .null => " null\n".toList
  | .bool true => " true\n".toList
  | .bool false => " false\n".toList
  | .num n => ' ' :: (number n).toList ++ ['\n']
  | .str s => endLine (' ' :: scalar (indent + 2) s)
  | .arr [] => " []\n".toList
  | .obj [] => " \x7b\x7d\n".toList
  | .arr (item :: rest) =>
    if inline then ' ' :: '-' :: value (indent + 2) true item ++ items (indent + 2) rest
    else '\n' :: spaces indent ++ '-' :: value indent true item ++ items indent rest
  | .obj ((key, v) :: rest) =>
    let first := member (indent + 2) key (value (indent + 2) (!isSimpleKey key) v)
    (if inline then [' '] else '\n' :: spaces (indent + 2)) ++ first ++ members (indent + 2) rest
termination_by structural x => x

def items (indent : Nat) : List Json → List Char
  | [] => []
  | item :: rest => spaces indent ++ '-' :: value indent true item ++ items indent rest
termination_by structural x => x

def members (indent : Nat) : List (String × Json) → List Char
  | [] => []
  | (key, v) :: rest =>
    spaces indent ++ member indent key (value indent (!isSimpleKey key) v) ++ members indent rest
termination_by structural x => x

end

/-- The document of a structure. -/
def document (v : Json) : String :=
  match v with
  | .obj (m :: rest) => String.ofList (members 0 (m :: rest))
  | v => String.ofList ((value 0 false v).drop 1)

end Tributary.Yaml.Writer
