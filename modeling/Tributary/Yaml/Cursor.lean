/-!
# Reading positions in YAML texts

A cursor is what is left of a text and where that begins. The index counts bytes; columns
count characters since the last line break, which is CR LF, CR, LF, NEL, or a line or
paragraph separator.
-/

namespace Tributary.Yaml

def isBreak (c : Char) : Bool :=
  c = '\n' ∨ c = '\r' ∨ c = '\u0085' ∨ c = '\u2028' ∨ c = '\u2029'

def isSpaceOrTab (c : Char) : Bool := c = ' ' ∨ c = '\t'

/-- The characters of anchors and of directive names. -/
def isWordChar (c : Char) : Bool := c.isAlphanum ∨ c = '_' ∨ c = '-'

/-- The characters that a text may hold at all. -/
def isAllowed (c : Char) : Bool :=
  let n := c.toNat
  n = 0x09 ∨ n = 0x0a ∨ n = 0x0d ∨ (0x20 ≤ n ∧ n ≤ 0x7e) ∨ n = 0x85 ∨
    (0xa0 ≤ n ∧ n ≤ 0xd7ff) ∨ (0xe000 ≤ n ∧ n ≤ 0xfffd) ∨ 0x10000 ≤ n

/-- The number of bytes of characters. -/
def byteCount (s : List Char) : Nat := s.foldl (fun n c => n + c.utf8Size) 0

structure Cursor where
  rest : List Char
  index : Nat := 0
  line : Nat := 0
  column : Nat := 0
  deriving Inhabited

namespace Cursor

def peek? (c : Cursor) (n : Nat) : Option Char := c.rest[n]?

/-- Whether a character stands here. -/
def at? (c : Cursor) (ch : Char) : Bool := c.rest.head? = some ch

def starts (c : Cursor) (phrase : List Char) : Bool := phrase.isPrefixOf c.rest

/-- Whether the `n`-th character from here meets `p`; what lies beyond the end meets `atEnd`. -/
def check (c : Cursor) (n : Nat) (atEnd : Bool) (p : Char → Bool) : Bool :=
  match c.peek? n with
  | none => atEnd
  | some ch => p ch

def blankAt (c : Cursor) (n : Nat) : Bool := c.check n false isSpaceOrTab

def breakAt (c : Cursor) (n : Nat) : Bool := c.check n false isBreak

def atEnd (c : Cursor) : Bool := c.rest.isEmpty

/-- A line break or the end. -/
def lineEndAt (c : Cursor) (n : Nat) : Bool := c.check n true isBreak

/-- A blank, a line break or the end. -/
def gapAt (c : Cursor) (n : Nat) : Bool :=
  c.check n true fun ch => isSpaceOrTab ch ∨ isBreak ch

/-- Over so many characters of a line. -/
def skipN (n : Nat) (c : Cursor) : Cursor :=
  { c with
    rest := c.rest.drop n
    index := c.index + byteCount (c.rest.take n)
    column := c.column + n }

/-- Over one character of a line. -/
def skip (c : Cursor) : Cursor := c.skipN 1

/-- Over a line break, with the text it stands for: a line feed, or the separator itself. -/
def readBreak (c : Cursor) : List Char × Cursor :=
  let past (n : Nat) : Cursor := { c.skipN n with line := c.line + 1, column := 0 }
  match c.rest with
  | '\r' :: '\n' :: _ => (['\n'], past 2)
  | ch :: _ =>
    if ch = '\r' ∨ ch = '\n' ∨ ch = '\u0085' then (['\n'], past 1)
    else if isBreak ch then ([ch], past 1)
    else ([], c)
  | [] => ([], c)

def skipBreak (c : Cursor) : Cursor := c.readBreak.2

/-- The characters of the line that meet `p`, and the place after them. -/
def readWhile (c : Cursor) (p : Char → Bool) : List Char × Cursor :=
  let word := c.rest.takeWhile p
  (word, c.skipN word.length)

def skipWhile (c : Cursor) (p : Char → Bool) : Cursor := (c.readWhile p).2

/-- Over a comment, if there is one. -/
def skipComment (c : Cursor) : Cursor :=
  if c.at? '#' then c.skipWhile fun ch => !isBreak ch else c

/-- A line that begins with three of a character and then a gap. -/
def atMark (c : Cursor) (phrase : List Char) : Bool :=
  c.column = 0 && c.starts phrase && c.gapAt 3

def documentStart : List Char := ['-', '-', '-']

def documentEnd : List Char := ['.', '.', '.']

def atDocumentMark (c : Cursor) : Bool := c.atMark documentStart || c.atMark documentEnd

end Cursor

end Tributary.Yaml
