import Tributary.Yaml.Scalar

/-!
# From YAML text to tokens

Outside brackets, indentation opens and closes block collections. A word turns out to be a
key only at the colon behind it, so the place of each word that could be one is remembered:
it has to lie on the line of the colon, at most 1024 bytes before it, and at the
beginning of a block mapping's line it must turn out to be one.
-/

namespace Tributary.Yaml

/-- A place where a key may have begun: the number of tokens before it, and whether it has
to become a key. -/
structure KeyPlace where
  required : Bool
  number : Nat
  index : Nat
  line : Nat
  column : Nat
  deriving Inhabited

structure Lexer where
  cursor : Cursor
  /-- How many brackets are open. -/
  flow : Nat := 0
  /-- The column of the innermost block collection, -1 outside all of them. -/
  indent : Int := -1
  outer : List Int := []
  /-- Whether a key may begin here. -/
  allowed : Bool := true
  /-- The place of a possible key within each open bracket, the innermost first. -/
  places : List (Option KeyPlace) := [none]
  tokens : Array Token := #[]
  deriving Inhabited

namespace Lexer

def push (l : Lexer) (t : Token) : Lexer := { l with tokens := l.tokens.push t }

def insertAt (l : Lexer) (n : Nat) (t : Token) : Lexer :=
  { l with tokens := l.tokens.insertIdxIfInBounds n t }

def skip (l : Lexer) (n : Nat) : Lexer := { l with cursor := l.cursor.skipN n }

def allow (l : Lexer) (allowed : Bool) : Lexer := { l with allowed }

/-- Blanks, comments and line breaks between tokens; after a line break outside brackets a
key may begin. Tabs may not stand where a key may begin. -/
def skipGap : Nat → Lexer → Lexer
  | 0, l => l
  | fuel + 1, l =>
    let c := if l.cursor.column = 0 && l.cursor.at? '\ufeff' then l.cursor.skip else l.cursor
    let tabs := 0 < l.flow || !l.allowed
    let c := (c.skipWhile fun ch => ch = ' ' ∨ (tabs ∧ ch = '\t')).skipComment
    if c.breakAt 0 then
      skipGap fuel { l with cursor := c.skipBreak, allowed := l.allowed || l.flow = 0 }
    else { l with cursor := c }

/-- Whether a place is too far behind for a key. -/
def stale (c : Cursor) (p : KeyPlace) : Bool := p.line < c.line || p.index + 1024 < c.index

/-- Forgets the places that are too far behind; one of a required key is an error. -/
def dropStale (l : Lexer) : Option Lexer := do
  let places ← l.places.mapM fun place =>
    match place with
    | some p => if stale l.cursor p then (if p.required then none else some none) else some (some p)
    | none => some none
  return { l with places }

/-- Forgets the innermost place; one of a required key is an error. -/
def dropPlace (l : Lexer) : Option Lexer :=
  match l.places with
  | some p :: rest => if p.required then none else some { l with places := none :: rest }
  | _ => some l

/-- Remembers that a key may begin here. -/
def savePlace (l : Lexer) : Option Lexer :=
  if l.allowed then do
    let l ← l.dropPlace
    let c := l.cursor
    let required := l.flow = 0 ∧ l.indent = c.column
    let place : KeyPlace := ⟨required, l.tokens.size, c.index, c.line, c.column⟩
    return { l with places := some place :: l.places.drop 1 }
  else some l

/-- Opens a block collection at a column deeper than the innermost one, before the `number`-th
token. -/
def roll (l : Lexer) (column number : Nat) (t : Token) : Lexer :=
  if l.flow = 0 ∧ l.indent < column then
    { l with outer := l.indent :: l.outer, indent := column }.insertAt number t
  else l

/-- Closes the block collections deeper than a column. -/
def unroll (l : Lexer) (column : Int) : Lexer :=
  if 0 < l.flow then l
  else
    let closed := (l.indent :: l.outer).takeWhile (column < ·)
    let left := (l.indent :: l.outer).drop closed.length
    { l with
      indent := left.headD (-1)
      outer := left.drop 1
      tokens := l.tokens ++ Array.replicate closed.length Token.blockEnd }

def openFlow (l : Lexer) (t : Token) : Option Lexer := do
  let l ← l.savePlace
  return ({ l with flow := l.flow + 1, places := none :: l.places, allowed := true }.push t).skip 1

def closeFlow (l : Lexer) (t : Token) : Option Lexer := do
  let l ← l.dropPlace
  let l := if 0 < l.flow then { l with flow := l.flow - 1, places := l.places.drop 1 } else l
  return ((l.allow false).push t).skip 1

/-- A comma between entries. -/
def separate (l : Lexer) : Option Lexer := do
  let l ← l.dropPlace
  return ((l.allow true).push .flowEntry).skip 1

/-- The indicator of an entry of a block sequence. -/
def entry (l : Lexer) : Option Lexer := do
  let l ← if l.flow = 0 then
      if l.allowed then some (l.roll l.cursor.column l.tokens.size .blockSequence) else none
    else some l
  let l ← l.dropPlace
  return ((l.allow true).push .blockEntry).skip 1

/-- The indicator of a key that is not told by its colon. -/
def explicitKey (l : Lexer) : Option Lexer := do
  let l ← if l.flow = 0 then
      if l.allowed then some (l.roll l.cursor.column l.tokens.size .blockMapping) else none
    else some l
  let l ← l.dropPlace
  return ((l.allow (l.flow = 0)).push .key).skip 1

/-- The colon before a value: what was remembered before it becomes a key. -/
def value (l : Lexer) : Option Lexer :=
  match l.places with
  | some p :: rest =>
    let l := (l.insertAt p.number .key).roll p.column p.number .blockMapping
    some (({ l with places := none :: rest, allowed := false }.push .value).skip 1)
  | _ => do
    let l ← if l.flow = 0 then
        if l.allowed then some (l.roll l.cursor.column l.tokens.size .blockMapping) else none
      else some l
    return ((l.allow (l.flow = 0)).push .value).skip 1

/-- The name of an anchor or alias, and a character that may follow it. -/
def named (l : Lexer) (make : String → Token) : Option Lexer := do
  let l ← l.savePlace
  let (name, c) := l.cursor.skip.readWhile isWordChar
  let ends := c.gapAt 0 || c.check 0 false fun ch =>
    ch = '?' ∨ ch = ':' ∨ ch = ',' ∨ ch = ']' ∨ ch = '}' ∨ ch = '%' ∨ ch = '@' ∨ ch = '`'
  if name = [] || !ends then none
  else return ({ l with cursor := c, allowed := false }.push (make (String.ofList name)))

/-- The characters of tags; brackets and commas only in one written out in full. -/
def isTagChar (full : Bool) (c : Char) : Bool :=
  isWordChar c ∨ (full ∧ c ∈ [',', '[', ']']) ∨
    c ∈ [';', '/', '?', ':', '@', '&', '=', '+', '$', '.', '!', '~', '*', '\'', '(', ')']

/-- The byte of a percent escape. -/
def octet? : List Char → Option UInt8
  | '%' :: a :: b :: _ => do return ((← hexDigit? a) * 16 + (← hexDigit? b)).toUInt8
  | _ => none

/-- How many bytes the UTF-8 form of a character takes, by its first byte. -/
def utf8Width (b : UInt8) : Nat :=
  if b < 0x80 then 1 else if b < 0xc0 then 0 else if b < 0xe0 then 2
  else if b < 0xf0 then 3 else if b < 0xf8 then 4 else 0

/-- A byte that continues a character. -/
def continuation? (s : List Char) : Option UInt8 :=
  (octet? s).filter fun b => 0x80 ≤ b ∧ b < 0xc0

/-- The bytes that are percent-escaped here: as many as the first one asks for. -/
def percent? (s : List Char) : Option (List UInt8) := do
  let first ← octet? s
  let width := utf8Width first
  if width = 0 then none
  let rest ← (List.range (width - 1)).mapM fun i => continuation? (s.drop (3 * (i + 1)))
  return first :: rest

/-- The bytes of a tag, the last one first, after those that have been read. -/
def tagBytes (full : Bool) : Nat → Cursor → List UInt8 → Option (List UInt8 × Cursor)
  | 0, c, bytes => some (bytes, c)
  | fuel + 1, c, bytes =>
    match c.rest with
    | [] => some (bytes, c)
    | ch :: _ =>
      if ch = '%' then
        (percent? c.rest).bind fun p =>
          tagBytes full fuel (c.skipN (3 * p.length)) (p.reverse ++ bytes)
      else if isTagChar full ch then tagBytes full fuel c.skip (ch.toUInt8 :: bytes)
      else some (bytes, c)

/-- A part of a tag behind `start`, up to a zero byte, and the place after it. Something has
to be written if `start` is empty. -/
def tagPart? (full : Bool) (start : List Char) (fuel : Nat) (c : Cursor) :
    Option (Tag × Cursor) := do
  let (bytes, next) ← tagBytes full fuel c []
  if start = [] ∧ next.index = c.index then none
  let bytes := (start.drop 1).map Char.toUInt8 ++ bytes.reverse
  return (⟨bytes.takeWhile (· ≠ 0)⟩, next)

/-- A handle: an exclamation mark, or two around a word. -/
def tagHandle? (c : Cursor) : Option (List Char × Cursor) :=
  if c.at? '!' then
    let (word, c) := c.skip.readWhile isWordChar
    if c.at? '!' then some ('!' :: word ++ ['!'], c.skip) else some ('!' :: word, c)
  else none

/-- A tag: in full between angle brackets, with a handle, or with the primary handle. -/
def tagParts? (fuel : Nat) (c : Cursor) : Option (String × Tag × Cursor) :=
  if c.check 1 false (· = '<') then do
    let (suffix, c) ← tagPart? true [] fuel (c.skipN 2)
    if !c.at? '>' then none else some ("", suffix, c.skip)
  else do
    let (handle, c) ← tagHandle? c
    if 1 < handle.length ∧ handle.getLast? = some '!' then
      let (suffix, c) ← tagPart? false [] fuel c
      return (String.ofList handle, suffix, c)
    else
      let (suffix, c) ← tagPart? false handle fuel c
      return if suffix.bytes = [] then ("", .ofText "!", c) else ("!", suffix, c)

def tag (l : Lexer) (fuel : Nat) : Option Lexer := do
  let l ← l.savePlace
  let (handle, suffix, c) ← tagParts? fuel l.cursor
  if c.gapAt 0 || (0 < l.flow && c.at? ',') then
    return ({ l with cursor := c, allowed := false }.push
      (.tag handle suffix))
  else none

def number? (c : Cursor) : Option (Nat × Cursor) :=
  let (ds, c) := c.readWhile Char.isDigit
  if ds = [] ∨ 9 < ds.length then none
  else some (ds.foldl (fun n d => n * 10 + (d.toNat - '0'.toNat)) 0, c)

/-- The version of a directive. -/
def versionDirective? (c : Cursor) : Option (Token × Cursor) := do
  let (major, c) ← number? (c.skipWhile isSpaceOrTab)
  if !c.at? '.' then none
  let (minor, c) ← number? c.skip
  return (.version major minor, c)

/-- The handle of a directive and what it stands for. -/
def tagDirective? (fuel : Nat) (c : Cursor) : Option (Token × Cursor) := do
  let (handle, c) ← tagHandle? (c.skipWhile isSpaceOrTab)
  if handle ≠ ['!'] ∧ handle.getLast? ≠ some '!' then none
  if !c.blankAt 0 then none
  let (start, c) ← tagPart? true [] fuel (c.skipWhile isSpaceOrTab)
  if !c.gapAt 0 then none
  return (.tagHandle (String.ofList handle) start, c)

def directive (l : Lexer) (fuel : Nat) : Option Lexer := do
  let l ← (l.unroll (-1)).dropPlace
  let (name, c) := l.cursor.skip.readWhile isWordChar
  if !c.gapAt 0 then none
  let (t, c) ← match String.ofList name with
    | "YAML" => versionDirective? c
    | "TAG" => tagDirective? fuel c
    | _ => none
  let c := (c.skipWhile isSpaceOrTab).skipComment
  if c.lineEndAt 0 then
    return ({ l with cursor := c.skipBreak, allowed := false }.push t)
  else none

def documentMark (l : Lexer) (t : Token) : Option Lexer := do
  let l ← (l.unroll (-1)).dropPlace
  return ((l.allow false).push t).skip 3

def blockScalar (l : Lexer) (literal : Bool) (fuel : Nat) : Option Lexer := do
  let l ← l.dropPlace
  let (text, c) ← readBlock literal l.indent fuel l.cursor.skip
  return ({ l with cursor := c, allowed := true }.push
    (.scalar (if literal then .literal else .folded) (String.ofList text)))

def quotedScalar (l : Lexer) (single : Bool) (fuel : Nat) : Option Lexer := do
  let l ← l.savePlace
  let (text, c) ← readQuoted single fuel l.cursor.skip []
  return ({ l with cursor := c, allowed := false }.push
    (.scalar (if single then .singleQuoted else .doubleQuoted) (String.ofList text)))

def plainScalar (l : Lexer) (fuel : Nat) : Option Lexer := do
  let l ← l.savePlace
  let r ← readPlain (0 < l.flow) (l.indent + 1).toNat fuel l.cursor {} []
  return ({ l with cursor := r.next, allowed := r.brokeLine }.push
    (.scalar .plain (String.ofList r.text)))

/-- The characters that begin something else than a plain scalar. -/
def isIndicator (c : Char) : Bool :=
  c ∈ ['-', '?', ':', ',', '[', ']', '{', '}', '#', '&', '*', '!', '|', '>', '\'', '"', '%', '@',
    '`']

/-- Whether a plain scalar begins here. -/
def plainStarts (l : Lexer) (ch : Char) : Bool :=
  let c := l.cursor
  !(c.gapAt 0 || isIndicator ch) || (ch = '-' && !c.blankAt 1) ||
    (l.flow = 0 && (ch = '?' || ch = ':') && !c.gapAt 1)

/-- The token that begins here with a character. -/
def next (l : Lexer) (fuel : Nat) (ch : Char) : Option Lexer :=
  let c := l.cursor
  if c.column = 0 && ch = '%' then l.directive fuel
  else if c.atMark Cursor.documentStart then l.documentMark .documentStart
  else if c.atMark Cursor.documentEnd then l.documentMark .documentEnd
  else if ch = '[' then l.openFlow .openSequence
  else if ch = '{' then l.openFlow .openMapping
  else if ch = ']' then l.closeFlow .closeSequence
  else if ch = '}' then l.closeFlow .closeMapping
  else if ch = ',' then l.separate
  else if ch = '-' && c.gapAt 1 then l.entry
  else if ch = '?' && (0 < l.flow || c.gapAt 1) then l.explicitKey
  else if ch = ':' && (0 < l.flow || c.gapAt 1) then l.value
  else if ch = '*' then l.named .alias
  else if ch = '&' then l.named .anchor
  else if ch = '!' then l.tag fuel
  else if ch = '|' && l.flow = 0 then l.blockScalar true fuel
  else if ch = '>' && l.flow = 0 then l.blockScalar false fuel
  else if ch = '\'' then l.quotedScalar true fuel
  else if ch = '"' then l.quotedScalar false fuel
  else if l.plainStarts ch then l.plainScalar fuel
  else none

/-- Reads token after token; every one takes at least one character, so that what is left to
count down stays above the number of characters that are left. -/
def run : Nat → Lexer → Option (Array Token)
  | 0, _ => none
  | fuel + 1, l => do
    let l ← (skipGap fuel l).dropStale
    let l := l.unroll l.cursor.column
    match l.cursor.rest with
    | [] =>
      let l ← (l.unroll (-1)).dropPlace
      return l.tokens
    | ch :: _ => run fuel (← l.next fuel ch)

end Lexer

/-- The tokens of a text that holds no control characters. -/
def tokens? (text : List Char) : Option (List Token) :=
  if text.all isAllowed then
    (Lexer.run (text.length + 3) { cursor := { rest := text } }).map Array.toList
  else none

end Tributary.Yaml
