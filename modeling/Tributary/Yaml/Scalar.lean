import Tributary.Yaml.Cursor
import Tributary.Yaml.Token

/-!
# Scalars of YAML texts

Line breaks inside a plain, quoted or folded scalar are folded: a single one stands for a
space and of several the first is dropped. Each reader takes the place where its scalar
begins and gives its text and the place behind it, or nothing if the scalar is broken. The
readers count down from a number above that of the characters which are left, and hold what
they have read so far in reverse.
-/

namespace Tributary.Yaml

/-- Blanks and line breaks that have been read but not yet decided on. -/
structure Gap where
  /-- Blanks before any line break, the last one first. -/
  blanks : List Char := []
  /-- The first line break, once there is one. -/
  first : Option (List Char) := none
  /-- The line breaks after the first one, the last one first. -/
  more : List Char := []

/-- What a gap stands for between two words, in reverse. -/
def Gap.fold (g : Gap) : List Char :=
  match g.first with
  | none => g.blanks
  | some ['\n'] => if g.more = [] then [' '] else g.more
  | some ch => g.more ++ ch.reverse

def Gap.addBreak (g : Gap) (ch : List Char) : Gap :=
  match g.first with
  | none => { g with blanks := [], first := some ch }
  | some _ => { g with more := ch.reverse ++ g.more }

/-- Over all blanks and line breaks. With `indent`, a tab in the indentation of a
continuation line is refused. -/
def readGap (indent : Nat) : Nat → Cursor → Gap → Option (Gap × Cursor)
  | 0, c, g => some (g, c)
  | fuel + 1, c, g =>
    if c.blankAt 0 then
      if g.first.isSome ∧ c.column < indent ∧ c.at? '\t' then none
      else
        let g := match g.first, c.rest.head? with
          | none, some ch => { g with blanks := ch :: g.blanks }
          | _, _ => g
        readGap indent fuel c.skip g
    else if c.breakAt 0 then
      let (ch, c) := c.readBreak
      readGap indent fuel c (g.addBreak ch)
    else some (g, c)

/-! ## Plain scalars -/

/-- Whether a plain scalar ends here: at `: `, and within brackets at a comma or a bracket. -/
def plainEnds (flow : Bool) (c : Cursor) : Bool :=
  (c.at? ':' && c.gapAt 1) ||
    (flow && c.check 0 false fun ch => ch = ',' ∨ ch = '[' ∨ ch = ']' ∨ ch = '{' ∨ ch = '}')

/-- Within brackets a colon may not stand before a comma, a question mark or a bracket. -/
def straysColon (flow : Bool) (c : Cursor) : Bool :=
  flow && c.at? ':' &&
    c.check 1 false fun ch =>
      ch = ',' ∨ ch = '?' ∨ ch = '[' ∨ ch = ']' ∨ ch = '{' ∨ ch = '}'

/-- The characters of a plain scalar up to the next gap or its end, in reverse, and whether
it ended. -/
def plainWord (flow : Bool) : Nat → Cursor → List Char → Option (List Char × Cursor × Bool)
  | 0, c, word => some (word, c, true)
  | fuel + 1, c, word =>
    if c.gapAt 0 then some (word, c, false)
    else if straysColon flow c then none
    else if plainEnds flow c then some (word, c, true)
    else match c.rest with
      | [] => some (word, c, true)
      | ch :: _ => plainWord flow fuel c.skip (ch :: word)

structure PlainResult where
  text : List Char
  next : Cursor
  /-- Whether a line break was read behind the last word. -/
  brokeLine : Bool

/-- A plain scalar; outside brackets it goes on only on lines indented by at least
`indent`. -/
def readPlain (flow : Bool) (indent : Nat) :
    Nat → Cursor → Gap → List Char → Option PlainResult
  | 0, c, g, text => some ⟨text.reverse, c, g.first.isSome⟩
  | fuel + 1, c, g, text =>
    if c.atDocumentMark || c.at? '#' then some ⟨text.reverse, c, g.first.isSome⟩
    else do
      let (word, c, ended) ← plainWord flow fuel c []
      let (text, g) := if word = [] then (text, g) else (word ++ g.fold ++ text, {})
      if ended || !(c.blankAt 0 || c.breakAt 0) then
        return ⟨text.reverse, c, g.first.isSome⟩
      let (g, c) ← readGap indent fuel c g
      if !flow && c.column < indent then return ⟨text.reverse, c, g.first.isSome⟩
      readPlain flow indent fuel c g text

/-! ## Quoted scalars -/

def hexDigit? (c : Char) : Option Nat :=
  if c.isDigit then some (c.toNat - '0'.toNat)
  else if 'a' ≤ c ∧ c ≤ 'f' then some (c.toNat - 'a'.toNat + 10)
  else if 'A' ≤ c ∧ c ≤ 'F' then some (c.toNat - 'A'.toNat + 10)
  else none

/-- The character whose code is written with so many hexadecimal digits. -/
def codePoint? (digits : Nat) (s : List Char) : Option Char := do
  let ds ← (s.take digits).mapM hexDigit?
  if ds.length < digits then none
  let n := ds.foldl (fun n d => n * 16 + d) 0
  if n.isValidChar then some (Char.ofNat n) else none

def namedEscape? : Char → Option Char
  | '0' => some '\x00'
  | 'a' => some '\x07'
  | 'b' => some '\x08'
  | 't' => some '\t'
  | '\t' => some '\t'
  | 'n' => some '\n'
  | 'v' => some '\x0b'
  | 'f' => some '\x0c'
  | 'r' => some '\r'
  | 'e' => some '\x1b'
  | ' ' => some ' '
  | '"' => some '"'
  | '/' => some '/'
  | '\\' => some '\\'
  | 'N' => some '\u0085'
  | '_' => some '\u00a0'
  | 'L' => some '\u2028'
  | 'P' => some '\u2029'
  | _ => none

/-- The escape at a backslash and how many characters it takes. -/
def escape? : List Char → Option (Char × Nat)
  | _ :: 'x' :: rest => (codePoint? 2 rest).map (·, 4)
  | _ :: 'u' :: rest => (codePoint? 4 rest).map (·, 6)
  | _ :: 'U' :: rest => (codePoint? 8 rest).map (·, 10)
  | _ :: e :: _ => (namedEscape? e).map (·, 2)
  | _ => none

/-- Adds the characters of a quoted scalar up to a gap or the closing quote to what has been
read. An escaped line break counts as a gap without a break. -/
def quotedWord (single : Bool) : Nat → Cursor → List Char → Option (List Char × Cursor × Bool)
  | 0, c, text => some (text, c, false)
  | fuel + 1, c, text =>
    if c.gapAt 0 then some (text, c, false)
    else if single && c.starts ['\'', '\''] then
      quotedWord single fuel (c.skipN 2) ('\'' :: text)
    else if c.at? (if single then '\'' else '"') then some (text, c, false)
    else if !single && c.at? '\\' && c.breakAt 1 then some (text, c.skip.skipBreak, true)
    else if !single && c.at? '\\' then
      (escape? c.rest).bind fun (ch, n) => quotedWord single fuel (c.skipN n) (ch :: text)
    else match c.rest with
      | [] => none
      | ch :: _ => quotedWord single fuel c.skip (ch :: text)

/-- The rest of a quoted scalar, behind its opening quote. -/
def readQuoted (single : Bool) : Nat → Cursor → List Char → Option (List Char × Cursor)
  | 0, _, _ => none
  | fuel + 1, c, text =>
    if c.atDocumentMark || c.atEnd then none
    else do
      let (text, c, escaped) ← quotedWord single fuel c text
      if !escaped && c.at? (if single then '\'' else '"') then return (text.reverse, c.skip)
      let start : Gap := if escaped then { first := some [] } else {}
      let (g, c) ← readGap 0 fuel c start
      readQuoted single fuel c (g.fold ++ text)

/-! ## Block scalars -/

/-- What follows the indicator of a block scalar: whether all (`some true`), none
(`some false`) or one of the last line breaks stay, and the indentation, if it is given. -/
structure BlockHeader where
  keep : Option Bool := none
  increment : Option Nat := none

def chomping? (c : Cursor) : Option Bool :=
  if c.at? '+' then some true else if c.at? '-' then some false else none

/-- An indentation of one digit; zero is refused. -/
def increment? (c : Cursor) : Option (Option Nat × Cursor) :=
  match c.rest with
  | ch :: _ =>
    if ch = '0' then none
    else if ch.isDigit then some (some (ch.toNat - '0'.toNat), c.skip)
    else some (none, c)
  | [] => some (none, c)

def blockHeader? (c : Cursor) : Option (BlockHeader × Cursor) := do
  let (h, c) ← match chomping? c with
    | some keep => do
      let (increment, c) ← increment? c.skip
      pure (BlockHeader.mk (some keep) increment, c)
    | none => do
      let (increment, c) ← increment? c
      match increment, chomping? c with
      | some _, some keep => pure (BlockHeader.mk (some keep) increment, c.skip)
      | _, _ => pure (BlockHeader.mk none increment, c)
  let c := (c.skipWhile isSpaceOrTab).skipComment
  if c.lineEndAt 0 then some (h, c.skipBreak) else none

/-- Over indentation and empty lines. Without a given indentation all leading spaces are
taken, and the deepest line says what the indentation is. -/
def blockBreaks (indent : Option Nat) :
    Nat → Cursor → List Char → Nat → Option (List Char × Nat × Cursor)
  | 0, c, breaks, deepest => some (breaks.reverse, deepest, c)
  | fuel + 1, c, breaks, deepest =>
    let spaces := (c.rest.takeWhile (· = ' ')).length
    let n := match indent with
      | none => spaces
      | some i => min spaces (i - c.column)
    let c := c.skipN n
    let deepest := max deepest c.column
    let inside := match indent with
      | none => true
      | some i => c.column < i
    if inside && c.at? '\t' then none
    else if c.breakAt 0 then
      let (ch, c) := c.readBreak
      blockBreaks indent fuel c (ch.reverse ++ breaks) deepest
    else some (breaks.reverse, deepest, c)

/-- The lines of a block scalar, `breaks` being the empty lines before the next one and
`last` the break of the line before. -/
def blockLines (literal : Bool) (indent : Nat) :
    Nat → Cursor → List Char → List Char → List Char → Bool →
      Option (List Char × List Char × List Char × Cursor)
  | 0, c, text, last, breaks, _ => some (text.reverse, last, breaks, c)
  | fuel + 1, c, text, last, breaks, blankBefore =>
    if c.column ≠ indent || c.atEnd then some (text.reverse, last, breaks, c)
    else do
      let blank := c.blankAt 0
      let joint :=
        if !literal && last.head? = some '\n' && !blankBefore && !blank then
          if breaks = [] then [' '] else []
        else last
      let (line, c) := c.readWhile fun ch => !isBreak ch
      let (last, c) := c.readBreak
      let (next, _, c) ← blockBreaks (some indent) fuel c [] 0
      let text := (joint ++ breaks ++ line).reverse ++ text
      blockLines literal indent fuel c text last next blank

/-- A block scalar behind its indicator, `parent` being the indentation it has to exceed. -/
def readBlock (literal : Bool) (parent : Int) (fuel : Nat) (c : Cursor) :
    Option (List Char × Cursor) := do
  let (header, c) ← blockHeader? c
  let given := header.increment.map fun n => (max parent 0).toNat + n
  let (breaks, deepest, c) ← blockBreaks given fuel c [] 0
  let indent := given.getD (max deepest (max (parent + 1) 1).toNat)
  let (text, last, breaks, c) ← blockLines literal indent fuel c [] [] breaks false
  let text := if header.keep = some false then text else text ++ last
  return (if header.keep = some true then text ++ breaks else text, c)

end Tributary.Yaml
