import Tributary.Yaml.Lexer

/-!
# From tokens to nodes

A text holds one document, whose content is a node. An anchor has a number: how many other
names, and its own if it is not new, have been anchors before. So a name that is used again
takes the number that the next new name takes too. An alias has the number of its name, and
it stands for the last node in the document whose anchor has that number. The descent counts
down from a multiple of the number of tokens, which no path through them can exceed.
-/

namespace Tributary.Yaml

inductive Node where
  | scalar (tag : Option Tag) (style : Style) (text : String)
  | sequence (tag : Option Tag) (items : List Node)
  | mapping (tag : Option Tag) (entries : List (Node × Node))
  | alias (number : Nat)
  deriving Inhabited

/-- The content of a document and what the numbers of its aliases stand for. -/
structure Document where
  root : Node
  targets : Array Node
  deriving Inhabited

namespace Node

/-- Where nothing is written. -/
def blank : Node := .scalar none .plain ""

/-- Tokens still to be read, and what is known of tag handles and anchors so far. -/
structure State where
  tokens : List Token
  handles : List (String × Tag) := []
  /-- The numbers of the names of anchors. -/
  numbers : List (String × Nat) := []
  /-- The numbers of the anchors, the latest first. -/
  anchors : List Nat := []
  /-- The nodes that have been read, each with how many anchors came before its own. -/
  anchored : List (Nat × Node) := []
  deriving Inhabited

namespace State

def drop (s : State) : State := { s with tokens := s.tokens.drop 1 }

/-- Gives a number to the anchor of a node that begins. -/
def begin (s : State) (anchor : Option String) : State :=
  match anchor with
  | none => s
  | some name =>
    let number := s.numbers.length
    { s with
      numbers := (name, number) :: s.numbers.filter (·.1 ≠ name)
      anchors := number :: s.anchors }

/-- Keeps a node that has an anchor, `before` being how many came before it. -/
def keep (s : State) (anchor : Option String) (before : Nat) (n : Node) : State :=
  match anchor with
  | none => s
  | some _ => { s with anchored := (before, n) :: s.anchored }

/-- The node of every number: the last one that has it. -/
def targets (s : State) : Array Node :=
  let place (nodes : Array Node) (i : Nat) (n : Node) := nodes.setIfInBounds i n
  let nodes := s.anchored.foldl (fun nodes p => place nodes p.1 p.2)
    (Array.replicate s.anchors.length blank)
  (s.anchors.reverse.zip nodes.toList).foldl (fun nodes p => place nodes p.1 p.2)
    (Array.replicate (s.numbers.length + 1) blank)

/-- The tag of a handle and a suffix. -/
def resolve (s : State) (handle : String) (suffix : Tag) : Option Tag :=
  if handle = "" then some suffix
  else ((s.handles ++ Tag.handles).lookup handle).map (·.append suffix)

/-- The anchor and the tag before a node, in either order. -/
def properties (s : State) : Option (Option String × Option Tag × State) :=
  match s.tokens with
  | .anchor name :: .tag h x :: rest =>
    (s.resolve h x).map fun t => (some name, some t, { s with tokens := rest })
  | .tag h x :: .anchor name :: rest =>
    (s.resolve h x).map fun t => (some name, some t, { s with tokens := rest })
  | .anchor name :: rest => some (some name, none, { s with tokens := rest })
  | .tag h x :: rest => (s.resolve h x).map fun t => (none, some t, { s with tokens := rest })
  | _ => some (none, none, s)

end State

/-- Whether the next token is one of those before which nothing is written. -/
def before (s : State) (stops : List Token) : Bool :=
  match s.tokens with
  | t :: _ => stops.contains t
  | [] => false

mutual

/-- A node; block collections only in block context, and a sequence without indentation of
its own only as the content of a mapping. -/
def read (fuel : Nat) (block indentless : Bool) (s : State) : Option (Node × State) :=
  match fuel with
  | 0 => none
  | fuel + 1 =>
    match s.tokens with
    | .alias name :: rest =>
      (s.numbers.lookup name).map fun n => (.alias n, { s with tokens := rest })
    | _ => do
      let (anchor, tag, s) ← s.properties
      let before := s.anchors.length
      let (n, s) ← content fuel block indentless anchor tag (s.begin anchor)
      return (n, s.keep anchor before n)

/-- What stands behind the anchor and the tag of a node. -/
def content (fuel : Nat) (block indentless : Bool) (anchor : Option String)
    (tag : Option Tag) (s : State) : Option (Node × State) :=
  match fuel with
  | 0 => none
  | fuel + 1 =>
    match s.tokens with
    | .scalar style text :: _ =>
      some (.scalar tag style text, s.drop)
    | .openSequence :: _ =>
      (flowItems fuel true s.drop).map fun (items, s) => (.sequence tag items, s)
    | .openMapping :: _ =>
      (flowPairs fuel true s.drop).map fun (pairs, s) => (.mapping tag pairs, s)
    | .blockEntry :: _ =>
      if indentless then
        (plainItems fuel s).map fun (items, s) => (.sequence tag items, s)
      else empty anchor tag s
    | .blockSequence :: _ =>
      if block then (blockItems fuel s.drop).map fun (items, s) => (.sequence tag items, s)
      else empty anchor tag s
    | .blockMapping :: _ =>
      if block then (blockPairs fuel s.drop).map fun (pairs, s) => (.mapping tag pairs, s)
      else empty anchor tag s
    | _ => empty anchor tag s

/-- Only an anchor or a tag may have nothing behind it. -/
def empty (anchor : Option String) (tag : Option Tag) (s : State) : Option (Node × State) :=
  if anchor.isSome ∨ tag.isSome then some (.scalar tag .plain "", s) else none

/-- A node, or nothing if the next token is one of `stops`. -/
def readUnless (fuel : Nat) (stops : List Token) (block indentless : Bool) (s : State) :
    Option (Node × State) :=
  match fuel with
  | 0 => none
  | fuel + 1 =>
    if before s stops then some (blank, s) else read fuel block indentless s

def blockItems (fuel : Nat) (s : State) : Option (List Node × State) :=
  match fuel with
  | 0 => none
  | fuel + 1 =>
    match s.tokens with
    | .blockEntry :: _ => do
      let (item, s) ← readUnless fuel [.blockEntry, .blockEnd] true false s.drop
      let (items, s) ← blockItems fuel s
      return (item :: items, s)
    | .blockEnd :: _ => some ([], s.drop)
    | _ => none

/-- The items of a sequence that is not indented; it ends at the first other token. -/
def plainItems (fuel : Nat) (s : State) : Option (List Node × State) :=
  match fuel with
  | 0 => none
  | fuel + 1 =>
    match s.tokens with
    | .blockEntry :: _ => do
      let (item, s) ← readUnless fuel [.blockEntry, .key, .value, .blockEnd] true false s.drop
      let (items, s) ← plainItems fuel s
      return (item :: items, s)
    | _ => some ([], s)

def blockPairs (fuel : Nat) (s : State) : Option (List (Node × Node) × State) :=
  match fuel with
  | 0 => none
  | fuel + 1 =>
    match s.tokens with
    | .key :: _ => do
      let (key, s) ← readUnless fuel [.key, .value, .blockEnd] true true s.drop
      let (value, s) ← blockValue fuel s
      let (pairs, s) ← blockPairs fuel s
      return ((key, value) :: pairs, s)
    | .blockEnd :: _ => some ([], s.drop)
    | _ => none

def blockValue (fuel : Nat) (s : State) : Option (Node × State) :=
  match fuel with
  | 0 => none
  | fuel + 1 =>
    match s.tokens with
    | .value :: _ => readUnless fuel [.key, .value, .blockEnd] true true s.drop
    | _ => some (blank, s)

/-- Items between brackets; a key among them makes a mapping of one pair. -/
def flowItems (fuel : Nat) (first : Bool) (s : State) : Option (List Node × State) :=
  match fuel with
  | 0 => none
  | fuel + 1 =>
    match s.tokens with
    | .closeSequence :: _ => some ([], s.drop)
    | _ => do
      let s ← if first then some s else
        match s.tokens with
        | .flowEntry :: _ => some s.drop
        | _ => none
      match s.tokens with
      | .closeSequence :: _ => some ([], s.drop)
      | .key :: _ => do
        let (pair, s) ← singlePair fuel s.drop
        let (items, s) ← flowItems fuel false s
        return (.mapping none [pair] :: items, s)
      | _ => do
        let (item, s) ← read fuel false false s
        let (items, s) ← flowItems fuel false s
        return (item :: items, s)

/-- The pair of a mapping without braces; where its key is missing, one token is passed over. -/
def singlePair (fuel : Nat) (s : State) : Option ((Node × Node) × State) :=
  match fuel with
  | 0 => none
  | fuel + 1 => do
    let (key, s) ←
      if before s [.value, .flowEntry, .closeSequence] then some (blank, s.drop)
      else read fuel false false s
    match s.tokens with
    | .value :: _ => do
      let (value, s) ← readUnless fuel [.flowEntry, .closeSequence] false false s.drop
      return ((key, value), s)
    | _ => some ((key, blank), s)

def flowPairs (fuel : Nat) (first : Bool) (s : State) : Option (List (Node × Node) × State) :=
  match fuel with
  | 0 => none
  | fuel + 1 =>
    match s.tokens with
    | .closeMapping :: _ => some ([], s.drop)
    | _ => do
      let s ← if first then some s else
        match s.tokens with
        | .flowEntry :: _ => some s.drop
        | _ => none
      match s.tokens with
      | .closeMapping :: _ => some ([], s.drop)
      | .key :: _ => do
        let (key, s) ← readUnless fuel [.value, .flowEntry, .closeMapping] false false s.drop
        let (value, s) ← flowValue fuel s
        let (pairs, s) ← flowPairs fuel false s
        return ((key, value) :: pairs, s)
      | _ => do
        let (key, s) ← read fuel false false s
        let (pairs, s) ← flowPairs fuel false s
        return ((key, blank) :: pairs, s)

def flowValue (fuel : Nat) (s : State) : Option (Node × State) :=
  match fuel with
  | 0 => none
  | fuel + 1 =>
    match s.tokens with
    | .value :: _ => readUnless fuel [.flowEntry, .closeMapping] false false s.drop
    | _ => some (blank, s)

end

/-- The directives before a document: at most one version, which has to be 1.1 or 1.2, and
each tag handle once. -/
def directives (version : Bool) (handles : List (String × Tag)) :
    List Token → Option (List (String × Tag) × List Token)
  | .version major minor :: rest =>
    if version ∨ major ≠ 1 ∨ (minor ≠ 1 ∧ minor ≠ 2) then none else directives true handles rest
  | .tagHandle h t :: rest =>
    if (handles.lookup h).isSome then none else directives version (handles ++ [(h, t)]) rest
  | ts => some (handles, ts)

/-- Whether nothing is written of the content of a document. -/
def noContent : List Token → Bool
  | [] => true
  | .version .. :: _ => true
  | .tagHandle .. :: _ => true
  | .documentStart :: _ => true
  | .documentEnd :: _ => true
  | _ => false

/-- A document that is marked by its start, or the content alone. -/
def document (ts : List Token) : Option (Node × State) :=
  let fuel := 4 * ts.length + 4
  match ts with
  | .version .. :: _ | .tagHandle .. :: _ | .documentStart :: _ => do
    let (handles, ts) ← directives false [] ts
    match ts with
    | .documentStart :: ts =>
      if noContent ts then some (blank, { tokens := ts })
      else read fuel true false { tokens := ts, handles }
    | _ => none
  | _ => read fuel true false { tokens := ts }

mutual

/-- The number of events that a node is made of: one for a leaf, and one at either end of a
collection. -/
def events : Node → Nat
  | .scalar .. => 1
  | .alias _ => 1
  | .sequence _ items => itemEvents items + 2
  | .mapping _ entries => entryEvents entries + 2
termination_by structural x => x

def itemEvents : List Node → Nat
  | [] => 0
  | n :: rest => n.events + itemEvents rest
termination_by structural x => x

def entryEvents : List (Node × Node) → Nat
  | [] => 0
  | (key, value) :: rest => key.events + value.events + entryEvents rest
termination_by structural x => x

end

end Node

/-- The only document of a text; `some none` if there is none. -/
def Document.ofText? (text : String) : Option (Option Document) := do
  match ← tokens? text.toList with
  | [] => some none
  | ts =>
    let (root, s) ← Node.document ts
    if s.tokens.all (· = .documentEnd) then some (some ⟨root, s.targets⟩) else none

end Tributary.Yaml
