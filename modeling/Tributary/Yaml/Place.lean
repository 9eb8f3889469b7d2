import Tributary.Readable
import Tributary.Yaml.Node
import Tributary.Yaml.Plain

/-!
# Reading YAML nodes

Texts are read from scalars of any style, other scalars from plain ones. A structure or a
list may be left empty. A value without a type of its own is read by what its plain scalars
stand for; a local tag has no meaning there, unless its name is no text. Aliases may lead
back to a node that they lie in. Such a document has no value, and a limit on the aliases
that are followed keeps others from growing without measure.
-/

namespace Tributary.Yaml

namespace Node

/-- The node itself, or the one that an alias stands for. -/
def target (targets : Array Node) : Node → Reading Node
  | .alias number => do
    Reading.follow
    Reading.ofOption targets[number]?
  | n => pure n

/-- Whether a scalar may be something other than a text: a plain one, or a literal block
with the tag of that kind. -/
def untyped (expected : Tag) (tag : Option Tag) (style : Style) : Bool :=
  style = .plain || (style = .literal && tag = some expected)

def integerJson? (n : Int) : Option Json :=
  if -(Nat.pow 2 63 : Nat) ≤ n ∧ n < (Nat.pow 2 64 : Nat) then some (.int n) else none

def meaningJson? (text : String) : Plain.Meaning → Option Json
  | .null => some .null
  | .bool b => some (.bool b)
  | .integer n => integerJson? n
  | .double (some x) => some (.num (.double x))
  | .double none => some .null
  | .text => some (.str text)

/-- What a scalar stands for where any value is allowed. -/
def scalarJson? (tag : Option Tag) (style : Style) (text : String) : Option Json :=
  let plain := if style = .plain then meaningJson? text (Plain.meaning text) else some (.str text)
  match tag with
  | none => plain
  | some t =>
    if t.localName?.isSome then none
    else if t = .bool then (Plain.bool? text).map .bool
    else if t = .int then (Plain.integer? text.toList).bind integerJson?
    else if t = .float then
      if Plain.isNotFinite text then some .null
      else (Plain.double? text.toList).map fun x => .num (.double x)
    else if t = .null then if Plain.isNull text then some .null else none
    else if t.isLocal then plain
    else some (.str text)

/-- The text of a scalar. -/
def text? (targets : Array Node) (n : Node) : Reading String := do
  match ← n.target targets with
  | .scalar _ _ text => pure text
  | _ => failure

/-- The value of a node, `inside` being the value of a node in it, if there may be any. -/
def valueBy (targets : Array Node) (inside : Option (Node → Reading Json)) (n : Node) :
    Reading Json := do
  match ← n.target targets, inside with
  | .scalar tag style text, _ => .ofOption (scalarJson? tag style text)
  | .sequence tag items, some inside =>
    if (tag.bind Tag.localName?).isSome then failure
    else return .arr (← items.mapM inside)
  | .mapping tag entries, some inside =>
    if (tag.bind Tag.localName?).isSome then failure
    else
      let members ← entries.mapM fun (k, v) => do return (← k.text? targets, ← inside v)
      return .ofTable (.ofList members)
  | _, _ => failure

/-- The value of a node in which at most so many collections may be open at once. -/
def json? (targets : Array Node) : Nat → Node → Reading Json
  | 0 => valueBy targets none
  | depth + 1 => valueBy targets (some (json? targets depth))

end Node

/-- A node, the targets of its document's aliases, and how many collections may still open
in it. -/
structure Place where
  node : Node
  targets : Array Node
  depth : Nat

namespace Place

/-- Collections may be nested so deeply. -/
def maxDepth : Nat := 128

def start (d : Document) : Place := ⟨d.root, d.targets, maxDepth⟩

def inside (p : Place) (n : Node) : Place := ⟨n, p.targets, p.depth - 1⟩

def target (p : Place) : Reading Node := p.node.target p.targets

def items? (p : Place) : Reading (List Place) := do
  match ← p.target with
  | .sequence _ items => if p.depth = 0 then failure else pure (items.map p.inside)
  | .scalar _ .plain "" => pure []
  | _ => failure

def entries? (p : Place) : Reading (List (String × Place)) := do
  match ← p.target with
  | .mapping _ entries =>
    if p.depth = 0 then failure
    else entries.mapM fun (k, v) => do return (← k.text? p.targets, p.inside v)
  | .scalar _ .plain "" => pure []
  | _ => failure

/-- An alternative is its name, or its name as a tag before nothing. -/
def variant? (p : Place) : Reading String := do
  match ← p.target with
  | .scalar tag style text =>
    match tag.bind Tag.localName? with
    | some name =>
      if style = .plain ∧ (text = "" ∨ Plain.isNull text) then pure name else failure
    | none => pure text
  | _ => failure

/-- Nothing at all and a plain null are missing, unless a tag says that they are not. What
the null tag says to be one has to be a null. -/
def optional? (p : Place) : Reading (Option Place) := do
  let n ← p.target
  let here := some { p with node := n }
  match n with
  | .scalar none .plain text => return if text = "" ∨ Plain.isNull text then none else here
  | .scalar (some t) .plain text =>
    if t ≠ .null then return here
    else if Plain.isNull text then return none
    else failure
  | _ => return here

/-- What a plain scalar is read as, or a literal block with the tag of that kind. -/
def scalar? (p : Place) (expected : Tag) (read : String → Option α) : Reading α := do
  match ← p.target with
  | .scalar tag style text =>
    if Node.untyped expected tag style then .ofOption (read text) else failure
  | _ => failure

/-- An integer between two bounds. -/
def integer? (lo hi : Int) (text : String) : Option Int :=
  let n := if 0 ≤ lo then (Plain.unsigned? text.toList).map Int.ofNat
    else Plain.integer? text.toList
  n.filter fun n => lo ≤ n ∧ n ≤ hi

instance : Readable Place where
  text? p := p.node.text? p.targets
  bool? p := p.scalar? .bool Plain.bool?
  int? lo hi p := p.scalar? .int (integer? lo hi)
  variant?
  optional?
  items?
  entries?
  fields? names p := p.entries?.filterMap (uniqueFields names)
  json? p := p.node.json? p.targets p.depth

end Place

/-- As many aliases may be followed in reading a document. -/
def Document.references (d : Document) : Nat := 100 * d.root.events

/-- Reads a structure from the only document of a text; no document is an empty structure. -/
def read {α : Type} (read : Place → Reading α) (text : String) : Option α := do
  let d := (← Document.ofText? text).getD ⟨.blank, #[]⟩
  (read (.start d)).read? d.references

end Tributary.Yaml
