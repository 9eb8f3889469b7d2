import Tributary.Proofs.Instants
import Tributary.Proofs.Spelling
import Tributary.Record.Codec
import Tributary.Yaml.Place
import Tributary.Yaml.Writer

/-!
# What nodes show

A node shows a value if it can only mean that value: only a plain null shows null, a truth value
or a number is plain, and a text is not plain unless it means a text (`Json.shownBy`). Every
reader then gives what is shown, one lemma for each kind of value, a value of any kind as far as
it is not nested too deeply (`Node.json?_of_shown`), and the fields of a structure by their names
(`Place.Found`).
-/

namespace Tributary

open Yaml

namespace Reading

variable {α β : Type}

@[simp] theorem ofOption_some (a : α) : ofOption (some a) = pure a := rfl

@[simp] theorem ofOption_none : ofOption (none : Option α) = failure := rfl

@[simp] theorem filterMap_pure (a : α) (f : α → Option β) :
    (pure a : Reading α).filterMap f = ofOption (f a) := rfl

@[simp] theorem failure_bind (f : α → Reading β) : (failure : Reading α) >>= f = failure := rfl

/-- A list whose items are read one by one, each to a value or not at all. -/
theorem mapM_eq (fits : α → Prop) [DecidablePred fits] {R : α → β → Prop}
    {read : β → Reading α} {xs : List α} {ys : List β} (h : List.Forall₂ R xs ys)
    (reads : ∀ x ∈ xs, ∀ y, R x y → read y = if fits x then pure x else failure) :
    ys.mapM read = if ∀ x ∈ xs, fits x then pure xs else failure := by
  induction h with
  | nil => simp
  | @cons x y xs ys first _ ih =>
    rw [List.mapM_cons, reads x List.mem_cons_self y first,
      ih fun x mem => reads x (List.mem_cons_of_mem _ mem)]
    by_cases here : fits x
    · by_cases there : ∀ x ∈ xs, fits x
      · have all : ∀ z ∈ x :: xs, fits z := List.forall_mem_cons.2 ⟨here, there⟩
        rw [if_pos here, if_pos there, if_pos all, pure_bind, pure_bind]
      · have not_all : ¬ ∀ z ∈ x :: xs, fits z := fun all => there (List.forall_mem_cons.1 all).2
        rw [if_pos here, if_neg there, if_neg not_all, pure_bind, failure_bind]
    · have not_all : ¬ ∀ z ∈ x :: xs, fits z := fun all => here (List.forall_mem_cons.1 all).1
      rw [if_neg here, if_neg not_all, failure_bind]

end Reading

namespace Yaml.Node

/-- The text of a plain scalar. -/
def plain? : Node → Option String
  | .scalar none .plain text => some text
  | _ => none

/-- Whether a node shows a text: it is not plain unless it means a text. -/
def showsText (n : Node) (s : String) : Bool :=
  match n with
  | .scalar none style text => text = s && (style ≠ .plain || Plain.meaning s = .text)
  | _ => false

theorem plain?_eq_some {n : Node} {text : String} :
    n.plain? = some text ↔ n = .scalar none .plain text := by
  constructor
  · intro h
    unfold plain? at h
    split at h
    · rw [Option.some.inj h]
    · cases h
  · rintro rfl
    rfl

theorem showsText_iff {n : Node} {s : String} :
    n.showsText s = true ↔
      ∃ style, n = .scalar none style s ∧ (style = .plain → Plain.meaning s = .text) := by
  constructor
  · intro h
    unfold showsText at h
    split at h
    · next style text =>
      simp only [Bool.and_eq_true, decide_eq_true_eq, Bool.or_eq_true] at h
      obtain ⟨rfl, meant⟩ := h
      exact ⟨style, rfl, fun plain => meant.resolve_left fun other => other plain⟩
    · cases h
  · rintro ⟨style, rfl, meant⟩
    by_cases plain : style = .plain <;> simp_all [showsText]

end Yaml.Node

namespace Json

mutual

/-- Whether a node shows a value: nothing but a plain null shows null, a truth value is plain, and
a number is plain, an integer in its digits. -/
def shownBy : Json → Node → Bool
  | .null, n => n.plain?.any Plain.isNull
  | .bool b, n => n.plain?.any (Plain.bool? · = some b)
  | .num (.int i), n => n.plain? = some (Writer.number (.int i))
  | .num (.double x), n => n.plain?.any (Plain.meaning · = .double (some x))
  | .str s, n => n.showsText s
  | .arr items, .sequence none nodes => itemsShown items nodes
  | .obj members, .mapping none entries => membersShown members entries
  | _, _ => false
termination_by structural x => x

def itemsShown : List Json → List Node → Bool
  | [], [] => true
  | item :: rest, node :: nodes => item.shownBy node && itemsShown rest nodes
  | _, _ => false
termination_by structural x => x

def membersShown : List (String × Json) → List (Node × Node) → Bool
  | [], [] => true
  | (key, value) :: rest, (name, node) :: entries =>
    name.showsText key && value.shownBy node && membersShown rest entries
  | _, _ => false
termination_by structural x => x

end

theorem forall₂_of_itemsShown {items : List Json} {nodes : List Node}
    (h : itemsShown items nodes = true) :
    List.Forall₂ (fun v n => v.shownBy n = true) items nodes := by
  induction items generalizing nodes with
  | nil =>
    cases nodes with
    | nil => exact .nil
    | cons => cases h
  | cons v items ih =>
    cases nodes with
    | nil => cases h
    | cons n nodes =>
      simp only [itemsShown, Bool.and_eq_true] at h
      exact .cons h.1 (ih h.2)

theorem forall₂_of_membersShown {members : List (String × Json)} {entries : List (Node × Node)}
    (h : membersShown members entries = true) :
    List.Forall₂ (fun m e => e.1.showsText m.1 = true ∧ m.2.shownBy e.2 = true)
      members entries := by
  induction members generalizing entries with
  | nil =>
    cases entries with
    | nil => exact .nil
    | cons => cases h
  | cons m members ih =>
    cases entries with
    | nil => cases h
    | cons e entries =>
      simp only [membersShown, Bool.and_eq_true] at h
      exact .cons h.1 (ih h.2)

theorem sequence_of_shown {items : List Json} {n : Node} (h : (arr items).shownBy n = true) :
    ∃ nodes, n = .sequence none nodes ∧
      List.Forall₂ (fun v n => v.shownBy n = true) items nodes := by
  cases n with
  | sequence tag nodes =>
    cases tag with
    | none => exact ⟨nodes, rfl, forall₂_of_itemsShown h⟩
    | some tag => cases h
  | _ => cases h

theorem mapping_of_shown {members : List (String × Json)} {n : Node}
    (h : (obj members).shownBy n = true) :
    ∃ entries, n = .mapping none entries ∧
      List.Forall₂ (fun m e => e.1.showsText m.1 = true ∧ m.2.shownBy e.2 = true)
        members entries := by
  cases n with
  | mapping tag entries =>
    cases tag with
    | none => exact ⟨entries, rfl, forall₂_of_membersShown h⟩
    | some tag => cases h
  | _ => cases h

mutual

/-- How many collections are open at once in a value. -/
def nesting : Json → Nat
  | .arr items => itemNesting items + 1
  | .obj members => memberNesting members + 1
  | _ => 0
termination_by structural x => x

def itemNesting : List Json → Nat
  | [] => 0
  | item :: rest => max item.nesting (itemNesting rest)
termination_by structural x => x

def memberNesting : List (String × Json) → Nat
  | [] => 0
  | (_, value) :: rest => max value.nesting (memberNesting rest)
termination_by structural x => x

end

theorem itemNesting_le {items : List Json} {depth : Nat} :
    itemNesting items ≤ depth ↔ ∀ v ∈ items, v.nesting ≤ depth := by
  induction items with
  | nil => simp [itemNesting]
  | cons v rest ih => rw [itemNesting, Nat.max_le, ih, List.forall_mem_cons]

theorem memberNesting_le {members : List (String × Json)} {depth : Nat} :
    memberNesting members ≤ depth ↔ ∀ m ∈ members, m.2.nesting ≤ depth := by
  induction members with
  | nil => simp [memberNesting]
  | cons m rest ih => rw [memberNesting, Nat.max_le, ih, List.forall_mem_cons]

/-- A value as it is kept: objects in order, and integers of at most 64 bits. -/
inductive Regular : Json → Prop
  | null : Regular .null
  | bool (b : Bool) : Regular (.bool b)
  | int (n : Int) (low : -(Nat.pow 2 63 : Nat) ≤ n) (high : n < (Nat.pow 2 64 : Nat)) :
      Regular (.num (.int n))
  | double (x : Decimal.Double) : Regular (.num (.double x))
  | str (s : String) : Regular (.str s)
  | arr {items : List Json} (regular : ∀ v ∈ items, Regular v) : Regular (.arr items)
  | obj {members : List (String × Json)} (ascending : (Table.mk members).Ascending)
      (regular : ∀ m ∈ members, Regular m.2) : Regular (.obj members)

end Json

namespace Yaml

/-! ## Scalars -/

namespace Plain

theorem digit?_of_isDigit {c : Char} (h : c.isDigit = true) :
    digit? 10 c = some (c.toNat - '0'.toNat) := by
  have bounds := h
  simp only [Char.isDigit, Bool.and_eq_true, decide_eq_true_eq, ge_iff_le] at bounds
  have low : 48 ≤ c.toNat := bounds.1
  have high : c.toNat ≤ 57 := bounds.2
  have zero : '0'.toNat = 48 := rfl
  simp only [digit?, h, if_true, Option.bind_some, zero]
  rw [if_pos (by omega)]

theorem digits?_toDigits (n : Nat) : digits? 10 (Nat.toDigits 10 n) = some n := by
  have each (cs : List Char) (h : ∀ c ∈ cs, c.isDigit = true) :
      cs.mapM (digit? 10) = some (cs.map fun c => c.toNat - '0'.toNat) := by
    induction cs with
    | nil => rfl
    | cons c cs ih =>
      rw [List.mapM_cons, digit?_of_isDigit (h c List.mem_cons_self),
        ih fun d mem => h d (List.mem_cons_of_mem c mem)]
      rfl
  rw [digits?, if_neg Nat.toDigits_ne_nil,
    each _ fun c mem => Nat.isDigit_of_mem_toDigits (by decide) (by decide) mem, Option.map_some,
    List.foldl_map]
  exact congrArg some ((Rfc3339.valueOf_eq _).trans Nat.ofDigitChars_ten_toDigits)

theorem isDigit_of_toDigits {n : Nat} {c : Char} {rest : List Char}
    (h : Nat.toDigits 10 n = c :: rest) : c.isDigit = true :=
  Nat.isDigit_of_mem_toDigits (by decide) (by decide) (h ▸ List.mem_cons_self)

/-- Only the digits of zero begin with a zero. -/
theorem head_toDigits {n : Nat} (pos : 0 < n) : (Nat.toDigits 10 n).head? ≠ some '0' := by
  induction n using Nat.strongRecOn with
  | ind n ih =>
    by_cases small : n < 10
    · rw [Nat.toDigits_of_lt_base small]
      interval_cases n <;> decide
    · rw [Nat.toDigits_of_base_le (by decide) (by omega), List.head?_append]
      have first := ih (n / 10) (by omega) (by omega)
      cases h : (Nat.toDigits 10 (n / 10)).head? with
      | none => exact absurd (List.head?_eq_none_iff.1 h) Nat.toDigits_ne_nil
      | some c => rwa [h] at first

theorem dropSign_toDigits (n : Nat) : dropSign (Nat.toDigits 10 n) = Nat.toDigits 10 n := by
  unfold dropSign
  split
  · next start => exact absurd (isDigit_of_toDigits start) (by decide)
  · next start => exact absurd (isDigit_of_toDigits start) (by decide)
  · rfl

theorem eq_zero_of_toDigits {n : Nat} {rest : List Char} (h : Nat.toDigits 10 n = '0' :: rest) :
    rest = [] := by
  by_cases zero : n = 0
  · subst zero
    exact (List.cons.inj h).2.symm
  · exact absurd (by rw [h]; rfl) (head_toDigits (Nat.pos_of_ne_zero zero))

theorem leadingZero_toDigits (n : Nat) : leadingZero (Nat.toDigits 10 n) = false := by
  unfold leadingZero
  rw [dropSign_toDigits]
  split
  · next start => cases eq_zero_of_toDigits start
  · rfl

theorem magnitude?_toDigits (n : Nat) : magnitude? (Nat.toDigits 10 n) = some n := by
  unfold magnitude?
  split
  · next start => cases eq_zero_of_toDigits start
  · next start => cases eq_zero_of_toDigits start
  · next start => cases eq_zero_of_toDigits start
  · rw [leadingZero_toDigits, digits?_toDigits]
    rfl

theorem unsigned?_toDigits (n : Nat) : unsigned? (Nat.toDigits 10 n) = some n := by
  unfold unsigned?
  split
  · next start => exact absurd (isDigit_of_toDigits start) (by decide)
  · exact magnitude?_toDigits n

theorem unsigned?_number (n : Nat) : unsigned? (Writer.number (.int n)).toList = some n := by
  have digits : (Writer.number (.int n)).toList = Nat.toDigits 10 n := String.toList_ofList
  rw [digits, unsigned?_toDigits]

theorem integer?_number (n : Int) : integer? (Writer.number (.int n)).toList = some n := by
  cases n with
  | ofNat n =>
    have digits : (Writer.number (.int (.ofNat n))).toList = Nat.toDigits 10 n :=
      String.toList_ofList
    rw [digits]
    unfold integer?
    split
    · next start => exact absurd (isDigit_of_toDigits start) (by decide)
    · rw [unsigned?_toDigits]
      rfl
  | negSucc n =>
    have digits : (Writer.number (.int (.negSucc n))).toList = '-' :: Nat.toDigits 10 (n + 1) := by
      rw [Writer.number, String.toList_append]
      exact congrArg _ String.toList_ofList
    rw [digits, integer?, magnitude?_toDigits]
    rfl

/-! ## Meanings -/

theorem isNull_iff {s : String} :
    isNull s = true ↔ s = "null" ∨ s = "Null" ∨ s = "NULL" ∨ s = "~" := by
  simp [isNull]

theorem meaning_of_isNull {s : String} (h : isNull s = true) : meaning s = .null := by
  rw [meaning, if_pos (.inr h)]

theorem not_null_of_meaning {s : String} (h : meaning s ≠ .null) : ¬ (s = "" ∨ isNull s = true) :=
  fun null => h (by rw [meaning, if_pos null])

theorem not_null_of_bool? {s : String} {b : Bool} (h : bool? s = some b) :
    ¬ (s = "" ∨ isNull s = true) := by
  rw [isNull_iff]
  rintro (rfl | rfl | rfl | rfl | rfl) <;> cases h

theorem meaning_of_bool? {s : String} {b : Bool} (h : bool? s = some b) : meaning s = .bool b := by
  rw [meaning, if_neg (not_null_of_bool? h), h]

theorem not_null_of_integer? {s : String} {n : Int} (h : integer? s.toList = some n) :
    ¬ (s = "" ∨ isNull s = true) := by
  rw [isNull_iff]
  rintro (rfl | rfl | rfl | rfl | rfl) <;> cases h

theorem meaning_of_integer? {s : String} {n : Int} (h : integer? s.toList = some n)
    (range : fits n = true) : meaning s = .integer n := by
  have no_truth : bool? s = none := by
    unfold bool?
    split
    · next mem =>
      simp only [List.mem_cons, List.not_mem_nil, or_false] at mem
      rcases mem with rfl | rfl | rfl <;> cases h
    · split
      · next mem =>
        simp only [List.mem_cons, List.not_mem_nil, or_false] at mem
        rcases mem with rfl | rfl | rfl <;> cases h
      · rfl
  rw [meaning, if_neg (not_null_of_integer? h), no_truth, h, Option.filter_some_pos range]

end Plain

/-! ## Values of any kind -/

namespace Node

variable {n : Node} {targets : Array Node}

theorem target_of_shown {v : Json} (h : v.shownBy n = true) : n.target targets = pure n := by
  cases n with
  | «alias» number => cases v <;> first | cases h | (next m => cases m <;> cases h)
  | _ => rfl

theorem text?_of_shown {s : String} (h : n.showsText s = true) : n.text? targets = pure s := by
  obtain ⟨style, rfl, -⟩ := showsText_iff.1 h
  rfl

/-- What a leaf stands for where any value is allowed. -/
theorem scalarJson?_of_shown {v : Json} (regular : v.Regular) (leaf : v.nesting = 0)
    (h : v.shownBy n = true) :
    ∃ style text, n = .scalar none style text ∧ scalarJson? none style text = some v := by
  have plain {text : String} (same : n.plain? = some text) {m : Plain.Meaning}
      (meant : Plain.meaning text = m) (value : meaningJson? text m = some v) :
      ∃ style text, n = .scalar none style text ∧ scalarJson? none style text = some v :=
    ⟨.plain, text, plain?_eq_some.1 same, by
      rw [← value, ← meant]
      rfl⟩
  cases regular with
  | null =>
    obtain ⟨text, same, null⟩ := (Option.any_eq_true _ _).1 h
    exact plain same (Plain.meaning_of_isNull null) rfl
  | bool b =>
    obtain ⟨text, same, truth⟩ := (Option.any_eq_true _ _).1 h
    exact plain same (Plain.meaning_of_bool? (of_decide_eq_true truth)) rfl
  | int i low high =>
    have range : Plain.fits i = true := by
      simp only [Plain.fits, decide_eq_true_eq]
      constructor
      · exact Int.le_trans (by decide) low
      · exact Int.lt_trans high (by decide)
    refine plain (of_decide_eq_true h)
      (Plain.meaning_of_integer? (Plain.integer?_number i) range) ?_
    rw [meaningJson?, integerJson?, if_pos ⟨low, high⟩, Json.int]
  | double x =>
    obtain ⟨text, same, meant⟩ := (Option.any_eq_true _ _).1 h
    exact plain same (of_decide_eq_true meant) rfl
  | str s =>
    obtain ⟨style, same, meant⟩ := showsText_iff.1 h
    refine ⟨style, s, same, ?_⟩
    by_cases bare : style = .plain
    · subst bare
      simp [scalarJson?, meant rfl, meaningJson?]
    · simp [scalarJson?, bare]
  | arr | obj => simp [Json.nesting] at leaf

theorem valueBy_scalar (inside : Option (Node → Reading Json)) (style : Style) (text : String) :
    valueBy targets inside (.scalar none style text) = .ofOption (scalarJson? none style text) :=
  rfl

theorem valueBy_sequence (inside : Node → Reading Json) (nodes : List Node) :
    valueBy targets (some inside) (.sequence none nodes) =
      nodes.mapM inside >>= fun items => pure (.arr items) := rfl

theorem valueBy_mapping (inside : Node → Reading Json) (entries : List (Node × Node)) :
    valueBy targets (some inside) (.mapping none entries) =
      entries.mapM (fun e => do return (← e.1.text? targets, ← inside e.2)) >>=
        fun members => pure (.ofTable (.ofList members)) := rfl

theorem json?_leaf {v : Json} (regular : v.Regular) (flat : v.nesting = 0) {depth : Nat}
    {n : Node} (h : v.shownBy n = true) :
    n.json? targets depth = if v.nesting ≤ depth then pure v else failure := by
  obtain ⟨style, text, rfl, value⟩ := scalarJson?_of_shown regular flat h
  rw [flat, if_pos (Nat.zero_le depth)]
  cases depth <;> rw [json?, valueBy_scalar, value, Reading.ofOption_some]

/-- The value that a node shows, unless it is nested too deeply. -/
theorem json?_of_shown {v : Json} (regular : v.Regular) {depth : Nat} {n : Node}
    (h : v.shownBy n = true) :
    n.json? targets depth = if v.nesting ≤ depth then pure v else failure := by
  induction v using Json.induct generalizing depth n with
  | null => exact json?_leaf regular rfl h
  | bool b => exact json?_leaf regular rfl h
  | num m => exact json?_leaf regular rfl h
  | str s => exact json?_leaf regular rfl h
  | arr items ih =>
    cases regular with
    | arr inner =>
      obtain ⟨nodes, rfl, shown⟩ := Json.sequence_of_shown h
      cases depth with
      | zero => rfl
      | succ depth =>
        have all := Reading.mapM_eq (fun v : Json => v.nesting ≤ depth) shown
          fun v mem n shown => ih v mem (inner v mem) shown
        simp only [json?, valueBy_sequence, all, Json.nesting, Nat.succ_le_succ_iff,
          Json.itemNesting_le]
        split <;> rfl
  | obj members ih =>
    cases regular with
    | obj ascending inner =>
      obtain ⟨entries, rfl, shown⟩ := Json.mapping_of_shown h
      cases depth with
      | zero => rfl
      | succ depth =>
        have each (m : String × Json) (mem : m ∈ members) (e : Node × Node)
            (shown : e.1.showsText m.1 = true ∧ m.2.shownBy e.2 = true) :
            (do return (← e.1.text? targets, ← e.2.json? targets depth) : Reading _) =
              if m.2.nesting ≤ depth then pure m else failure := by
          rw [text?_of_shown shown.1, ih m mem (inner m mem) shown.2, pure_bind]
          split <;> rfl
        have all := Reading.mapM_eq (fun m : String × Json => m.2.nesting ≤ depth) shown each
        simp only [json?, valueBy_mapping, all, Json.nesting, Nat.succ_le_succ_iff,
          Json.memberNesting_le]
        split
        · rw [pure_bind, Table.ofList_entries ascending]
          rfl
        · rfl

end Node

/-! ## Places

A place shows a value if its node does; so many collections may still be opened there. -/

namespace Place

open Readable

structure Shows (p : Place) (v : Json) (depth : Nat) : Prop where
  shown : v.shownBy p.node = true
  depth : p.depth = depth

variable {α : Type} {p : Place} {depth : Nat}

theorem Shows.target {v : Json} (h : p.Shows v depth) : p.target = pure p.node :=
  Node.target_of_shown h.shown

/-- A reader that gives what was written, wherever that is shown. -/
def Reads (read : Place → Reading α) (v : Json) (a : α) (depth : Nat) : Prop :=
  ∀ p : Place, p.Shows v depth → read p = pure a

theorem reads_text (s : String) : Reads text? (.str s) s depth := fun _ h =>
  Node.text?_of_shown h.shown

/-- One of several alternatives, by its name. -/
theorem reads_alternative {ofName? : String → Option α} {name : String} {a : α}
    (known : ofName? name = some a) :
    Reads (fun q => (Readable.variant? q).filterMap ofName?) (.str name) a depth := by
  intro p h
  obtain ⟨style, same, -⟩ := Node.showsText_iff.1 h.shown
  have read : p.variant? = pure name := by
    rw [Place.variant?, h.target, pure_bind, same]
    rfl
  change p.variant?.filterMap ofName? = _
  rw [read, Reading.filterMap_pure, known, Reading.ofOption_some]

theorem reads_instant {t : Instant} (range : t.InRange) :
    Reads instant? (instantJson t) t.settled depth := by
  intro p h
  rw [instant?, reads_text _ p h, Reading.filterMap_pure, Rfc3339.parse_format range,
    Reading.ofOption_some]

/-- What a plain scalar is read as. -/
theorem scalar?_of_plain {v : Json} (h : p.Shows v depth) {text : String}
    (plain : p.node.plain? = some text) {expected : Tag} {read : String → Option α} :
    p.scalar? expected read = .ofOption (read text) := by
  rw [Place.scalar?, h.target, pure_bind, Node.plain?_eq_some.1 plain]
  rfl

theorem reads_bool (b : Bool) : Reads bool? (.bool b) b depth := by
  intro p h
  obtain ⟨text, plain, truth⟩ := (Option.any_eq_true _ _).1 h.shown
  change p.scalar? .bool Plain.bool? = _
  rw [scalar?_of_plain h plain, of_decide_eq_true truth, Reading.ofOption_some]

theorem reads_int {lo hi n : Int} (low : lo ≤ n) (high : n ≤ hi) :
    Reads (int? lo hi) (.int n) n depth := by
  intro p h
  have plain : p.node.plain? = some (Writer.number (.int n)) := of_decide_eq_true h.shown
  have read : Place.integer? lo hi (Writer.number (.int n)) = some n := by
    unfold Place.integer?
    split
    · next positive =>
      obtain ⟨m, rfl⟩ := Int.eq_ofNat_of_zero_le (Int.le_trans positive low)
      rw [Plain.unsigned?_number]
      exact Option.filter_some_pos (by simpa using ⟨low, high⟩)
    · rw [Plain.integer?_number]
      exact Option.filter_some_pos (by simpa using ⟨low, high⟩)
  change p.scalar? .int (Place.integer? lo hi) = _
  rw [scalar?_of_plain h plain, read, Reading.ofOption_some]

theorem reads_nat {bits n : Nat} (bound : n < 2 ^ bits) :
    Reads (nat? bits) (.nat n) n depth := by
  intro p h
  have high : (n : Int) ≤ (Nat.pow 2 bits - 1 : Nat) := by
    have : Nat.pow 2 bits = 2 ^ bits := rfl
    omega
  rw [nat?, reads_int (Int.natCast_nonneg n) high p h]
  rfl

/-- The places inside a sequence or a mapping. -/
theorem Shows.inside {v : Json} {n : Node} (h : p.depth = depth + 1) (shown : v.shownBy n = true) :
    (p.inside n).Shows v depth where
  shown
  depth := by rw [Place.inside, h, Nat.add_sub_cancel]

theorem items?_of_shows {items : List Json} (h : p.Shows (.arr items) (depth + 1)) :
    ∃ places, p.items? = pure places ∧
      List.Forall₂ (fun v (q : Place) => q.Shows v depth) items places := by
  obtain ⟨nodes, same, shown⟩ := Json.sequence_of_shown h.shown
  refine ⟨nodes.map p.inside, ?_, ?_⟩
  · rw [Place.items?, h.target, pure_bind, same]
    simp [h.depth]
  · rw [List.forall₂_map_right_iff]
    exact shown.imp fun _ _ shown => .inside h.depth shown

theorem entries?_of_shows {members : List (String × Json)}
    (h : p.Shows (.obj members) (depth + 1)) :
    ∃ places, p.entries? = pure places ∧
      List.Forall₂ (fun m (q : String × Place) => m.1 = q.1 ∧ q.2.Shows m.2 depth)
        members places := by
  have deep := h.depth
  obtain ⟨entries, same, shown⟩ := Json.mapping_of_shown h.shown
  have named : ∃ places : List (String × Place),
      entries.mapM (fun e => do return (← e.1.text? p.targets, p.inside e.2)) =
        (pure places : Reading _) ∧
      List.Forall₂ (fun m (q : String × Place) => m.1 = q.1 ∧ q.2.Shows m.2 depth)
        members places := by
    clear h same
    induction shown with
    | nil => exact ⟨[], rfl, .nil⟩
    | @cons m e _ _ first _ ih =>
      obtain ⟨places, read, shown⟩ := ih
      refine ⟨(m.1, p.inside e.2) :: places, ?_, .cons ⟨rfl, .inside deep first.2⟩ shown⟩
      rw [List.mapM_cons, Node.text?_of_shown first.1, read]
      rfl
  obtain ⟨places, read, shown⟩ := named
  refine ⟨places, ?_, shown⟩
  rw [Place.entries?, h.target, pure_bind, same, ← read]
  simp [h.depth]

theorem reads_list {read : Place → Reading α} {write : α → Json} {xs : List α}
    (reads : ∀ x ∈ xs, Reads read (write x) x depth) :
    Reads (list? read) (.arr (xs.map write)) xs (depth + 1) := by
  intro p h
  obtain ⟨places, read_items, shown⟩ := items?_of_shows h
  rw [List.forall₂_map_left_iff] at shown
  change p.items? >>= _ = _
  rw [read_items, pure_bind, Reading.mapM_eq (fun _ => True) shown]
  · simp
  · intro x mem q shown
    rw [if_pos trivial, reads x mem q shown]

theorem reads_bytes (bytes : List UInt8) :
    Reads bytes? (.arr (bytes.map fun b => .nat b.toNat)) bytes (depth + 1) := by
  refine reads_list fun b _ p h => ?_
  rw [reads_nat (UInt8.toNat_lt b) p h, map_pure]
  exact congrArg pure UInt8.ofNat_toNat

/-- A table, entry by entry. -/
theorem reads_table {t : Table String} (ascending : t.Ascending) :
    Reads (table? text?) (tableJson t) t (depth + 1) := by
  intro p h
  obtain ⟨places, read_entries, shown⟩ := entries?_of_shows h
  have pairs : List.Forall₂ (fun m (q : String × Place) => m.1 = q.1 ∧ q.2.Shows (.str m.2) depth)
      t.entries places := List.forall₂_map_left_iff.1 shown
  change p.entries? >>= _ = _
  rw [read_entries, pure_bind, Reading.mapM_eq (fun _ => True) pairs]
  · simp [Table.ofList_entries ascending]
  · rintro ⟨key, value⟩ mem ⟨name, q⟩ ⟨rfl, shown⟩
    change text? q >>= _ = _
    rw [reads_text value q shown, pure_bind, if_pos trivial]

theorem reads_json {v : Json} (regular : v.Regular) (h : p.Shows v depth) :
    Readable.json? p = if v.nesting ≤ depth then pure v else failure :=
  h.depth ▸ Node.json?_of_shown regular h.shown

/-- Only a null is missing where something may be missing. -/
theorem not_null_of_shown {v : Json} {text : String} (present : v ≠ .null)
    (h : v.shownBy (.scalar none .plain text) = true) :
    ¬ (text = "" ∨ Plain.isNull text = true) := by
  cases v with
  | null => exact absurd rfl present
  | bool b => exact Plain.not_null_of_bool? (of_decide_eq_true h)
  | num m =>
    cases m with
    | int n =>
      obtain rfl := Option.some.inj (of_decide_eq_true h)
      exact Plain.not_null_of_integer? (Plain.integer?_number n)
    | double x => exact Plain.not_null_of_meaning (by rw [of_decide_eq_true h]; nofun)
  | str s =>
    have text_shown : (Node.scalar none .plain text).showsText s = true := h
    obtain ⟨style, same, meant⟩ := Node.showsText_iff.1 text_shown
    cases same
    exact Plain.not_null_of_meaning (by rw [meant rfl]; nofun)
  | arr | obj => cases h

theorem optional?_null (h : p.Shows .null depth) : optional? p = pure none := by
  obtain ⟨text, plain, null⟩ := (Option.any_eq_true _ _).1 h.shown
  rw [Place.optional?, h.target, pure_bind, Node.plain?_eq_some.1 plain]
  simp [null]

theorem optional?_of_shows {v : Json} (present : v ≠ .null) (h : p.Shows v depth) :
    optional? p = pure (some p) := by
  rw [Place.optional?, h.target, pure_bind]
  obtain ⟨node, targets, most⟩ := p
  have shown := h.shown
  cases node with
  | «alias» number => cases v <;> first | cases shown | (next m => cases m <;> cases shown)
  | scalar tag style text =>
    cases tag with
    | some tag => cases v <;> first | cases shown | (next m => cases m <;> cases shown)
    | none =>
      cases style with
      | plain => simp [not_null_of_shown present shown]
      | _ => rfl
  | _ => rfl

/-! ## Fields -/

/-- Fields that show the members of an object. -/
def Found (f : String → Option Place) (members : List (String × Json)) (depth : Nat) : Prop :=
  ∀ name, Option.Rel (fun v (q : Place) => q.Shows v depth) (Table.look name members) (f name)

theorem fields?_of_shows {members : List (String × Json)} (names : List String)
    (h : p.Shows (.obj members) (depth + 1)) (known : (members.map (·.1)).Sublist names)
    (nodup : names.Nodup) :
    ∃ f, fields? names p = pure f ∧ Found f members depth := by
  obtain ⟨places, read_entries, shown⟩ := entries?_of_shows h
  have same_names : members.map (·.1) = places.map (·.1) := by
    rw [← List.forall₂_eq_eq_eq, List.forall₂_map_left_iff, List.forall₂_map_right_iff]
    exact shown.imp fun _ _ first => first.1
  have all : places.filter (fun q => names.contains q.1) = places := by
    refine List.filter_eq_self.2 fun q mem => ?_
    rw [List.contains_iff_mem]
    exact known.subset (same_names ▸ List.mem_map_of_mem mem)
  refine ⟨fun name => Table.look name places, ?_, Table.rel_look_of_forall₂ shown⟩
  change p.entries?.filterMap (uniqueFields names) = _
  rw [read_entries, Reading.filterMap_pure, uniqueFields, all, ← same_names,
    if_pos (nodup.sublist known), Reading.ofOption_some]

section

variable {f : String → Option Place} {members : List (String × Json)} {name : String}
  {read : Place → Reading α} {v : Json} {a : α} (found : Found f members depth)

include found

theorem found_of_look (written : Table.look name members = some v) :
    ∃ q, f name = some q ∧ q.Shows v depth := by
  have there := found name
  rw [written] at there
  generalize f name = field at there
  cases there with
  | some shown => exact ⟨_, rfl, shown⟩

theorem required_of_found (written : Table.look name members = some v)
    (reads : Reads read v a depth) : required f name read = pure a := by
  obtain ⟨q, field, shown⟩ := found_of_look found written
  rw [required, field]
  exact reads q shown

theorem fallback_of_found (written : Table.look name members = some v)
    (reads : Reads read v a depth) {value : α} : fallback f name value read = pure a := by
  obtain ⟨q, field, shown⟩ := found_of_look found written
  rw [fallback, field]
  exact reads q shown

theorem optionally_of_missing (missing : Table.look name members = none) :
    optionally f name read = pure none := by
  have there := found name
  rw [missing] at there
  generalize field : f name = other at there
  cases there with
  | none => rw [optionally, field]

theorem optionally_of_null (written : Table.look name members = some .null) :
    optionally f name read = pure none := by
  obtain ⟨q, field, shown⟩ := found_of_look found written
  rw [optionally, field]
  change optional? q >>= _ = _
  rw [optional?_null shown, pure_bind]

/-- A part that is there. -/
theorem optionally_of_present (written : Table.look name members = some v) (present : v ≠ .null) :
    ∃ q : Place, q.Shows v depth ∧ optionally f name read = some <$> read q := by
  obtain ⟨q, field, shown⟩ := found_of_look found written
  refine ⟨q, shown, ?_⟩
  rw [optionally, field]
  change optional? q >>= _ = _
  rw [optional?_of_shows present shown, pure_bind]

/-- A part that is there or not, and never null. -/
theorem optionally_of_found {β : Type} {part : Option β} (write : β → Json) (result : β → α)
    (written : Table.look name members = part.map write)
    (present : ∀ b, write b ≠ .null) (reads : ∀ b ∈ part, Reads read (write b) (result b) depth) :
    optionally f name read = pure (part.map result) := by
  cases part with
  | none => exact optionally_of_missing found written
  | some b =>
    obtain ⟨q, shown, read⟩ := optionally_of_present found written (present b)
    rw [read, reads b rfl q shown]
    rfl

theorem optionally_of_kept {part : Option α} (write : α → Json)
    (written : Table.look name members = part.map write) (present : ∀ a, write a ≠ .null)
    (reads : ∀ a, Reads read (write a) a depth) : optionally f name read = pure part := by
  have restored := optionally_of_found found write id written present fun a _ => reads a
  rwa [Option.map_id] at restored

end

end Place

end Yaml

end Tributary
