import Mathlib.Data.List.Forall2
import Tributary.Json.Text

/-!
# What a canonical text tells

A canonical text can be read in one way only, also where something else follows it: its first
letter tells what kind of value it spells, quotation marks and brackets are closed by the first
mark that is not escaped or nested, and a number ends where no letter of a number follows
(`told`). `Alike` are the values that differ in the order of members at most, and they are
those that the text does not tell apart (`canonical_eq_canonical`).
-/

namespace Tributary

namespace Table

variable {α β : Type} {R : α → β → Prop}

theorem look_eq_none_of_lt {key : String} {entries : List (String × α)}
    (h : ∀ p ∈ entries, key < p.1) : look key entries = none := by
  apply get?_eq_none_of_not_mem (t := ⟨entries⟩)
  intro mem
  obtain ⟨p, found, same⟩ := List.mem_map.1 mem
  exact String.lt_irrefl _ (same ▸ h p found)

theorem not_lt_of_look {key : String} {p : String × α} {entries : List (String × α)}
    (first : ∀ e ∈ entries, p.1 < e.1) (h : look key (p :: entries) ≠ none) : ¬ key < p.1 := by
  intro before
  refine h (look_eq_none_of_lt fun e mem => ?_)
  rcases List.mem_cons.1 mem with rfl | later
  · exact before
  · exact String.lt_trans before (first e later)

/-- Tables with the same keys and related values under them, pair by pair. -/
theorem forall₂_of_get? {t : Table α} {u : Table β} (ht : t.Ascending) (hu : u.Ascending)
    (h : ∀ key, Option.Rel R (t.get? key) (u.get? key)) :
    List.Forall₂ (fun p q => p.1 = q.1 ∧ R p.2 q.2) t.entries u.entries := by
  obtain ⟨es⟩ := t
  obtain ⟨fs⟩ := u
  simp only [get?] at h
  induction es generalizing fs with
  | nil =>
    cases fs with
    | nil => exact .nil
    | cons q fs =>
      have there := h q.1
      simp only [look, if_true] at there
      cases there
  | cons p es ih =>
    obtain ⟨firstOfT, ht⟩ := List.pairwise_cons.1 ht
    cases fs with
    | nil =>
      have there := h p.1
      simp only [look, if_true] at there
      cases there
    | cons q fs =>
      obtain ⟨firstOfU, hu⟩ := List.pairwise_cons.1 hu
      have same : p.1 = q.1 := by
        have ofT := h q.1
        have ofU := h p.1
        simp only [look, if_true] at ofT ofU
        apply String.le_antisymm
        · apply String.not_lt.1
          apply not_lt_of_look firstOfT
          intro missing
          simp only [look] at missing
          rw [missing] at ofT
          cases ofT
        · apply String.not_lt.1
          apply not_lt_of_look firstOfU
          intro missing
          simp only [look] at missing
          rw [missing] at ofU
          cases ofU
      refine .cons ⟨same, ?_⟩ (ih ht fs hu fun key => ?_)
      · have there := h p.1
        simp only [look, same, if_true] at there
        cases there with
        | some related => exact related
      · have there := h key
        by_cases here : key = p.1
        · have none₁ : look key es = none := look_eq_none_of_lt (here ▸ firstOfT)
          have none₂ : look key fs = none := look_eq_none_of_lt (here ▸ same ▸ firstOfU)
          rw [none₁, none₂]
          exact .none
        · simpa only [look, here, same ▸ here, if_false] using there

theorem rel_look_of_forall₂ {es : List (String × α)} {fs : List (String × β)}
    (h : List.Forall₂ (fun p q => p.1 = q.1 ∧ R p.2 q.2) es fs) (key : String) :
    Option.Rel R (look key es) (look key fs) := by
  induction h with
  | nil => exact .none
  | @cons p q es fs first _ ih =>
    simp only [look, first.1]
    split
    · exact .some first.2
    · exact ih

end Table

namespace Json

open Decimal

/-- Induction over a value, through its items and members. -/
theorem induct {motive : Json → Prop} (null : motive .null) (bool : ∀ b, motive (.bool b))
    (num : ∀ n, motive (.num n)) (str : ∀ s, motive (.str s))
    (arr : ∀ items, (∀ v ∈ items, motive v) → motive (.arr items))
    (obj : ∀ members, (∀ p ∈ members, motive p.2) → motive (.obj members)) (v : Json) : motive v :=
  @Json.rec motive (fun items => ∀ v ∈ items, motive v) (fun members => ∀ p ∈ members, motive p.2)
    (fun p => motive p.2) null bool num str arr obj (by simp)
    (fun v rest first others => by
      rintro w (_ | ⟨_, later⟩)
      · exact first
      · exact others w later)
    (by simp)
    (fun p rest first others => by
      rintro q (_ | ⟨_, later⟩)
      · exact first
      · exact others q later)
    (fun _ _ value => value) v

theorem sortedItems_eq_map (items : List Json) : sortedItems items = items.map sorted := by
  induction items with
  | nil => rfl
  | cons item rest ih => rw [sortedItems, ih, List.map_cons]

theorem sortedMembers_eq_map (members : List (String × Json)) :
    sortedMembers members = members.map fun p => (p.1, p.2.sorted) := by
  induction members with
  | nil => rfl
  | cons p rest ih => rw [sortedMembers, ih, List.map_cons]

theorem compactItems_eq_map (items : List Json) : compactItems items = items.map compact := by
  induction items with
  | nil => rfl
  | cons item rest ih => rw [compactItems, ih, List.map_cons]

theorem compactMembers_eq_map (members : List (String × Json)) :
    compactMembers members = members.map fun p => quote p.1 ++ ":" ++ p.2.compact := by
  induction members with
  | nil => rfl
  | cons p rest ih => rw [compactMembers, ih, List.map_cons]

theorem canonical_arr (items : List Json) :
    (Json.arr items).canonical = "[" ++ ",".intercalate (items.map canonical) ++ "]" := by
  simp only [canonical, sorted, compact, sortedItems_eq_map, compactItems_eq_map, List.map_map]
  rfl

/-- The members stand in the order of a table, each key once. -/
theorem canonical_obj (members : List (String × Json)) :
    (Json.obj members).canonical = "\x7b" ++ ",".intercalate
      ((Table.ofList members).entries.map fun p => quote p.1 ++ ":" ++ p.2.canonical) ++
        "\x7d" := by
  simp only [canonical, sorted, ofTable, compact, sortedMembers_eq_map, compactMembers_eq_map,
    Table.ofList_map, Table.map, List.map_map]
  rfl

/-! ## Values that are the same -/

/-- Numbers of one kind that are written the same. -/
inductive Number.Alike : Number → Number → Prop
  | int (n : Int) : Alike (.int n) (.int n)
  | double {x y : Double} (text : (double x).text = (double y).text) :
      Alike (.double x) (.double y)

/-- The same value, in whatever order the members of its objects are given: two objects have
the same keys, and the same values under them. -/
inductive Alike : Json → Json → Prop
  | null : Alike .null .null
  | bool (b : Bool) : Alike (.bool b) (.bool b)
  | num {m n : Number} (same : m.Alike n) : Alike (.num m) (.num n)
  | str (s : String) : Alike (.str s) (.str s)
  | arr {xs ys : List Json} (items : List.Forall₂ Alike xs ys) : Alike (.arr xs) (.arr ys)
  | obj {ms ns : List (String × Json)}
      (members : ∀ key, Option.Rel Alike ((obj ms).get? key) ((obj ns).get? key)) :
      Alike (.obj ms) (.obj ns)

/-! ## Letters -/

/-- The letters of the canonical text. -/
def letters (v : Json) : List Char := v.canonical.toList

/-- The letters of a text between its quotation marks, with the second one. -/
def closed (s : List Char) : List Char := s.flatMap escape ++ ['"']

/-- The letters of a member. -/
def memberLetters (p : String × Json) : List Char :=
  '"' :: (closed p.1.toList ++ ':' :: p.2.letters)

theorem letters_str (s : String) : (Json.str s).letters = '"' :: closed s.toList := by
  simp [letters, canonical, sorted, compact, quote, closed]

theorem letters_arr (items : List Json) :
    (Json.arr items).letters = '[' :: ([','].intercalate (items.map letters) ++ [']']) := by
  simp only [letters, canonical_arr, String.toList_append, String.toList_intercalate, List.map_map]
  rfl

theorem letters_obj (members : List (String × Json)) :
    (Json.obj members).letters =
      '{' :: ([','].intercalate ((Table.ofList members).entries.map memberLetters) ++ ['}']) := by
  have member (p : String × Json) :
      (quote p.1 ++ ":" ++ p.2.canonical).toList = memberLetters p := by
    simp [memberLetters, quote, closed, letters]
  simp only [letters, canonical_obj, String.toList_append, String.toList_intercalate, List.map_map,
    Function.comp_def, member]
  rfl

/-! ### Texts -/

/-- The characters that do not stand for themselves: the quotation mark, the backslash and the
control characters. -/
def specials : List Char := '"' :: '\\' :: (List.range 0x20).map Char.ofNat

theorem escape_of_not_special {c : Char} (h : c ∉ specials) : escape c = [c] := by
  have control : ¬ c.toNat < 0x20 := by
    intro small
    have same : Char.ofNat c.toNat = c := Char.ofNat_toNat c
    exact h (by
      simp only [specials, List.mem_cons, List.mem_map, List.mem_range]
      exact .inr (.inr ⟨c.toNat, small, same⟩))
  have listed :
      (['"', '\\', '\n', '\r', '\t', '\x08', '\x0c'].all (specials.contains ·)) = true := by
    decide
  have named : ∀ d ∈ ['"', '\\', '\n', '\r', '\t', '\x08', '\x0c'], d ∈ specials := by
    simpa only [List.all_eq_true, List.contains_iff_mem] using listed
  have others : ∀ d ∈ ['"', '\\', '\n', '\r', '\t', '\x08', '\x0c'], c ≠ d := by
    rintro d mem rfl
    exact h (named c mem)
  simp only [List.forall_mem_cons, List.not_mem_nil, false_implies, implies_true,
    and_true] at others
  simp [escape, others, control]

/-- No escape begins another one. -/
theorem specials_apart :
    ∀ c ∈ specials, ∀ d ∈ specials, escape c <+: escape d → c = d := by
  have apart : (specials.all fun c => specials.all fun d =>
      decide (escape c <+: escape d → c = d)) = true := by
    decide
  simpa only [List.all_eq_true, decide_eq_true_eq] using apart

theorem head?_escape_special : ∀ c ∈ specials, (escape c).head? = some '\\' := by
  have begins : (specials.all fun c => decide ((escape c).head? = some '\\')) = true := by
    decide
  simpa only [List.all_eq_true, decide_eq_true_eq] using begins

theorem escape_ne_quote (c : Char) : ∃ d rest, escape c = d :: rest ∧ d ≠ '"' := by
  by_cases special : c ∈ specials
  · obtain ⟨rest, first⟩ := List.head?_eq_some_iff.1 (head?_escape_special c special)
    exact ⟨_, rest, first, by decide⟩
  · refine ⟨c, [], escape_of_not_special special, ?_⟩
    rintro rfl
    exact special (by decide)

theorem escape_append_inj {c d : Char} {r s : List Char} (h : escape c ++ r = escape d ++ s) :
    c = d ∧ r = s := by
  have same : c = d := by
    by_cases hc : c ∈ specials
    · by_cases hd : d ∈ specials
      · have inside : escape d <+: escape c ++ r := h ▸ List.prefix_append _ _
        rcases List.prefix_or_prefix_of_prefix (List.prefix_append _ r) inside with first | first
        · exact specials_apart c hc d hd first
        · exact (specials_apart d hd c hc first).symm
      · obtain ⟨rest, first⟩ := List.head?_eq_some_iff.1 (head?_escape_special c hc)
        rw [first, escape_of_not_special hd] at h
        exact absurd ((List.cons.inj h).1 ▸ (by decide : '\\' ∈ specials)) hd
    · by_cases hd : d ∈ specials
      · obtain ⟨rest, first⟩ := List.head?_eq_some_iff.1 (head?_escape_special d hd)
        rw [first, escape_of_not_special hc] at h
        exact absurd ((List.cons.inj h).1 ▸ (by decide : '\\' ∈ specials)) hc
      · rw [escape_of_not_special hc, escape_of_not_special hd] at h
        exact (List.cons.inj h).1
  subst same
  exact ⟨rfl, List.append_cancel_left h⟩

/-- A text ends at the first quotation mark that is not escaped. -/
theorem closed_append_inj {s t r u : List Char} (h : closed s ++ r = closed t ++ u) :
    s = t ∧ r = u := by
  simp only [closed, List.append_assoc, List.singleton_append] at h
  induction s generalizing t with
  | nil =>
    cases t with
    | nil => exact ⟨rfl, (List.cons.inj h).2⟩
    | cons d t =>
      obtain ⟨e, rest, first, other⟩ := escape_ne_quote d
      rw [List.flatMap_cons, first] at h
      exact absurd (List.cons.inj h).1.symm other
  | cons c s ih =>
    cases t with
    | nil =>
      obtain ⟨e, rest, first, other⟩ := escape_ne_quote c
      rw [List.flatMap_cons, first] at h
      exact absurd (List.cons.inj h).1 other
    | cons d t =>
      rw [List.flatMap_cons, List.flatMap_cons, List.append_assoc, List.append_assoc] at h
      obtain ⟨rfl, rest⟩ := escape_append_inj h
      obtain ⟨rfl, rfl⟩ := ih rest
      exact ⟨rfl, rfl⟩

/-! ### Numbers -/

/-- The letters that numbers are written with. -/
def isNumeral (c : Char) : Bool := c.isDigit || c ∈ ['-', '+', '.', 'e']

/-- Whether a number can end before this text. -/
def Bounded (r : List Char) : Prop := ∀ c ∈ r.head?, isNumeral c = false

theorem bounded_nil : Bounded [] := by simp [Bounded]

theorem bounded_cons {c : Char} (h : isNumeral c = false) (r : List Char) : Bounded (c :: r) := by
  simpa [Bounded] using h

theorem numeral_append_inj {a b r s : List Char} (ha : ∀ c ∈ a, isNumeral c = true)
    (hb : ∀ c ∈ b, isNumeral c = true) (hr : Bounded r) (hs : Bounded s)
    (h : a ++ r = b ++ s) : a = b ∧ r = s := by
  induction a generalizing b with
  | nil =>
    cases b with
    | nil => exact ⟨rfl, h⟩
    | cons d b =>
      have ends := hr d (by rw [show r = d :: (b ++ s) from h]; rfl)
      rw [hb d List.mem_cons_self] at ends
      cases ends
  | cons c a ih =>
    cases b with
    | nil =>
      have ends := hs c (by rw [show s = c :: (a ++ r) from h.symm]; rfl)
      rw [ha c List.mem_cons_self] at ends
      cases ends
    | cons d b =>
      obtain ⟨rfl, rest⟩ := List.cons.inj h
      obtain ⟨rfl, same⟩ := ih (fun e mem => ha e (List.mem_cons_of_mem c mem))
        (fun e mem => hb e (List.mem_cons_of_mem c mem)) rest
      exact ⟨rfl, same⟩

theorem isNumeral_of_isDigit {c : Char} (h : c.isDigit = true) : isNumeral c = true := by
  simp [isNumeral, h]

theorem isDigit_of_mem_digitsOf {n : Nat} {c : Char} (h : c ∈ (digitsOf n).toList) :
    c.isDigit = true := by
  rw [digitsOf, String.toList_ofList] at h
  exact Nat.isDigit_of_mem_toDigits (by decide) (by decide) h

theorem digitsOf_inj {m n : Nat} (h : digitsOf m = digitsOf n) : m = n := by
  have same := congrArg (fun s => Nat.ofDigitChars 10 (String.toList s) 0) h
  simpa [digitsOf] using same

/-- A text that only a double has: it has the letters of a number, and among them a point or the
mark of an exponent. -/
structure Pointed (s : List Char) : Prop where
  numeral : ∀ c ∈ s, isNumeral c = true
  mark : ∃ c ∈ s, c = '.' ∨ c = 'e'

theorem Pointed.minus {s : List Char} (h : Pointed s) : Pointed ('-' :: s) where
  numeral := List.forall_mem_cons.2 ⟨by decide, h.numeral⟩
  mark := h.mark.imp fun _ found => ⟨List.mem_cons_of_mem _ found.1, found.2⟩

/-- What is written around a mark. -/
theorem pointed_around {before after : List Char} {c : Char} (mark : c = '.' ∨ c = 'e')
    (hbefore : ∀ d ∈ before, isNumeral d = true) (hafter : ∀ d ∈ after, isNumeral d = true) :
    Pointed (before ++ c :: after) where
  numeral d mem := by
    rcases List.mem_append.1 mem with first | later
    · exact hbefore d first
    · rcases List.mem_cons.1 later with rfl | last
      · rcases mark with rfl | rfl <;> decide
      · exact hafter d last
  mark := ⟨c, by simp, mark⟩

theorem numeral_toDigits (n : Nat) : ∀ c ∈ Nat.toDigits 10 n, isNumeral c = true := fun _ mem =>
  isNumeral_of_isDigit (Nat.isDigit_of_mem_toDigits (by decide) (by decide) mem)

theorem numeral_digitsOf (n : Nat) : ∀ c ∈ (digitsOf n).toList, isNumeral c = true := fun _ mem =>
  isNumeral_of_isDigit (isDigit_of_mem_digitsOf mem)

theorem numeral_append {a b : List Char} (ha : ∀ c ∈ a, isNumeral c = true)
    (hb : ∀ c ∈ b, isNumeral c = true) : ∀ c ∈ a ++ b, isNumeral c = true := fun c mem =>
  (List.mem_append.1 mem).elim (ha c) (hb c)

theorem numeral_zeros (n : Nat) : ∀ c ∈ List.replicate n '0', isNumeral c = true := fun c mem =>
  List.eq_of_mem_replicate mem ▸ by decide

theorem pointed_magnitudeText (x : Double) : Pointed (doubleLayout.magnitudeText x).toList := by
  unfold Layout.magnitudeText
  split
  · have zero : ∀ c ∈ ['0'], isNumeral c = true := List.all_eq_true.1 (by decide)
    exact pointed_around (.inl rfl) zero zero
  · extract_lets shortest digits count lead whole mantissa exponent
    have written : ∀ c ∈ digits, isNumeral c = true := numeral_toDigits _
    split
    · split
      · rw [String.toList_append, String.toList_ofList]
        have last : ∀ c ∈ ['0'], isNumeral c = true := List.all_eq_true.1 (by decide)
        exact pointed_around (.inl rfl) (numeral_append written (numeral_zeros _)) last
      · split
        · simp only [String.toList_append, String.toList_ofList, List.append_assoc]
          exact pointed_around (.inl rfl) (fun c mem => written c (List.mem_of_mem_take mem))
            (fun c mem => written c (List.mem_of_mem_drop mem))
        · simp only [String.toList_append, String.toList_ofList]
          have zero : ∀ c ∈ ['0'], isNumeral c = true := List.all_eq_true.1 (by decide)
          have last := numeral_append (numeral_zeros (-lead - 1).toNat) written
          exact pointed_around (.inl rfl) zero last
    · have signed : ∀ c ∈ exponent.toList, isNumeral c = true := by
        unfold exponent
        split
        · rw [String.toList_append]
          exact numeral_append (List.all_eq_true.1 (by decide)) (numeral_digitsOf _)
        · rw [String.toList_append]
          exact numeral_append (List.all_eq_true.1 (by decide)) (numeral_digitsOf _)
      have leading : ∀ c ∈ mantissa.toList, isNumeral c = true := by
        unfold mantissa
        revert written
        cases digits with
        | nil => simp
        | cons d rest =>
          intro written
          cases rest with
          | nil => simpa using written
          | cons e rest =>
            simp only [String.toList_append, String.toList_ofList, String.toList_singleton]
            obtain ⟨first, others⟩ := List.forall_mem_cons.1 written
            have alone : ∀ c ∈ [d], isNumeral c = true := by simpa using first
            exact (pointed_around (.inl rfl) alone others).numeral
      simp only [String.toList_append, List.append_assoc]
      exact pointed_around (.inr rfl) leading signed

theorem pointed_double (x : Double) : Pointed (Number.double x).text.toList := by
  rw [Number.text, Layout.text]
  split
  · rw [String.toList_append]
    exact (pointed_magnitudeText x).minus
  · exact pointed_magnitudeText x

theorem not_pointed_int (n : Int) : ¬ Pointed (Number.int n).text.toList := by
  rintro ⟨-, c, mem, mark⟩
  have plain : c = '-' ∨ c.isDigit = true := by
    cases n with
    | ofNat n => exact .inr (isDigit_of_mem_digitsOf mem)
    | negSucc n =>
      rw [Number.text, String.toList_append] at mem
      exact (List.mem_append.1 mem).imp List.mem_singleton.1 isDigit_of_mem_digitsOf
  rcases mark with rfl | rfl <;> revert plain <;> decide

theorem numeral_text (n : Number) : ∀ c ∈ n.text.toList, isNumeral c = true := by
  match n with
  | .double x => exact (pointed_double x).numeral
  | .int (.ofNat n) => exact numeral_digitsOf n
  | .int (.negSucc n) =>
    rw [Number.text, String.toList_append]
    exact numeral_append (List.all_eq_true.1 (by decide)) (numeral_digitsOf _)

theorem text_ne_nil (n : Number) : n.text.toList ≠ [] := by
  match n with
  | .double x =>
    obtain ⟨c, mem, -⟩ := (pointed_double x).mark
    exact List.ne_nil_of_mem mem
  | .int (.ofNat n) => simp [Number.text, digitsOf, Nat.toDigits_ne_nil]
  | .int (.negSucc n) => simp [Number.text]

theorem text_inj_int {m n : Int} (h : (Number.int m).text = (Number.int n).text) : m = n := by
  have sign (m n : Nat) : digitsOf m ≠ "-" ++ digitsOf n := by
    intro same
    have mem : '-' ∈ (digitsOf m).toList := by simp [same]
    exact absurd (isDigit_of_mem_digitsOf mem) (by decide)
  match m, n with
  | .ofNat m, .ofNat n => rw [digitsOf_inj h]
  | .ofNat m, .negSucc n => exact absurd h (sign _ _)
  | .negSucc m, .ofNat n => exact absurd h.symm (sign _ _)
  | .negSucc m, .negSucc n =>
    have same := congrArg String.toList h
    simp only [Number.text, String.toList_append, List.append_cancel_left_eq] at same
    rw [Nat.succ.inj (digitsOf_inj (String.toList_inj.1 same))]

/-- Numbers that are written the same are of one kind. -/
theorem Number.alike_of_text {m n : Number} (h : m.text = n.text) : m.Alike n := by
  match m, n with
  | .int m, .int n => exact text_inj_int h ▸ .int m
  | .double x, .double y => exact .double h
  | .int m, .double y => exact absurd (h ▸ pointed_double y) (not_pointed_int m)
  | .double x, .int n => exact absurd (h ▸ pointed_double x) (not_pointed_int n)

variable {v w : Json} {r s : List Char}

/-! ### Sequences -/

section

variable {α : Type} {f : α → List Char} {R : α → α → Prop} {close : Char} {xs ys : List α}

/-- The letters of a thing tell it from any other one, and where they end. -/
def Told (f : α → List Char) (R : α → α → Prop) (x : α) : Prop :=
  ∀ y r s, Bounded r → Bounded s → f x ++ r = f y ++ s → R x y ∧ r = s

theorem intercalate_cons (c : Char) (a : List Char) (l : List (List Char)) :
    [c].intercalate (a :: l) = a ++ l.flatMap (c :: ·) := by
  induction l generalizing a with
  | nil => simp
  | cons b l ih => rw [List.intercalate_cons_cons, ih]; simp

theorem told_rest (told : ∀ x ∈ xs, Told f R x) (comma : close ≠ ',')
    (bounded : isNumeral close = false)
    (h : (xs.map f).flatMap (',' :: ·) ++ close :: r =
      (ys.map f).flatMap (',' :: ·) ++ close :: s) :
    List.Forall₂ R xs ys ∧ r = s := by
  have ends (zs : List α) (t : List Char) :
      Bounded ((zs.map f).flatMap (',' :: ·) ++ close :: t) := by
    cases zs with
    | nil => exact bounded_cons bounded t
    | cons z zs => exact bounded_cons (by decide) _
  induction xs generalizing ys with
  | nil =>
    cases ys with
    | nil => exact ⟨.nil, (List.cons.inj h).2⟩
    | cons y ys => exact absurd (List.cons.inj h).1 comma
  | cons x xs ih =>
    cases ys with
    | nil => exact absurd (List.cons.inj h).1.symm comma
    | cons y ys =>
      simp only [List.map_cons, List.flatMap_cons, List.cons_append, List.append_assoc] at h
      obtain ⟨first, rest⟩ := told x List.mem_cons_self y _ _ (ends xs r) (ends ys s)
        (List.cons.inj h).2
      obtain ⟨others, same⟩ := ih (fun z mem => told z (List.mem_cons_of_mem x mem)) rest
      exact ⟨.cons first others, same⟩

/-- Between brackets and with commas between them, things are told apart if each one is. -/
theorem told_sequence (told : ∀ x ∈ xs, Told f R x) (comma : close ≠ ',')
    (bounded : isNumeral close = false) (opens : ∀ x, ∃ c rest, f x = c :: rest ∧ c ≠ close)
    (h : [','].intercalate (xs.map f) ++ close :: r =
      [','].intercalate (ys.map f) ++ close :: s) :
    List.Forall₂ R xs ys ∧ r = s := by
  cases xs with
  | nil =>
    cases ys with
    | nil => exact ⟨.nil, (List.cons.inj h).2⟩
    | cons y ys =>
      obtain ⟨c, rest, first, other⟩ := opens y
      rw [List.map_cons, intercalate_cons, first] at h
      exact absurd (List.cons.inj h).1.symm other
  | cons x xs =>
    cases ys with
    | nil =>
      obtain ⟨c, rest, first, other⟩ := opens x
      rw [List.map_cons, intercalate_cons, first] at h
      exact absurd (List.cons.inj h).1 other
    | cons y ys =>
      apply told_rest told comma bounded
      simpa only [List.map_cons, intercalate_cons, List.flatMap_cons, List.cons_append,
        List.append_assoc, List.cons.injEq, true_and] using h

end

/-! ### Values -/

/-- The kinds of values. -/
inductive Kind where
  | null
  | bool
  | num
  | str
  | arr
  | obj
  deriving DecidableEq

def kind : Json → Kind
  | .null => .null
  | .bool _ => .bool
  | .num _ => .num
  | .str _ => .str
  | .arr _ => .arr
  | .obj _ => .obj

/-- The kind of the values that begin with a letter. -/
def kindOf? (c : Char) : Option Kind :=
  if isNumeral c then some .num
  else if c = 'n' then some .null
  else if c = 't' ∨ c = 'f' then some .bool
  else if c = '"' then some .str
  else if c = '[' then some .arr
  else if c = '{' then some .obj
  else none

theorem letters_cons (v : Json) : ∃ c rest, v.letters = c :: rest ∧ kindOf? c = some v.kind := by
  cases v with
  | null => exact ⟨'n', ['u', 'l', 'l'], rfl, by decide⟩
  | bool b =>
    cases b with
    | true => exact ⟨'t', ['r', 'u', 'e'], rfl, by decide⟩
    | false => exact ⟨'f', ['a', 'l', 's', 'e'], rfl, by decide⟩
  | num n =>
    obtain ⟨c, rest, first⟩ := List.exists_cons_of_ne_nil (text_ne_nil n)
    have numeral : isNumeral c = true := numeral_text n c (by rw [first]; exact List.mem_cons_self)
    exact ⟨c, rest, first, by simp [kindOf?, numeral, kind]⟩
  | str s => exact ⟨'"', _, letters_str s, rfl⟩
  | arr items => exact ⟨'[', _, letters_arr items, rfl⟩
  | obj members => exact ⟨'{', _, letters_obj members, rfl⟩

theorem kind_eq_of_letters (h : v.letters ++ r = w.letters ++ s) : v.kind = w.kind := by
  obtain ⟨c, rest, first, hv⟩ := letters_cons v
  obtain ⟨d, rest', first', hw⟩ := letters_cons w
  rw [first, first'] at h
  obtain rfl := (List.cons.inj h).1
  exact Option.some.inj (hv.symm.trans hw)

theorem told_member {p : String × Json} (h : Told letters Alike p.2) :
    Told memberLetters (fun p q => p.1 = q.1 ∧ Alike p.2 q.2) p := by
  intro q r s hr hs same
  simp only [memberLetters, List.cons_append, List.append_assoc, List.cons.injEq, true_and] at same
  obtain ⟨key, rest⟩ := closed_append_inj same
  obtain ⟨value, ends⟩ := h q.2 r s hr hs (List.cons.inj rest).2
  exact ⟨⟨String.toList_inj.1 key, value⟩, ends⟩

/-- The letters of a value tell it up to the order of members, and where it ends. -/
theorem told (v : Json) : Told letters Alike v := by
  induction v using induct with
  | null =>
    intro w r s _ _ h
    cases w with
    | null => exact ⟨.null, List.append_cancel_left h⟩
    | _ => cases kind_eq_of_letters h
  | bool b =>
    intro w r s _ _ h
    cases w with
    | bool c =>
      have first : b = c := by
        cases b <;> cases c <;> first | rfl | exact absurd (List.cons.inj h).1 (by decide)
      subst first
      exact ⟨.bool b, List.append_cancel_left h⟩
    | _ => cases kind_eq_of_letters h
  | num m =>
    intro w r s hr hs h
    cases w with
    | num n =>
      obtain ⟨text, ends⟩ := numeral_append_inj (numeral_text m) (numeral_text n) hr hs h
      exact ⟨.num (Number.alike_of_text (String.toList_inj.1 text)), ends⟩
    | _ => cases kind_eq_of_letters h
  | str t =>
    intro w r s _ _ h
    cases w with
    | str u =>
      simp only [letters_str, List.cons_append, List.cons.injEq, true_and] at h
      obtain ⟨text, ends⟩ := closed_append_inj h
      exact ⟨String.toList_inj.1 text ▸ .str t, ends⟩
    | _ => cases kind_eq_of_letters h
  | arr items ih =>
    intro w r s _ _ h
    cases w with
    | arr others =>
      simp only [letters_arr, List.cons_append, List.append_assoc, List.cons.injEq,
        true_and] at h
      have opens (v : Json) : ∃ c rest, v.letters = c :: rest ∧ c ≠ ']' := by
        obtain ⟨c, rest, first, known⟩ := letters_cons v
        exact ⟨c, rest, first, by rintro rfl; cases known⟩
      obtain ⟨same, ends⟩ := told_sequence ih (by decide) (by decide) opens h
      exact ⟨.arr same, ends⟩
    | _ => cases kind_eq_of_letters h
  | obj members ih =>
    intro w r s _ _ h
    cases w with
    | obj others =>
      simp only [letters_obj, List.cons_append, List.append_assoc, List.cons.injEq,
        true_and] at h
      have each : ∀ p ∈ (Table.ofList members).entries,
          Told memberLetters (fun p q => p.1 = q.1 ∧ Alike p.2 q.2) p := fun p mem =>
        told_member (ih p (Table.mem_ofList mem))
      have opens (p : String × Json) : ∃ c rest, memberLetters p = c :: rest ∧ c ≠ '}' :=
        ⟨'"', _, rfl, by decide⟩
      obtain ⟨same, ends⟩ := told_sequence each (by decide) (by decide) opens h
      exact ⟨.obj (Table.rel_look_of_forall₂ same), ends⟩
    | _ => cases kind_eq_of_letters h

/-- Related things have the same texts if each text is one for all that is related. -/
theorem map_eq_map {α β γ : Type} {R : α → β → Prop} {f : α → γ} {g : β → γ} {xs : List α}
    {ys : List β} (h : List.Forall₂ R xs ys) (same : ∀ x ∈ xs, ∀ y, R x y → f x = g y) :
    xs.map f = ys.map g := by
  induction h with
  | nil => rfl
  | @cons x y xs ys first _ ih =>
    rw [List.map_cons, List.map_cons, same x List.mem_cons_self y first,
      ih fun z mem => same z (List.mem_cons_of_mem x mem)]

theorem Alike.canonical_eq (h : Alike v w) : v.canonical = w.canonical := by
  induction v using induct generalizing w with
  | null => cases h; rfl
  | bool b => cases h; rfl
  | num m =>
    cases h with
    | num same =>
      cases same with
      | int => rfl
      | double text => exact text
  | str s => cases h; rfl
  | arr items ih =>
    cases h with
    | arr same => rw [canonical_arr, canonical_arr, map_eq_map same fun v mem w => ih v mem]
  | obj members ih =>
    cases h with
    | @obj _ others same =>
      have pairs := Table.forall₂_of_get? (Table.ascending_ofList members)
        (Table.ascending_ofList others) same
      have texts := map_eq_map (f := fun p => quote p.1 ++ ":" ++ p.2.canonical)
        (g := fun p => quote p.1 ++ ":" ++ p.2.canonical) pairs fun p mem q alike => by
          rw [alike.1, ih p (Table.mem_ofList mem) alike.2]
      rw [canonical_obj, canonical_obj, texts]

/-- The canonical text tells a value up to the order of members. -/
theorem canonical_eq_canonical : v.canonical = w.canonical ↔ Alike v w := by
  constructor
  · intro h
    have letters : v.letters ++ [] = w.letters ++ [] := by
      simp only [letters, List.append_nil, h]
    exact (told v w [] [] bounded_nil bounded_nil letters).1
  · exact Alike.canonical_eq

end Json

end Tributary
