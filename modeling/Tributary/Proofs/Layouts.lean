import Tributary.Proofs.Spelling

/-!
# Values laid out over lines

Without the blanks between its literals, the text that lays a value out over lines is the compact
one (`squeezes_layout`). So values that are laid out alike have the same canonical text
(`canonical_of_pretty`).
-/

namespace Tributary.Json

/-- Where in a text a reader stands: between the literals, in one, or behind a backslash in one. -/
inductive Quoting where
  | outside
  | inside
  | escaped
  deriving DecidableEq

namespace Quoting

def next : Quoting → Char → Quoting
  | .outside, c => if c = '"' then .inside else .outside
  | .inside, c => if c = '"' then .outside else if c = '\\' then .escaped else .inside
  | .escaped, _ => .inside

/-- Where a reader stands after a text. -/
def after (m : Quoting) (s : List Char) : Quoting := s.foldl next m

/-- A text without the blanks between its literals. -/
def squeeze : Quoting → List Char → List Char
  | _, [] => []
  | m, c :: s =>
    if m = .outside ∧ (c = ' ' ∨ c = '\n') then squeeze (m.next c) s else c :: squeeze (m.next c) s

theorem squeeze_append (m : Quoting) (s t : List Char) :
    m.squeeze (s ++ t) = m.squeeze s ++ (m.after s).squeeze t := by
  induction s generalizing m with
  | nil => rfl
  | cons c s ih =>
    rw [List.cons_append, squeeze, squeeze, ih]
    split <;> rfl

theorem after_append (m : Quoting) (s t : List Char) :
    m.after (s ++ t) = (m.after s).after t := List.foldl_append

end Quoting

open Quoting

/-- Without the blanks between its literals, a text is another one, and no literal is left open. -/
structure Squeezes (s t : String) : Prop where
  text : outside.squeeze s.toList = t.toList
  closed : outside.after s.toList = outside

namespace Squeezes

variable {s t u v : String}

theorem append (h : Squeezes s t) (h' : Squeezes u v) : Squeezes (s ++ u) (t ++ v) where
  text := by rw [String.toList_append, squeeze_append, h.text, h.closed, h'.text,
    String.toList_append]
  closed := by rw [String.toList_append, after_append, h.closed, h'.closed]

/-- A text without blanks and quotation marks. -/
theorem of_plain (plain : ∀ c ∈ s.toList, c ≠ ' ' ∧ c ≠ '\n' ∧ c ≠ '"') : Squeezes s s := by
  have both : outside.squeeze s.toList = s.toList ∧ outside.after s.toList = outside := by
    generalize s.toList = letters at plain
    induction letters with
    | nil => exact ⟨rfl, rfl⟩
    | cons c rest ih =>
      obtain ⟨⟨space, feed, quote⟩, plain⟩ := List.forall_mem_cons.1 plain
      obtain ⟨text, closed⟩ := ih plain
      have stays : outside.next c = outside := if_neg quote
      refine ⟨?_, ?_⟩
      · simp [squeeze, space, feed, stays, text]
      · simpa [after, stays] using closed
  exact ⟨both.1, both.2⟩

/-- Blanks. -/
theorem of_blank (blank : ∀ c ∈ s.toList, c = ' ' ∨ c = '\n') : Squeezes s "" := by
  have both : outside.squeeze s.toList = [] ∧ outside.after s.toList = outside := by
    generalize s.toList = letters at blank
    induction letters with
    | nil => exact ⟨rfl, rfl⟩
    | cons c rest ih =>
      obtain ⟨first, blank⟩ := List.forall_mem_cons.1 blank
      obtain ⟨text, closed⟩ := ih blank
      have stays : outside.next c = outside := by rcases first with rfl | rfl <;> rfl
      refine ⟨?_, ?_⟩
      · simp [squeeze, first, stays, text]
      · simpa [after, stays] using closed
  exact ⟨both.1, both.2⟩

end Squeezes

/-- What stands for a character in a literal leaves the reader in it. -/
theorem squeeze_escape (c : Char) :
    inside.squeeze (escape c) = escape c ∧ inside.after (escape c) = inside := by
  by_cases special : c ∈ specials
  · have all : (specials.all fun c => decide (inside.squeeze (escape c) = escape c ∧
        inside.after (escape c) = inside)) = true := by
      decide
    simp only [List.all_eq_true, decide_eq_true_eq] at all
    exact all c special
  · rw [escape_of_not_special special]
    have quote : c ≠ '"' := fun same => special (same ▸ by decide)
    have backslash : c ≠ '\\' := fun same => special (same ▸ by decide)
    simp [squeeze, after, next, quote, backslash]

theorem squeeze_literal (s : List Char) :
    inside.squeeze (s.flatMap escape) = s.flatMap escape ∧
      inside.after (s.flatMap escape) = inside := by
  induction s with
  | nil => exact ⟨rfl, rfl⟩
  | cons c s ih =>
    obtain ⟨text, stays⟩ := squeeze_escape c
    rw [List.flatMap_cons, squeeze_append, after_append, text, stays, ih.1, ih.2]
    exact ⟨rfl, rfl⟩

theorem squeezes_quote (s : String) : Squeezes (quote s) (quote s) := by
  obtain ⟨text, stays⟩ := squeeze_literal s.toList
  have letters : (quote s).toList = '"' :: (s.toList.flatMap escape ++ ['"']) := by simp [quote]
  refine ⟨?_, ?_⟩
  · rw [letters, squeeze, if_neg (by decide)]
    show '"' :: inside.squeeze _ = _
    rw [squeeze_append, text, stays]
    rfl
  · rw [letters]
    show inside.after _ = _
    rw [after_append, stays]
    rfl

theorem squeezes_number (n : Number) : Squeezes n.text n.text := by
  refine .of_plain fun c mem => ?_
  have numeral := numeral_text n c mem
  refine ⟨?_, ?_, ?_⟩ <;> rintro rfl <;> cases numeral

/-! ## Containers -/

theorem squeezes_feed : Squeezes "\n" "" := .of_blank (by simp)

theorem squeezes_indent (depth : Nat) : Squeezes (indent depth) "" := by
  refine .of_blank fun c mem => .inl ?_
  rw [indent, String.toList_ofList] at mem
  exact (List.mem_replicate.1 mem).2

/-- Lines that are squeezed, with a comma and blanks between them. -/
theorem squeezes_lines {α : Type} {f g : α → String} {pad : String} (blank : Squeezes pad "")
    (xs : List α) (h : ∀ x ∈ xs, Squeezes (f x) (g x)) :
    Squeezes (("," ++ pad).intercalate (xs.map f)) (",".intercalate (xs.map g)) := by
  have comma : Squeezes ("," ++ pad) "," := by
    simpa only [String.append_empty] using (Squeezes.of_plain (by simp)).append blank
  induction xs with
  | nil => exact ⟨rfl, rfl⟩
  | cons x xs ih =>
    obtain ⟨first, others⟩ := List.forall_mem_cons.1 h
    cases xs with
    | nil => simpa using first
    | cons y xs =>
      rw [List.map_cons, List.map_cons, List.map_cons, List.map_cons,
        String.intercalate_cons_cons, String.intercalate_cons_cons, ← List.map_cons,
        ← List.map_cons]
      exact (first.append comma).append (ih others)

theorem squeezes_block {α : Type} {f g : α → String} {opening closing : String}
    (opens : Squeezes opening opening) (closes : Squeezes closing closing) (depth : Nat)
    (xs : List α) (h : ∀ x ∈ xs, Squeezes (f x) (g x)) :
    Squeezes (block opening closing depth (xs.map f))
      (opening ++ ",".intercalate (xs.map g) ++ closing) := by
  have pad : Squeezes ("\n" ++ indent (depth + 1)) "" :=
    squeezes_feed.append (squeezes_indent (depth + 1))
  have lines := squeezes_lines pad xs h
  cases xs with
  | nil => simpa [block] using opens.append closes
  | cons x xs =>
    have whole := ((((opens.append pad).append lines).append squeezes_feed).append
      (squeezes_indent depth)).append closes
    simp only [String.append_empty] at whole
    exact whole

theorem layoutItems_eq_map (items : List Json) (depth : Nat) :
    layoutItems items depth = items.map (layout · depth) := by
  induction items with
  | nil => rfl
  | cons item rest ih => rw [layoutItems, ih, List.map_cons]

theorem layoutMembers_eq_map (members : List (String × Json)) (depth : Nat) :
    layoutMembers members depth =
      members.map fun p => quote p.1 ++ ": " ++ p.2.layout depth := by
  induction members with
  | nil => rfl
  | cons p rest ih => rw [layoutMembers, ih, List.map_cons]

theorem squeezes_layout (v : Json) (depth : Nat) : Squeezes (v.layout depth) v.compact := by
  induction v using induct generalizing depth with
  | null => exact .of_plain (s := "null") (by simp)
  | bool b =>
    cases b with
    | false => exact .of_plain (s := "false") (by simp)
    | true => exact .of_plain (s := "true") (by simp)
  | num n => exact squeezes_number n
  | str s => exact squeezes_quote s
  | arr items ih =>
    rw [layout, compact, layoutItems_eq_map, compactItems_eq_map]
    exact squeezes_block (.of_plain (by simp)) (.of_plain (by simp)) depth items
      fun v mem => ih v mem _
  | obj members ih =>
    rw [layout, compact, layoutMembers_eq_map, compactMembers_eq_map]
    refine squeezes_block (.of_plain (by simp)) (.of_plain (by simp)) depth members
      fun p mem => ?_
    have colon : Squeezes ": " ":" := ⟨by decide, by decide⟩
    exact ((squeezes_quote p.1).append colon).append (ih p mem _)

/-- Values that are laid out alike have the same canonical text. -/
theorem canonical_of_pretty {v w : Json} (h : v.pretty = w.pretty) : v.canonical = w.canonical := by
  have squeezed (v : Json) : outside.squeeze v.pretty.toList = v.canonical.toList := by
    have ended := (squeezes_layout v.sorted 0).append squeezes_feed
    rw [String.append_empty] at ended
    exact ended.text
  have same := squeezed v
  rw [h, squeezed w] at same
  exact (String.toList_inj.1 same).symm

theorem pretty_ne_empty (v : Json) : v.pretty ≠ "" := by
  intro none
  have feed : '\n' ∈ v.pretty.toList := by simp [pretty]
  rw [none] at feed
  cases feed

end Tributary.Json
