import Mathlib.Data.List.Infix
import Tributary.Text.Search

/-!
# Occurrences

A phrase occurs in a text if it is a piece of it (`occurs_iff`), and a cut is made at the first
place where it stands: whatever stands behind one of its occurrences stands behind that one too
(`suffix_of_cut?`).
-/

namespace Tributary.Text

variable {phrase text before after front rest : List Char} {c : Char}

theorem cut?_eq_none_iff : cut? phrase text = none ↔ ¬ phrase <:+: text := by
  induction text with
  | nil => by_cases h : phrase = [] <;> simp [cut?, h]
  | cons c rest ih =>
    rw [cut?, List.infix_cons_iff, ← List.isPrefixOf_iff_prefix]
    split
    · next here => simp [here]
    · next elsewhere => simp [elsewhere, ih]

theorem occurs_iff : occurs phrase text ↔ phrase <:+: text := by
  rw [occurs, Option.isSome_iff_ne_none, ne_eq, cut?_eq_none_iff, not_not]

theorem exists_cut? (h : phrase <:+: text) :
    ∃ before after, cut? phrase text = some (before, after) := by
  obtain ⟨⟨before, after⟩, found⟩ := Option.isSome_iff_exists.1 (occurs_iff.2 h)
  exact ⟨before, after, found⟩

/-- The first occurrence has everything behind it that any occurrence has. -/
theorem suffix_of_cut? {b a : List Char} (first : cut? phrase text = some (before, after))
    (h : text = b ++ phrase ++ a) : a <:+ after := by
  induction text generalizing before b with
  | nil =>
    obtain ⟨rfl, rfl, rfl⟩ : b = [] ∧ phrase = [] ∧ a = [] := by simpa using h.symm
    exact List.nil_suffix
  | cons c rest ih =>
    have whole := eq_of_cut? first
    rw [cut?] at first
    split at first
    · have start : before = [] := by simp_all
      subst start
      have shorter := congrArg List.length (whole.symm.trans h)
      simp only [List.length_append, List.length_nil, Nat.zero_add] at shorter
      exact List.suffix_of_suffix_length_le ⟨b ++ phrase, h.symm⟩ ⟨[] ++ phrase, whole.symm⟩
        (by omega)
    · next elsewhere =>
      obtain ⟨⟨front, back⟩, found, same⟩ := Option.map_eq_some_iff.1 first
      obtain ⟨rfl, rfl⟩ := Prod.mk.inj same
      cases b with
      | nil => exact absurd (List.isPrefixOf_iff_prefix.2 ⟨a, by simpa using h.symm⟩) elsewhere
      | cons d b => exact ih found (List.cons.inj h).2

/-- A character that is looked for is not found in front of a text that lacks it. -/
theorem cut?_singleton_append (absent : c ∉ front) :
    cut? [c] (front ++ text) = (cut? [c] text).map fun cut => (front ++ cut.1, cut.2) := by
  induction front with
  | nil => simp
  | cons d front ih =>
    obtain ⟨other, absent⟩ := not_or.1 (mt List.mem_cons.2 absent)
    have elsewhere : ¬ [c].isPrefixOf (d :: (front ++ text)) := by simpa using other
    rw [List.cons_append, cut?, if_neg elsewhere, ih absent, Option.map_map]
    rfl

theorem cut?_singleton (absent : c ∉ before) :
    cut? [c] (before ++ c :: after) = some (before, after) := by
  simp [cut?_singleton_append absent, cut?]

/-- A phrase whose first character comes once in it cannot reach from the text before it into an
occurrence, so the occurrence is the first one if that text lacks it. -/
theorem cut?_append (once : c ∉ rest) (absent : ¬ c :: rest <:+: before) :
    cut? (c :: rest) (before ++ (c :: rest) ++ after) = some (before, after) := by
  induction before with
  | nil => simp [cut?]
  | cons d before ih =>
    rw [List.infix_cons_iff, not_or] at absent
    have elsewhere : ¬ (c :: rest).isPrefixOf (d :: (before ++ (c :: rest) ++ after)) := by
      rw [List.isPrefixOf_iff_prefix]
      rintro ⟨tail, all⟩
      have all : (c :: rest) ++ tail = (d :: before) ++ ((c :: rest) ++ after) := by simpa using all
      rcases List.append_eq_append_iff.1 all with ⟨inside, whole, -⟩ | ⟨overlap, across, behind⟩
      · exact absent.1 ⟨inside, whole.symm⟩
      · cases overlap with
        | nil => exact absent.1 ⟨[], by simpa using across⟩
        | cons e overlap =>
          -- The overlap begins as the occurrence does.
          obtain rfl : c = e := (List.cons.inj behind).1
          exact once ((List.cons.inj across).2 ▸ by simp)
    rw [List.cons_append, List.cons_append, cut?, if_neg elsewhere, ih absent.2]
    rfl

/-- The last occurrence of a character has nothing behind it that an earlier one lacks. -/
theorem suffix_of_last {b a : List Char} (absent : c ∉ after)
    (h : before ++ c :: after = b ++ c :: a) : after <:+ a := by
  rcases List.append_eq_append_iff.1 h with ⟨between, -, behind⟩ | ⟨between, -, behind⟩
  · cases between with
    | nil => exact (List.cons.inj behind).2 ▸ List.suffix_rfl
    | cons d between => exact absurd ((List.cons.inj behind).2 ▸ by simp) absent
  · cases between with
    | nil => exact (List.cons.inj behind).2 ▸ List.suffix_rfl
    | cons d between => exact ⟨between ++ [c], by simp [(List.cons.inj behind).2]⟩

theorem infix_of_infix_concat (other : c ∉ phrase) (h : phrase <:+: text ++ [c]) :
    phrase <:+: text := by
  rcases List.infix_concat_iff.1 h with last | inside
  · rcases List.eq_nil_or_concat phrase with rfl | ⟨front, d, rfl⟩
    · exact List.nil_infix
    · obtain ⟨b, whole⟩ := last
      have : d = c := by simpa using congrArg List.getLast? whole
      exact absurd (by simp [this]) other
  · exact inside

/-- Characters stand in a text in this order if the first of them does with the others behind it. -/
theorem cons_sublist_iff_exists : (c :: phrase).Sublist text ↔
    ∃ before after, text = before ++ c :: after ∧ phrase.Sublist after := by
  rw [List.cons_sublist_iff]
  constructor
  · rintro ⟨front, back, rfl, mem, others⟩
    obtain ⟨before, between, rfl⟩ := List.append_of_mem mem
    exact ⟨before, between ++ back, by simp, others.trans (List.sublist_append_right ..)⟩
  · rintro ⟨before, after, rfl, others⟩
    exact ⟨before ++ [c], after, by simp, by simp, others⟩

end Tributary.Text
