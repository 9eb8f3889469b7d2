import Tributary.Proofs.Encoding
import Tributary.Proofs.Markers

/-!
# Stripping a text

Markers are taken out of a text one by one, always the first that is complete, and the search begins
anew after each. On the bytes of the text this comes to an end after as many rounds as there is room
for markers, and no round cuts a character in two (`Stripping`); what is left has no complete marker
in it, and a text that has none stays as it is (`stripping_ends`).
-/

namespace Tributary.Marker

open Text

variable {s : String} {t u before rest body after : List Char}

/-! ## Rounds -/

/-- The offsets of one round: the marker begins at `start`, and the bytes from `left` up to `right`
are taken out. -/
structure Cut where
  start : Nat
  left : Nat
  right : Nat

/-- The first beginning of a marker, the first closing bracket from there on, and the space before
the marker. -/
def cutOf? (bytes : List UInt8) : Option Cut := do
  let start ← offset? (utf8 opening) bytes
  let length ← offset? (utf8 [closing]) (bytes.drop start)
  let left := if (bytes.take start).getLast? = some (byte ' ') then start - 1 else start
  some ⟨start, left, start + length + 1⟩

def Cut.remaining (cut : Cut) (bytes : List UInt8) : List UInt8 :=
  bytes.take cut.left ++ bytes.drop cut.right

/-- No offset of a round lies inside a character. -/
structure Cut.IsClean (cut : Cut) (s : String) : Prop where
  start : String.Pos.Raw.IsValid s ⟨cut.start⟩
  left : String.Pos.Raw.IsValid s ⟨cut.left⟩
  right : String.Pos.Raw.IsValid s ⟨cut.right⟩

/-- A text becomes another in a number of clean rounds, and no further one can be made. Where a
marker begins that is never closed, the last search goes on from there. -/
inductive Stripping : Nat → String → String → Prop
  | done {s : String} (none : cutOf? s.toUTF8.toList = none)
      (clean : ∀ start, offset? (utf8 opening) s.toUTF8.toList = some start →
        String.Pos.Raw.IsValid s ⟨start⟩) : Stripping 0 s s
  | again {n : Nat} {s t u : String} {cut : Cut} (found : cutOf? s.toUTF8.toList = some cut)
      (clean : cut.IsClean s) (removed : t.toUTF8.toList = cut.remaining s.toUTF8.toList)
      (further : Stripping n t u) : Stripping (n + 1) s u

/-! ## Rounds on characters -/

theorem isAscii_opening : ∀ c ∈ opening, IsAscii c := by
  have all : opening.all (IsAscii ·) := by decide
  simpa only [List.all_eq_true, decide_eq_true_eq] using all

theorem isAscii_closing : ∀ c ∈ [closing], IsAscii c := by
  rw [List.forall_mem_singleton]
  decide

theorem opening_ne_nil : opening ≠ [] := by decide

theorem closing_not_mem_opening : closing ∉ opening := by decide

theorem dropSpace_prefix (t : List Char) : dropSpace t <+: t := by
  unfold dropSpace
  split
  · exact List.dropLast_prefix t
  · exact List.prefix_rfl

theorem length_utf8_dropSpace (t : List Char) :
    (if (utf8 t).getLast? = some (byte ' ') then (utf8 t).length - 1 else (utf8 t).length) =
      (utf8 (dropSpace t)).length := by
  have space : IsAscii ' ' := by decide
  simp only [getLast?_utf8 space, dropSpace]
  split
  · next last =>
    obtain ⟨front, rfl⟩ := List.getLast?_eq_some_iff.1 last
    simp [encode_of_isAscii space]
  · rfl

/-- The offsets of the round that takes out the marker behind a text. -/
def cutAt (before body : List Char) : Cut where
  start := (utf8 before).length
  left := (utf8 (dropSpace before)).length
  right := (utf8 (before ++ opening ++ body ++ [closing])).length

/-- A text in which a marker has been found. -/
structure Found (t before body after : List Char) : Prop where
  opened : cut? opening t = some (before, body ++ [closing] ++ after)
  closed : cut? [closing] (body ++ [closing] ++ after) = some (body, after)

theorem exists_found (h : removeFirst? t = some u) :
    ∃ before body after, Found t before body after ∧ u = dropSpace before ++ after := by
  simp only [removeFirst?, Option.bind_eq_bind, Option.bind_eq_some_iff, Prod.exists,
    Option.some.injEq] at h
  obtain ⟨before, rest, opened, body, after, closed, rfl⟩ := h
  obtain rfl := eq_of_cut? closed
  exact ⟨before, body, after, ⟨opened, closed⟩, rfl⟩

namespace Found

theorem whole (found : Found t before body after) :
    t = before ++ opening ++ (body ++ [closing] ++ after) := eq_of_cut? found.opened

theorem length_le (found : Found t before body after) :
    (dropSpace before ++ after).length + (opening.length + 1) ≤ t.length := by
  have shorter := length_dropSpace_le before
  have whole := congrArg List.length found.whole
  simp only [List.length_append, List.length_singleton] at whole ⊢
  omega

theorem front (found : Found t before body after) : ∃ rest, t = dropSpace before ++ rest := by
  obtain ⟨space, split⟩ := dropSpace_prefix before
  refine ⟨space ++ (opening ++ (body ++ [closing] ++ after)), ?_⟩
  rw [← List.append_assoc, split, ← List.append_assoc, ← found.whole]

theorem back (found : Found t before body after) :
    t = before ++ opening ++ body ++ [closing] ++ after := by
  rw [List.append_assoc _ body, List.append_assoc _ (body ++ [closing]), ← found.whole]

theorem isClean (found : Found s.toList before body after) : (cutAt before body).IsClean s where
  start := isValid_of_append (found.whole.trans (List.append_assoc ..))
  left := by
    obtain ⟨rest, split⟩ := found.front
    exact isValid_of_append split
  right := isValid_of_append found.back

theorem remaining (found : Found t before body after) :
    (cutAt before body).remaining (utf8 t) = utf8 (dropSpace before ++ after) := by
  obtain ⟨rest, split⟩ := found.front
  have front : (utf8 t).take (utf8 (dropSpace before)).length = utf8 (dropSpace before) := by
    rw [split, utf8_append, List.take_left]
  have back : (utf8 t).drop (utf8 (before ++ opening ++ body ++ [closing])).length =
      utf8 after := by
    conv => lhs; rw [found.back, utf8_append (t := after), List.drop_left]
  rw [Cut.remaining, cutAt, front, back, utf8_append]

end Found

/-- On the bytes of a text the offsets are found where the marker is found in its characters. -/
theorem cutOf?_utf8 (t : List Char) : cutOf? (utf8 t) =
    (cut? opening t).bind fun opened =>
      (cut? [closing] opened.2).map fun closed => cutAt opened.1 closed.1 := by
  have searched := offset?_utf8 opening_ne_nil isAscii_opening (s := t)
  cases opened : cut? opening t with
  | none =>
    rw [opened, Option.map_none] at searched
    rw [cutOf?, searched]
    rfl
  | some cut =>
    obtain ⟨before, rest⟩ := cut
    rw [opened, Option.map_some] at searched
    have parts : utf8 t = utf8 before ++ utf8 (opening ++ rest) := by
      rw [← utf8_append, ← List.append_assoc, ← eq_of_cut? opened]
    have closed : offset? (utf8 [closing]) (utf8 (opening ++ rest)) =
        (cut? [closing] rest).map fun cut => (utf8 (opening ++ cut.1)).length := by
      rw [offset?_utf8 (by decide) isAscii_closing, cut?_singleton_append closing_not_mem_opening,
        Option.map_map]
      rfl
    rw [cutOf?, searched, Option.bind_eq_bind, Option.bind_some, parts, List.drop_left, closed,
      List.take_left, Option.bind_some]
    cases cut? [closing] rest with
    | none => rfl
    | some cut =>
      have bracket : (utf8 [closing]).length = 1 := by decide
      have right : (utf8 before).length + (utf8 (opening ++ cut.1)).length + 1 =
          (utf8 (before ++ opening ++ cut.1 ++ [closing])).length := by
        simp only [utf8_append, List.length_append, bracket]
        omega
      simp only [Option.map_some, Option.bind_some, length_utf8_dropSpace, right, cutAt]

theorem cutOf?_eq_none (h : removeFirst? t = none) : cutOf? (utf8 t) = none := by
  simpa only [removeFirst?_eq, cutOf?_utf8, Option.bind_eq_none_iff, Option.map_eq_none_iff] using h

theorem isValid_of_offset? {start : Nat}
    (h : offset? (utf8 opening) s.toUTF8.toList = some start) :
    String.Pos.Raw.IsValid s ⟨start⟩ := by
  rw [toUTF8_toList, offset?_utf8 opening_ne_nil isAscii_opening, Option.map_eq_some_iff] at h
  obtain ⟨cut, opened, rfl⟩ := h
  exact isValid_of_append ((eq_of_cut? opened).trans (List.append_assoc ..))

/-- The rounds come to an end, and there are no more of them than markers have room in the text. -/
theorem exists_stripping (t : List Char) :
    ∃ rounds, Stripping rounds (String.ofList t) (String.ofList (stripChars t)) ∧
      (opening.length + 1) * rounds ≤ t.length := by
  fun_induction stripChars t with
  | case1 t none =>
    refine ⟨0, .done ?_ fun start => isValid_of_offset?, by simp⟩
    rw [toUTF8_toList, String.toList_ofList, cutOf?_eq_none none]
  | case2 t u some shorter ih =>
    obtain ⟨before, body, after, found, rfl⟩ := exists_found some
    obtain ⟨rounds, further, few⟩ := ih
    have found' : Found (String.ofList t).toList before body after := by
      rwa [String.toList_ofList]
    refine ⟨rounds + 1, .again ?_ found'.isClean ?_ further, ?_⟩
    · rw [toUTF8_toList, cutOf?_utf8, found'.opened, Option.bind_some, found'.closed]
      rfl
    · rw [toUTF8_toList, toUTF8_toList, found'.remaining, String.toList_ofList]
    · have := found.length_le
      rw [Nat.mul_add, Nat.mul_one]
      omega

/-! ## What is left -/

theorem strip_eq_self (h : ¬ Complete s.toList) : strip s = s := by
  rw [strip, stripChars_eq_self h, String.ofList_toList]

theorem not_complete_strip (s : String) : ¬ Complete (strip s).toList := by
  rw [strip, String.toList_ofList]
  exact not_complete_stripChars s.toList

/-- Stripping comes to an end, leaves no complete marker and changes no text without one. -/
theorem stripping_ends (s : String) :
    (∃ rounds, Stripping rounds s (strip s) ∧ (opening.length + 1) * rounds ≤ s.length) ∧
      ¬ Complete (strip s).toList ∧ parse (strip s) = none ∧ strip (strip s) = strip s ∧
      (¬ Complete s.toList → strip s = s) := by
  have clean := not_complete_strip s
  refine ⟨?_, clean, parse_eq_none clean, strip_eq_self clean, strip_eq_self⟩
  simpa only [strip, String.ofList_toList, String.length_toList] using exists_stripping s.toList

/-- What stands around the marker of one owner is the marker of another once that is taken out. -/
def nestedNote : String := "büro [managed[managed-by:a/b/c]-by:d/e/f] (ü"

/-- No marker is closed here. -/
def openNote : String := "büro ] [managed-by:a/b/c [managed-by:"

theorem nestedNote_stripped :
    strip nestedNote = "büro (ü" ∧ ¬ Complete (strip nestedNote).toList ∧
      parse (strip nestedNote) = none ∧ strip (strip nestedNote) = strip nestedNote ∧
      ¬ Complete openNote.toList ∧ strip openNote = openNote := by
  have first : removeFirst? nestedNote.toList = some "büro [managed-by:d/e/f] (ü".toList := by
    decide
  have second : removeFirst? "büro [managed-by:d/e/f] (ü".toList = some "büro (ü".toList := by
    decide
  have last : ¬ Complete "büro (ü".toList := removeFirst?_eq_none_iff.1 (by decide)
  have stripped : strip nestedNote = "büro (ü" := by
    rw [strip, stripChars_of_removeFirst? first, stripChars_of_removeFirst? second,
      stripChars_eq_self last, String.ofList_toList]
  have unclosed : ¬ Complete openNote.toList := removeFirst?_eq_none_iff.1 (by decide)
  obtain ⟨-, clean, unread, twice, -⟩ := stripping_ends nestedNote
  obtain ⟨-, -, -, -, kept⟩ := stripping_ends openNote
  exact ⟨stripped, clean, unread, twice, unclosed, kept unclosed⟩

end Tributary.Marker
