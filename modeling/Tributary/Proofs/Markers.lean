import Tributary.Marker
import Tributary.Proofs.Occurrences

/-!
# What a marker says

A marker behind a description names its owner, is taken away without a trace, and is taken for that
of no other owner (`marker_recovered`).
-/

namespace Tributary

/-- An owner whose marker says who it is: the fields have no slash and no bracket in them, and kind
and name are given. -/
structure Owner.IsPlain (o : Owner) : Prop where
  kind : o.kind ≠ ""
  name : o.name ≠ ""
  free : ∀ field ∈ [o.kind, o.namespaceName, o.name], ∀ c ∈ ['/', '[', ']'], c ∉ field.toList

namespace Marker

open Text

variable {o other : Owner} {s description : String} {t : List Char}

/-! ## The parts of a marker -/

/-- How a marker goes on behind its opening bracket. -/
def tag : List Char := "managed-by:".toList

theorem opening_eq : opening = '[' :: tag := rfl

theorem bracket_not_mem_tag : '[' ∉ tag := by decide

theorem toList_bracketed (o : Owner) :
    (bracketed o).toList = opening ++ (o.text.toList ++ [closing]) := by
  rw [bracketed, text]
  simp only [String.toList_append, List.append_assoc]
  rfl

/-- What stands between a description and the marker behind it. -/
def separator (description : String) : List Char := if description = "" then [] else [' ']

theorem toList_append (o : Owner) (description : String) :
    (append o description).toList =
      description.toList ++ separator description ++ opening ++ (o.text.toList ++ [closing]) := by
  unfold append separator
  split
  · next none => simp [none, toList_bracketed]
  · simp [toList_bracketed]

theorem dropSpace_separator (description : String) :
    dropSpace (description.toList ++ separator description) = description.toList := by
  unfold separator
  split
  · next none => simp [none, dropSpace]
  · simp [dropSpace]

theorem managed_iff : managed s ↔ opening <:+: s.toList := occurs_iff

theorem ownedBy_iff : ownedBy o s ↔
    ∃ before after, s.toList = before ++ opening ++ (o.text.toList ++ closing :: after) := by
  rw [ownedBy, occurs_iff, toList_bracketed]
  constructor
  · rintro ⟨before, after, whole⟩
    exact ⟨before, after, by simp [← whole]⟩
  · rintro ⟨before, after, whole⟩
    exact ⟨before, after, by simp [whole]⟩

theorem managed_of_ownedBy (h : ownedBy o s) : managed s := by
  obtain ⟨before, after, whole⟩ := ownedBy_iff.1 h
  exact managed_iff.2 ⟨before, _, whole.symm⟩

theorem ownedBy_append (o : Owner) (description : String) : ownedBy o (append o description) :=
  ownedBy_iff.2 ⟨_, [], toList_append o description⟩

theorem managed_append (o : Owner) (description : String) : managed (append o description) :=
  managed_of_ownedBy (ownedBy_append o description)

/-! ## Reading an owner -/

theorem toList_text (o : Owner) :
    o.text.toList = o.kind.toList ++ '/' :: (o.namespaceName.toList ++ '/' :: o.name.toList) := by
  simp [Owner.text]

theorem absent_text (plain : o.IsPlain) {c : Char} (h : c ∈ ['[', ']']) : c ∉ o.text.toList := by
  have absent (field) (mem : field ∈ [o.kind, o.namespaceName, o.name]) : c ∉ field.toList :=
    plain.free field mem c (List.mem_cons_of_mem _ h)
  have other : c ≠ '/' := by rintro rfl; revert h; decide
  rw [toList_text]
  simp [absent, other]

theorem ownerOf_text (plain : o.IsPlain) : ownerOf o.text.toList = some o := by
  have kind : '/' ∉ o.kind.toList := plain.free _ (by simp) _ (by simp)
  have namespaceName : '/' ∉ o.namespaceName.toList := plain.free _ (by simp) _ (by simp)
  simp [ownerOf, toList_text, cut?_singleton kind, cut?_singleton namespaceName, plain.kind,
    plain.name]

theorem text_of_ownerOf (h : ownerOf t = some o) : o.text.toList = t := by
  simp only [ownerOf, Option.bind_eq_bind, Option.bind_eq_some_iff, Prod.exists] at h
  obtain ⟨kind, rest, first, namespaceName, name, second, given⟩ := h
  split at given
  · cases given
  · obtain rfl := Option.some.inj given
    rw [toList_text, eq_of_cut? first, eq_of_cut? second]
    simp

theorem ownedBy_of_parse (h : parse s = some o) : ownedBy o s := by
  simp only [parse, Option.bind_eq_bind, Option.bind_eq_some_iff, Prod.exists] at h
  obtain ⟨before, rest, first, body, after, closed, owner⟩ := h
  refine ownedBy_iff.2 ⟨before, after, ?_⟩
  rw [eq_of_cut? first, eq_of_cut? closed, text_of_ownerOf owner]
  simp

/-! ## Taking markers away -/

/-- A marker has been closed: behind its beginning a closing bracket stands somewhere. -/
def Complete (t : List Char) : Prop :=
  ∃ before rest, t = before ++ opening ++ rest ∧ closing ∈ rest

theorem infix_of_complete (h : Complete t) : opening <:+: t := by
  obtain ⟨before, rest, whole, -⟩ := h
  exact ⟨before, rest, whole.symm⟩

/-- It is enough to look behind the first beginning of a marker. -/
theorem complete_iff_of_cut? {before rest : List Char}
    (first : cut? opening t = some (before, rest)) :
    Complete t ↔ closing ∈ rest := by
  constructor
  · rintro ⟨b, a, whole, closed⟩
    exact (suffix_of_cut? first whole).subset closed
  · exact fun closed => ⟨before, rest, eq_of_cut? first, closed⟩

theorem removeFirst?_eq (t : List Char) : removeFirst? t =
    (cut? opening t).bind fun opened =>
      (cut? [closing] opened.2).map fun closed => dropSpace opened.1 ++ closed.2 := by
  unfold removeFirst?
  cases cut? opening t with
  | none => rfl
  | some opened => cases closed : cut? [closing] opened.2 <;> simp [closed]

theorem removeFirst?_eq_none_iff : removeFirst? t = none ↔ ¬ Complete t := by
  rw [removeFirst?_eq]
  cases first : cut? opening t with
  | none =>
    have unbegun := cut?_eq_none_iff.1 first
    simp [mt infix_of_complete unbegun]
  | some opened =>
    rw [complete_iff_of_cut? first, ← List.singleton_infix_iff, ← cut?_eq_none_iff,
      Option.bind_some,
      Option.map_eq_none_iff]

theorem stripChars_eq_self (h : ¬ Complete t) : stripChars t = t := by
  have none := removeFirst?_eq_none_iff.2 h
  rw [stripChars]
  split
  · rfl
  · next some => rw [none] at some; cases some

theorem stripChars_of_removeFirst? {u : List Char} (h : removeFirst? t = some u) :
    stripChars t = stripChars u := by
  conv => lhs; rw [stripChars]
  split
  · next none => rw [none] at h; cases h
  · next v some =>
    obtain rfl := Option.some.inj (some.symm.trans h)
    rfl

theorem not_complete_stripChars (t : List Char) : ¬ Complete (stripChars t) := by
  fun_induction stripChars t with
  | case1 t none => exact removeFirst?_eq_none_iff.1 none
  | case2 t u some shorter ih => exact ih

theorem parse_eq_none (h : ¬ Complete s.toList) : parse s = none := by
  cases first : cut? opening s.toList with
  | none => simp [parse, first]
  | some cut =>
    obtain ⟨before, rest⟩ := cut
    have unclosed : cut? [closing] rest = none := by
      rw [cut?_eq_none_iff, List.singleton_infix_iff]
      exact mt (complete_iff_of_cut? first).2 h
    simp [parse, first, unclosed]

/-! ## The marker of an owner behind a description -/

theorem cut?_closing_text (plain : o.IsPlain) {after : List Char} :
    cut? [closing] (o.text.toList ++ closing :: after) = some (o.text.toList, after) :=
  cut?_singleton (absent_text plain (by simp [closing]))

theorem cut?_opening_append (unmarked : ¬ opening <:+: description.toList) :
    cut? opening (append o description).toList =
      some (description.toList ++ separator description, o.text.toList ++ [closing]) := by
  have absent : ¬ opening <:+: description.toList ++ separator description := by
    unfold separator
    split
    · simpa using unmarked
    · exact mt (infix_of_infix_concat (by decide)) unmarked
  rw [toList_append]
  exact cut?_append bracket_not_mem_tag absent

theorem removeFirst?_append (plain : o.IsPlain) (unmarked : ¬ opening <:+: description.toList) :
    removeFirst? (append o description).toList = some description.toList := by
  simp [removeFirst?, cut?_opening_append unmarked, cut?_closing_text plain, dropSpace_separator]

theorem parse_append (plain : o.IsPlain) (unmarked : ¬ opening <:+: description.toList) :
    parse (append o description) = some o := by
  simp [parse, cut?_opening_append unmarked, cut?_closing_text plain, ownerOf_text plain]

theorem eq_of_ownedBy_append (plain : o.IsPlain) (plain' : other.IsPlain)
    (unmarked : ¬ opening <:+: description.toList) (h : ownedBy other (append o description)) :
    other = o := by
  obtain ⟨before, after, whole⟩ := ownedBy_iff.1 h
  -- The owner's own marker is the first to begin and the last to begin.
  have first := suffix_of_cut? (cut?_opening_append unmarked) whole
  have begins : (description.toList ++ separator description) ++
      '[' :: (tag ++ (o.text.toList ++ [closing])) =
      before ++ '[' :: (tag ++ (other.text.toList ++ closing :: after)) := by
    simpa [opening_eq] using (toList_append o description).symm.trans whole
  have bracket : '[' ∉ tag ++ (o.text.toList ++ [closing]) := by
    simp [bracket_not_mem_tag, absent_text plain, closing]
  have last := (suffix_of_last bracket begins).length_le
  have same : other.text.toList ++ closing :: after = o.text.toList ++ [closing] :=
    first.eq_of_length_le (by simpa using last)
  have cuts := congrArg (cut? [closing]) same
  rw [cut?_closing_text plain', cut?_closing_text plain] at cuts
  have texts : other.text.toList = o.text.toList := (Prod.mk.inj (Option.some.inj cuts)).1
  have owners : some other = some o := by
    rw [← ownerOf_text plain', texts, ownerOf_text plain]
  exact Option.some.inj owners

theorem strip_append (plain : o.IsPlain) (unmarked : ¬ opening <:+: description.toList) :
    strip (append o description) = description := by
  rw [strip, stripChars_of_removeFirst? (removeFirst?_append plain unmarked),
    stripChars_eq_self (mt infix_of_complete unmarked), String.ofList_toList]

/-- A marker behind a description without one tells its owner, and it leaves nothing behind when it
is taken away. -/
theorem marker_recovered (o : Owner) (description : String) (plain : o.IsPlain)
    (unmarked : ¬ opening <:+: description.toList) :
    parse (append o description) = some o ∧ strip (append o description) = description ∧
      managed (append o description) ∧
      ∀ other : Owner, other.IsPlain → (ownedBy other (append o description) ↔ other = o) := by
  refine ⟨parse_append plain unmarked, strip_append plain unmarked,
    managed_append o description, ?_⟩
  intro other plain'
  constructor
  · exact eq_of_ownedBy_append plain plain' unmarked
  · rintro rfl
    exact ownedBy_append other description

end Marker

/-- An owner of a rule for a network. -/
def webRule : Owner := ⟨"AccessRule", "prod", "web"⟩

/-- An owner whose marker differs in its last characters only. -/
def webRuleTwin : Owner := ⟨"AccessRule", "prod", "web-2"⟩

/-- A description with brackets that do not match, and a space at its end. -/
def officeNote : String := "büro ] [managed-by [ "

theorem Marker.officeNote_recovered :
    webRule.IsPlain ∧ webRuleTwin.IsPlain ∧ ¬ opening <:+: officeNote.toList ∧
      parse (append webRule officeNote) = some webRule ∧
      strip (append webRule officeNote) = officeNote ∧ managed (append webRule officeNote) ∧
      ownedBy webRule (append webRule officeNote) ∧
      ¬ ownedBy webRuleTwin (append webRule officeNote) := by
  have plain : webRule.IsPlain := ⟨by decide, by decide, by simp [webRule]⟩
  have plain' : webRuleTwin.IsPlain := ⟨by decide, by decide, by simp [webRuleTwin]⟩
  have unmarked : ¬ opening <:+: officeNote.toList := by decide
  obtain ⟨parsed, stripped, found, owned⟩ := marker_recovered webRule officeNote plain unmarked
  exact ⟨plain, plain', unmarked, parsed, stripped, found, (owned _ plain).2 rfl,
    fun twin => absurd ((owned _ plain').1 twin) (by decide)⟩

end Tributary
