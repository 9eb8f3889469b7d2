import Tributary.Proofs.Markers

/-!
# Which texts carry a marker

What is read out of a text is the owner of a marker in it, and a text with a marker is recognised as
managed. The converse fails: a text in which a marker only begins is recognised as well, although
it is nobody's, and its entry is dropped (`entries_recognised`).
-/

namespace Tributary.Marker

open Text

variable {s : String} {before rest : List Char}

/-- A text with the marker of some owner. -/
def IsOwned (s : String) : Prop := ∃ o, ownedBy o s

/-- A text in which a marker begins that is nobody's: two slashes and then a closing bracket do not
follow. -/
def IsBroken (s : String) : Prop :=
  ∃ before rest, cut? opening s.toList = some (before, rest) ∧ ¬ ['/', '/', closing].Sublist rest

/-- It is enough to look behind the first beginning of a marker. -/
theorem isOwned_iff_of_cut? (first : cut? opening s.toList = some (before, rest)) :
    IsOwned s ↔ ['/', '/', closing].Sublist rest := by
  constructor
  · rintro ⟨o, owned⟩
    obtain ⟨b, after, whole⟩ := ownedBy_iff.1 owned
    have parts : o.text.toList ++ closing :: after = o.kind.toList ++
        '/' :: (o.namespaceName.toList ++ '/' :: (o.name.toList ++ closing :: after)) := by
      simp [toList_text]
    have named : ['/', '/', closing].Sublist (o.text.toList ++ closing :: after) := by
      rw [parts]
      refine cons_sublist_iff_exists.2 ⟨_, _, rfl, ?_⟩
      refine cons_sublist_iff_exists.2 ⟨_, _, rfl, ?_⟩
      exact cons_sublist_iff_exists.2 ⟨_, _, rfl, List.nil_sublist _⟩
    exact named.trans (suffix_of_cut? first whole).sublist
  · intro named
    obtain ⟨kind, behindKind, rfl, second⟩ := cons_sublist_iff_exists.1 named
    obtain ⟨namespaceName, behindSpace, rfl, third⟩ := cons_sublist_iff_exists.1 second
    obtain ⟨name, after, rfl, -⟩ := cons_sublist_iff_exists.1 third
    refine ⟨⟨String.ofList kind, String.ofList namespaceName, String.ofList name⟩,
      ownedBy_iff.2 ⟨before, after, ?_⟩⟩
    rw [eq_of_cut? first, toList_text]
    simp

theorem isBroken_iff_of_cut? (first : cut? opening s.toList = some (before, rest)) :
    IsBroken s ↔ ¬ ['/', '/', closing].Sublist rest := by
  simp [IsBroken, first]

theorem not_managed_iff : managed s = false ↔ cut? opening s.toList = none := by
  rw [managed, occurs, Option.isSome_eq_false_iff, Option.isNone_iff_eq_none]

instance : DecidablePred IsBroken := fun s =>
  match first : cut? opening s.toList with
  | none => isFalse fun ⟨_, _, found, _⟩ => by rw [first] at found; cases found
  | some (_, _) => decidable_of_iff _ (isBroken_iff_of_cut? first).symm

instance : DecidablePred IsOwned := fun s =>
  match first : cut? opening s.toList with
  | none => isFalse fun ⟨_, owned⟩ =>
    absurd (managed_of_ownedBy owned) (by simp [not_managed_iff.2 first])
  | some (_, _) => decidable_of_iff _ (isOwned_iff_of_cut? first).symm

theorem managed_iff_isOwned_or_isBroken : managed s ↔ IsOwned s ∨ IsBroken s := by
  constructor
  · intro found
    obtain ⟨before, rest, first⟩ := exists_cut? (managed_iff.1 found)
    rw [isOwned_iff_of_cut? first, isBroken_iff_of_cut? first]
    exact em _
  · rintro (⟨o, owned⟩ | ⟨before, rest, first, -⟩)
    · exact managed_of_ownedBy owned
    · exact managed_iff.2 ⟨before, rest, (eq_of_cut? first).symm⟩

theorem not_isOwned_of_isBroken (broken : IsBroken s) : ¬ IsOwned s := by
  obtain ⟨before, rest, first, unnamed⟩ := broken
  exact mt (isOwned_iff_of_cut? first).1 unnamed

/-- An entry is kept, in its place and as it is, unless a marker of somebody or of nobody begins in
its description. -/
theorem mergePreservingExternal_eq {α : Type u} (describe : α → String)
    (managedEntries downstream : List α) :
    mergePreservingExternal describe managedEntries downstream =
      downstream.filter (fun entry => ¬ IsOwned (describe entry) ∧ ¬ IsBroken (describe entry)) ++
        managedEntries := by
  unfold mergePreservingExternal
  congr 1
  refine List.filter_congr fun entry _ => ?_
  simp only [← not_or, ← managed_iff_isOwned_or_isBroken, Bool.not_eq_true, Bool.decide_eq_false]

/-- What is read is owned, and what is owned is recognised; what is recognised is owned unless the
marker is broken. -/
theorem entries_recognised {α : Type u} (describe : α → String)
    (managedEntries downstream : List α) :
    (∀ s o, parse s = some o → ownedBy o s) ∧ (∀ s o, ownedBy o s → managed s) ∧
      (∀ s, managed s → (IsOwned s ↔ ¬ IsBroken s)) ∧
      mergePreservingExternal describe managedEntries downstream =
        downstream.filter (fun entry => ¬ IsOwned (describe entry) ∧ ¬ IsBroken (describe entry)) ++
          managedEntries := by
  refine ⟨fun s o => ownedBy_of_parse, fun s o => managed_of_ownedBy, ?_,
    mergePreservingExternal_eq describe managedEntries downstream⟩
  intro s found
  constructor
  · exact fun owned broken => not_isOwned_of_isBroken broken owned
  · exact fun whole => (managed_iff_isOwned_or_isBroken.1 found).resolve_right whole

/-- A description that somebody has written by hand, and in which no marker is closed. -/
def brokenNote : String := "see [managed-by:broken"

/-- A description with the marker of an owner. -/
def webNote : String := "büro [managed-by:AccessRule/prod/web] (ü"

theorem webNote_recognised :
    parse webNote = some webRule ∧ ownedBy webRule webNote ∧ managed webNote ∧ ¬ IsBroken webNote ∧
      mergePreservingExternal id [] [webNote, "by hand", brokenNote] = ["by hand"] := by
  obtain ⟨owner, recognised, whole, merged⟩ :=
    entries_recognised id [] [webNote, "by hand", brokenNote]
  have parsed : parse webNote = some webRule := by decide
  have owned := owner _ _ parsed
  have found := recognised _ _ owned
  exact ⟨parsed, owned, found, (whole _ found).1 ⟨_, owned⟩, merged.trans (by decide)⟩

/-- A text that is recognised as managed need not be anybody's, and its entry is dropped. -/
theorem brokenNote_dropped :
    managed brokenNote ∧ (∀ o, ¬ ownedBy o brokenNote) ∧ parse brokenNote = none ∧
      mergePreservingExternal id [] [brokenNote] = [] := by
  have broken : IsBroken brokenNote := by decide
  exact ⟨by decide, fun o owned => not_isOwned_of_isBroken broken ⟨o, owned⟩, by decide, by decide⟩

end Tributary.Marker
