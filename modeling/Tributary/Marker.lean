import Tributary.Owner
import Tributary.Text.Search

/-!
# Ownership markers

An entry that the operator writes downstream carries `[managed-by:kind/namespace/name]`
in its free text. The marker is all that tells, from the downstream side, which entries
the operator may change or delete and which belong to somebody else.
-/

namespace Tributary.Marker

open Text

/-- How every bracketed marker begins. -/
def opening : List Char := "[managed-by:".toList

def closing : Char := ']'

/-- The marker of an owner, without its brackets. -/
def text (o : Owner) : String := "managed-by:" ++ o.text

/-- The marker of an owner, in its brackets. -/
def bracketed (o : Owner) : String := "[" ++ text o ++ "]"

/-- A description with the marker of an owner behind it, one space between them if there
is any description. -/
def append (o : Owner) (description : String) : String :=
  if description = "" then bracketed o else description ++ " " ++ bracketed o

/-- Whether a text carries the marker of this very owner. -/
def ownedBy (o : Owner) (s : String) : Bool := occurs (bracketed o).toList s.toList

/-- Whether a text carries the beginning of any marker. -/
def managed (s : String) : Bool := occurs opening s.toList

/-- The owner that is written between brackets: kind and name are not empty, and only the
name may hold further slashes. -/
def ownerOf (body : List Char) : Option Owner := do
  let (kind, rest) ← cut? ['/'] body
  let (namespaceName, name) ← cut? ['/'] rest
  if kind = [] ∨ name = [] then none
  else some ⟨String.ofList kind, String.ofList namespaceName, String.ofList name⟩

/-- The owner of the first marker of a text. -/
def parse (s : String) : Option Owner := do
  let (_, rest) ← cut? opening s.toList
  let (body, _) ← cut? [closing] rest
  ownerOf body

/-- The last space of a list, if it ends in one, is taken away. -/
def dropSpace (s : List Char) : List Char :=
  if s.getLast? = some ' ' then s.dropLast else s

/-- A text without its first complete marker and the space before that. -/
def removeFirst? (s : List Char) : Option (List Char) := do
  let (before, rest) ← cut? opening s
  let (_, after) ← cut? [closing] rest
  some (dropSpace before ++ after)

theorem length_dropSpace_le (s : List Char) : (dropSpace s).length ≤ s.length := by
  unfold dropSpace; split <;> simp

theorem removeFirst?_length {s t : List Char} (h : removeFirst? s = some t) :
    t.length < s.length := by
  simp only [removeFirst?, Option.bind_eq_bind, Option.bind_eq_some_iff, Prod.exists,
    Option.some.injEq] at h
  obtain ⟨before, rest, h₁, body, after, h₂, rfl⟩ := h
  have e₁ := eq_of_cut? h₁
  have e₂ := eq_of_cut? h₂
  have := length_dropSpace_le before
  rw [e₁, e₂]
  simp only [List.length_append, List.length_singleton]
  omega

/-- Removes markers, always the first one of what is left, until no complete one is there. -/
def stripChars (s : List Char) : List Char :=
  match h : removeFirst? s with
  | none => s
  | some t =>
    have := removeFirst?_length h
    stripChars t
termination_by s.length

/-- A text without its markers and the spaces before them. -/
def strip (s : String) : String := String.ofList (stripChars s.toList)

/-- The entries that stay downstream: those without a marker as they are, then the managed
ones. -/
def mergePreservingExternal {α : Type u} (describe : α → String)
    (managedEntries downstream : List α) : List α :=
  downstream.filter (fun entry => !managed (describe entry)) ++ managedEntries

end Tributary.Marker
