/-!
# Edit scripts

A script turns one list of lines into another: lines that are kept, lines that are deleted
and lines that are inserted, in order. `source` and `target` read both lists off it.
-/

namespace Tributary.Diff

inductive Edit (α : Type) where
  | keep (lines : List α)
  | delete (lines : List α)
  | insert (lines : List α)
  deriving Repr

abbrev Script (α : Type) := List (Edit α)

variable {α : Type}

namespace Edit

/-- The lines of the first list that an edit uses up. -/
def source : Edit α → List α
  | .keep xs => xs
  | .delete xs => xs
  | .insert _ => []

/-- The lines of the second list that an edit makes. -/
def target : Edit α → List α
  | .keep xs => xs
  | .delete _ => []
  | .insert xs => xs

end Edit

namespace Script

def source (s : Script α) : List α := s.flatMap Edit.source

def target (s : Script α) : List α := s.flatMap Edit.target

@[simp] theorem source_nil : source ([] : Script α) = [] := rfl

@[simp] theorem target_nil : target ([] : Script α) = [] := rfl

@[simp] theorem source_cons (e : Edit α) (s : Script α) : source (e :: s) = e.source ++ source s :=
  rfl

@[simp] theorem target_cons (e : Edit α) (s : Script α) : target (e :: s) = e.target ++ target s :=
  rfl

@[simp] theorem source_append (s t : Script α) : source (s ++ t) = source s ++ source t :=
  List.flatMap_append

@[simp] theorem target_append (s t : Script α) : target (s ++ t) = target s ++ target t :=
  List.flatMap_append

end Script

/-- The edit that keeps some lines; none is needed for no lines. -/
def kept : List α → Script α
  | [] => []
  | xs => [.keep xs]

@[simp] theorem source_kept (xs : List α) : Script.source (kept xs) = xs := by
  cases xs <;> simp [kept, Edit.source]

@[simp] theorem target_kept (xs : List α) : Script.target (kept xs) = xs := by
  cases xs <;> simp [kept, Edit.target]

end Tributary.Diff
