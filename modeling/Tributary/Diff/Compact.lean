import Tributary.Diff.Script

/-!
# Compact scripts

Joins edits of one kind that are scattered. Deletions are gathered behind the insertions
next to them. An insertion is moved up through the kept lines as long as it stays the same
insertion, that is while the line before it equals its own last line, which joins it to
insertions before it; then it is moved down as far as it goes.
-/

namespace Tributary.Diff

variable {α : Type} [BEq α]

/-- Kept lines in front of a script. -/
def keepThen : List α → Script α → Script α
  | [], s => s
  | xs, .keep ys :: s => .keep (xs ++ ys) :: s
  | xs, s => .keep xs :: s

/-- Kept lines behind a script that is listed backwards. -/
def thenKeep : List α → Script α → Script α
  | [], s => s
  | xs, .keep ys :: s => .keep (ys ++ xs) :: s
  | xs, s => .keep xs :: s

/-- Moves an insertion up over kept lines, the last of which comes first. -/
def slideUp : List α → List α → List α → List α × List α × List α
  | [], ins, below => ([], ins, below)
  | k :: above, ins, below =>
    match ins.getLast? with
    | some x => if k == x then slideUp above (k :: ins.dropLast) (k :: below)
      else (k :: above, ins, below)
    | none => (k :: above, ins, below)

/-- Moves an insertion down over kept lines; those it has passed are listed backwards. -/
def slideDown : List α → List α → List α → List α × List α × List α
  | above, ins, [] => (above, ins, [])
  | above, ins, k :: below =>
    match ins with
    | x :: rest => if k == x then slideDown (k :: above) (rest ++ [k]) below
      else (above, ins, k :: below)
    | [] => (above, ins, k :: below)

/-- An insertion between the edits above it, listed backwards, and those below. -/
structure Spot (α : Type) where
  above : Script α
  inserted : List α
  below : Script α

def moveUp : Script α → List α → Script α → Spot α
  | [], ins, below => ⟨[], ins, below⟩
  | .keep xs :: above, ins, below =>
    match slideUp xs.reverse ins [] with
    | ([], ins, passed) => moveUp above ins (keepThen passed below)
    | (left, ins, passed) => ⟨.keep left.reverse :: above, ins, keepThen passed below⟩
  | .delete xs :: above, ins, below => moveUp above ins (.delete xs :: below)
  | .insert xs :: above, ins, below => moveUp above (xs ++ ins) below

def moveDown : Script α → List α → Script α → Spot α
  | above, ins, [] => ⟨above, ins, []⟩
  | above, ins, .keep xs :: below =>
    match slideDown [] ins xs with
    | (passed, ins, []) => moveDown (thenKeep passed.reverse above) ins below
    | (passed, ins, left) => ⟨thenKeep passed.reverse above, ins, .keep left :: below⟩
  | above, ins, .delete xs :: below => moveDown (.delete xs :: above) ins below
  | above, ins, .insert xs :: below => moveDown above (ins ++ xs) below

/-- Moves at most so many insertions to their places, `above` being done. -/
def settle : Nat → Script α → Script α → Script α
  | 0, above, below => above.reverse ++ below
  | _ + 1, above, [] => above.reverse
  | n + 1, above, .insert xs :: below =>
    let up := moveUp above xs below
    let down := moveDown up.above up.inserted up.below
    settle n (.insert down.inserted :: down.above) down.below
  | n + 1, above, e :: below => settle n (e :: above) below

/-- Deletions behind the insertions next to them, as one deletion. `ins` and `del` are those
of the edits since the last kept line, the insertions listed backwards. -/
def gather (ins : Script α) (del : List α) : Script α → Script α
  | [] => ins.reverse ++ if del.isEmpty then [] else [.delete del]
  | .insert xs :: s => gather (.insert xs :: ins) del s
  | .delete xs :: s => gather ins (del ++ xs) s
  | .keep xs :: s =>
    ins.reverse ++ (if del.isEmpty then [] else [.delete del]) ++ .keep xs :: gather [] [] s

/-- The lines and edits of a script bound the moves that compacting takes. -/
def moves (s : Script α) : Nat :=
  s.length + s.source.length + s.target.length

def compact (s : Script α) : Script α :=
  let s := gather [] [] s
  settle (moves s) [] s

end Tributary.Diff
