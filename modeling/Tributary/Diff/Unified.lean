import Tributary.Diff.Compact
import Tributary.Diff.Shortest

/-!
# Unified diffs

The differences of two texts, line by line, with three lines around each of them. Changes
that are at most six lines apart share a hunk.
-/

namespace Tributary.Diff

/-- The lines of a text, each with the line feed that ends it. -/
def linesOf : List Char → List (List Char)
  | [] => []
  | c :: rest =>
    if c = '\n' then [c] :: linesOf rest
    else
      match linesOf rest with
      | [] => [[c]]
      | line :: lines => (c :: line) :: lines

/-- Lines that stay, or lines that give way to others. -/
inductive Block (α : Type) where
  | same (lines : List α)
  | changed (removed added : List α)

variable {α : Type}

/-- Kept lines and changes in turn. -/
def blocks : Script α → List (Block α)
  | [] => []
  | .keep xs :: s =>
    match blocks s with
    | .same ys :: bs => .same (xs ++ ys) :: bs
    | bs => .same xs :: bs
  | .delete xs :: s =>
    match blocks s with
    | .changed removed added :: bs => .changed (xs ++ removed) added :: bs
    | bs => .changed xs [] :: bs
  | .insert xs :: s =>
    match blocks s with
    | .changed removed added :: bs => .changed removed (xs ++ added) :: bs
    | bs => .changed [] xs :: bs

/-- Blocks that are shown together, and how many lines of either text come before them. -/
structure Hunk (α : Type) where
  sourceStart : Nat
  targetStart : Nat
  shown : List (Block α)

def Block.sourceLines : Block α → List α
  | .same xs => xs
  | .changed removed _ => removed

def Block.targetLines : Block α → List α
  | .same xs => xs
  | .changed _ added => added

namespace Hunk

def sourceCount (h : Hunk α) : Nat := (h.shown.flatMap Block.sourceLines).length

def targetCount (h : Hunk α) : Nat := (h.shown.flatMap Block.targetLines).length

def add (h : Hunk α) (b : Block α) : Hunk α := { h with shown := h.shown ++ [b] }

/-- The hunk that begins with the last lines of a block behind this one. -/
def next (h : Hunk α) (context : Nat) (xs : List α) : Hunk α :=
  let skipped := xs.length - context
  { sourceStart := h.sourceStart + h.sourceCount + skipped
    targetStart := h.targetStart + h.targetCount + skipped
    shown := [.same (xs.drop skipped)] }

end Hunk

/-- The hunks of the blocks behind an open hunk. -/
def hunksAfter (context : Nat) (h : Hunk α) : List (Block α) → List (Hunk α)
  | [] => [h]
  | [.same xs] => [h.add (.same (xs.take context))]
  | .same xs :: rest =>
    if 2 * context < xs.length then
      h.add (.same (xs.take context)) :: hunksAfter context (h.next context xs) rest
    else hunksAfter context (h.add (.same xs)) rest
  | b :: rest => hunksAfter context (h.add b) rest

def hunks (context : Nat) : List (Block α) → List (Hunk α)
  | [] => []
  | [.same _] => []
  | .same xs :: rest => hunksAfter context (Hunk.next ⟨0, 0, []⟩ context xs) rest
  | blocks => hunksAfter context ⟨0, 0, []⟩ blocks

/-- The first line and the number of lines; an empty range names the line before it. -/
def rangeText (start count : Nat) : String :=
  if count = 1 then toString (start + 1)
  else if count = 0 then toString start ++ ",0"
  else toString (start + 1) ++ "," ++ toString count

/-- A line behind its mark. A line that has no end is given one, with a remark. -/
def lineText (mark : Char) (line : List Char) : String :=
  let text := String.ofList (mark :: line)
  if line.getLast? = some '\n' then text else text ++ "\n\\ No newline at end of file\n"

def Block.text : Block (List Char) → String
  | .same xs => String.join (xs.map (lineText ' '))
  | .changed removed added =>
    String.join (removed.map (lineText '-')) ++ String.join (added.map (lineText '+'))

def Hunk.text (h : Hunk (List Char)) : String :=
  "@@ -" ++ rangeText h.sourceStart h.sourceCount ++ " +" ++
    rangeText h.targetStart h.targetCount ++ " @@\n" ++ String.join (h.shown.map Block.text)

/-- The differences of two texts under two names; nothing if there are none. -/
def unified (sourceName targetName source target : String) : String :=
  let s := compact (script (linesOf source.toList) (linesOf target.toList))
  match hunks 3 (blocks s) with
  | [] => ""
  | hs => "--- " ++ sourceName ++ "\n+++ " ++ targetName ++ "\n" ++ String.join (hs.map Hunk.text)

end Tributary.Diff
