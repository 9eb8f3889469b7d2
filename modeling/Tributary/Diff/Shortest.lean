import Tributary.Diff.Script

/-!
# Shortest edit scripts

Searches from both ends of the two lists at once, by diagonals of the grid of positions,
until the two fronts meet; the meeting point splits the problem in two. What the lists have
in common at their beginnings and ends is kept before that.
-/

namespace Tributary.Diff

variable {α : Type} [BEq α]

/-- How many lines two lists have in common at their beginnings. -/
def agreement : List α → List α → Nat
  | a :: as, b :: bs => if a == b then agreement as bs + 1 else 0
  | _, _ => 0

/-- The furthest position in the first list that has been reached on each diagonal. -/
structure Front where
  offset : Nat
  reach : Array Nat

namespace Front

def start (depth : Nat) : Front := ⟨depth + 1, Array.replicate (2 * depth + 3) 0⟩

def get (f : Front) (k : Int) : Nat := f.reach.getD (k + f.offset).toNat 0

def set (f : Front) (k : Int) (x : Nat) : Front :=
  { f with reach := f.reach.setIfInBounds (k + f.offset).toNat x }

/-- Where a path with one more change enters diagonal `k`. -/
def enter (f : Front) (d : Nat) (k : Int) : Nat :=
  if k = -d ∨ (k ≠ d ∧ f.get (k - 1) < f.get (k + 1)) then f.get (k + 1) else f.get (k - 1) + 1

end Front

/-- Where a diagonal is entered and how far the lists then agree. -/
def slide (a b : List α) (f : Front) (d : Nat) (k : Int) : Nat × Nat :=
  let x := f.enter d k
  let y := (x - k).toNat
  (x, agreement (a.drop x) (b.drop y))

/-- The diagonals that `d` changes can reach. -/
def diagonals (d : Nat) : List Int := (List.range (d + 1)).map fun (i : Nat) => (d : Int) - 2 * i

structure Fronts where
  forward : Front
  backward : Front

/-- Moves the forward front on; a meeting point ends the search. -/
def forward (a b : List α) (d : Nat) (fs : Fronts) (k : Int) : Except (Nat × Nat) Fronts :=
  let delta : Int := a.length - b.length
  let (x, run) := slide a b fs.forward d k
  let front := fs.forward.set k (x + run)
  if delta % 2 ≠ 0 ∧ (k - delta).natAbs < d ∧
      a.length ≤ x + run + fs.backward.get (delta - k) then
    .error (x, (x - k).toNat)
  else .ok { fs with forward := front }

/-- Moves the backward front on, over the reversed lists. -/
def backward (a b : List α) (d : Nat) (fs : Fronts) (k : Int) : Except (Nat × Nat) Fronts :=
  let delta : Int := a.length - b.length
  let (x, run) := slide a.reverse b.reverse fs.backward d k
  let front := fs.backward.set k (x + run)
  if delta % 2 = 0 ∧ (k - delta).natAbs ≤ d ∧
      a.length ≤ x + run + fs.forward.get (delta - k) then
    .error (a.length - (x + run), b.length - ((x - k).toNat + run))
  else .ok { fs with backward := front }

def round (a b : List α) (fs : Fronts) (d : Nat) : Except (Nat × Nat) Fronts := do
  let fs ← (diagonals d).foldlM (forward a b d) fs
  (diagonals d).foldlM (backward a b d) fs

/-- A point of both lists through which a shortest script leads. -/
def meeting? (a b : List α) : Option (Nat × Nat) :=
  let depth := (a.length + b.length + 1) / 2 + 1
  match (List.range depth).foldlM (round a b) ⟨.start depth, .start depth⟩ with
  | .error point => some point
  | .ok _ => none

/-- Lists that differ at both ends, as long as `fuel` allows to split them. -/
def differing (recur : List α → List α → Script α) : List α → List α → Script α
  | [], [] => []
  | a, [] => [.delete a]
  | [], b => [.insert b]
  | a, b =>
    match meeting? a b with
    | some (x, y) => recur (a.take x) (b.take y) ++ recur (a.drop x) (b.drop y)
    | none => [.delete a, .insert b]

def scriptWithin : Nat → List α → List α → Script α
  | 0, a, b => [.delete a, .insert b]
  | fuel + 1, a, b =>
    let start := agreement a b
    let a' := a.drop start
    let b' := b.drop start
    let ending := agreement a'.reverse b'.reverse
    kept (a.take start) ++
      differing (scriptWithin fuel) (a'.take (a'.length - ending)) (b'.take (b'.length - ending)) ++
      kept (a'.drop (a'.length - ending))

/-- A shortest script from one list to another. -/
def script (a b : List α) : Script α := scriptWithin (a.length + b.length + 1) a b

end Tributary.Diff
