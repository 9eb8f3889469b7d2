import Tributary.Aggregation.Basic
import Tributary.Record.Codec

/-!
# One list of owned entries

Joins the entry lists of the contributions in order of precedence and stamps each entry
with its owner. With a key, only the first entry of each key stays. One loop gathers the entries
and their positions; `EntryAggregator.aggregate_eq` says what it comes to.
-/

namespace Tributary

structure EntryAggregator (γ ε : Type) where
  read : List UInt8 → Option γ
  extract : γ → List ε
  dedupKey : Option (ε → String) := none

structure OwnedEntry (ε : Type) where
  entry : ε
  owner : Owner
  priority : Int

/-- Positions of entries under their owners, in the order of the owners. -/
abbrev OwnerIndex := List (Owner × List Nat)

/-- Adds a position behind those of its owner. -/
def OwnerIndex.add (owner : Owner) (i : Nat) : OwnerIndex → OwnerIndex
  | [] => [(owner, [i])]
  | (o, is) :: rest =>
    if owner = o then (o, is ++ [i]) :: rest
    else if owner.precedes o then (owner, [i]) :: (o, is) :: rest
    else (o, is) :: OwnerIndex.add owner i rest

structure EntryResult (ε : Type) where
  entries : List (OwnedEntry ε)
  byOwner : OwnerIndex
  owners : List Owner

namespace EntryAggregator

/-- All entries of a contribution. -/
def stamped (a : EntryAggregator γ ε) (source : Contribution) (config : γ) :
    List (OwnedEntry ε) :=
  (a.extract config).map (⟨·, source.owner, source.priority⟩)

/-- What has been gathered of the entries so far. -/
structure Gathered (ε : Type) where
  entries : List (OwnedEntry ε) := []
  byOwner : OwnerIndex := []
  /-- The keys of the entries, if entries have keys. -/
  seen : List String := []

/-- Puts an entry behind the others, and its position behind those of its owner. -/
def Gathered.push (g : Gathered ε) (e : OwnedEntry ε) : Gathered ε :=
  { g with entries := g.entries ++ [e], byOwner := g.byOwner.add e.owner g.entries.length }

/-- Takes the next entry in, unless its key has been seen. -/
def gather (a : EntryAggregator γ ε) (g : Gathered ε) (e : OwnedEntry ε) : Gathered ε :=
  match a.dedupKey with
  | none => g.push e
  | some key =>
    if g.seen.contains (key e.entry) then g
    else { g.push e with seen := key e.entry :: g.seen }

def aggregate (a : EntryAggregator γ ε) (sources : List Contribution) : EntryResult ε :=
  let read := Aggregation.decoded a.read sources
  let all := read.foldl (fun g (source, config) => (a.stamped source config).foldl a.gather g) {}
  { entries := all.entries, byOwner := all.byOwner, owners := read.map (·.1.owner) }

/-! ### What the loop comes to -/

/-- The entries whose key is none of those seen before. -/
def keepFirst (key : ε → String) (seen : List String) :
    List (OwnedEntry ε) → List (OwnedEntry ε)
  | [] => []
  | e :: rest =>
    if seen.contains (key e.entry) then keepFirst key seen rest
    else e :: keepFirst key (key e.entry :: seen) rest

/-- The entries that are kept of a list, after keys that have been seen before. -/
def kept (a : EntryAggregator γ ε) (seen : List String) (all : List (OwnedEntry ε)) :
    List (OwnedEntry ε) :=
  match a.dedupKey with
  | none => all
  | some key => keepFirst key seen all

/-- Adds the positions of entries that begin at a position. -/
def indexFrom (start : Nat) (entries : List (OwnedEntry ε)) (ix : OwnerIndex) : OwnerIndex :=
  (entries.zipIdx start).foldl (fun ix (e, i) => ix.add e.owner i) ix

def index (entries : List (OwnedEntry ε)) : OwnerIndex :=
  entries.zipIdx.foldl (fun ix (e, i) => ix.add e.owner i) []

/-- Taking entries in one after the other keeps and indexes the entries that are kept. -/
theorem foldl_gather (a : EntryAggregator γ ε) (g : Gathered ε) (all : List (OwnedEntry ε)) :
    (all.foldl a.gather g).entries = g.entries ++ a.kept g.seen all ∧
      (all.foldl a.gather g).byOwner =
        indexFrom g.entries.length (a.kept g.seen all) g.byOwner := by
  induction all generalizing g with
  | nil => cases keyed : a.dedupKey <;> simp [kept, keyed, keepFirst, indexFrom]
  | cons e rest ih =>
    obtain ⟨entries, byOwner⟩ := ih (a.gather g e)
    rw [List.foldl_cons, entries, byOwner]
    cases keyed : a.dedupKey with
    | none => simp [gather, kept, keyed, Gathered.push, indexFrom]
    | some key =>
      by_cases old : g.seen.contains (key e.entry) = true
      · simp only [gather, kept, keyed, keepFirst, old, if_true, and_self]
      · have new : ¬ key e.entry ∈ g.seen := by simpa using old
        simp [gather, kept, keyed, keepFirst, new, Gathered.push, indexFrom]

/-- The entries of all contributions are joined, thinned out and then indexed. -/
theorem aggregate_eq (a : EntryAggregator γ ε) (sources : List Contribution) :
    a.aggregate sources =
      let read := Aggregation.decoded a.read sources
      let entries := a.kept [] (read.flatMap fun (source, config) => a.stamped source config)
      { entries, byOwner := index entries, owners := read.map (·.1.owner) } := by
  have loop := foldl_gather a {} ((Aggregation.decoded a.read sources).flatMap
    fun (source, config) => a.stamped source config)
  rw [List.foldl_flatMap] at loop
  unfold aggregate
  dsimp only
  rw [loop.1, loop.2]
  rfl

end EntryAggregator

namespace EntryResult

/-- The entries at the positions of an owner. -/
def ownerEntries (r : EntryResult ε) (owner : Owner) : List (OwnedEntry ε) :=
  match r.byOwner.find? (·.1 = owner) with
  | none => []
  | some (_, is) => is.filterMap (r.entries[·]?)

/-- The entries of all other owners. Entries that the owner had displaced do not come back. -/
def removeOwner (r : EntryResult ε) (owner : Owner) : List (OwnedEntry ε) :=
  r.entries.filter (·.owner ≠ owner)

def entryJson (toJson : ε → Json) (e : OwnedEntry ε) : Json :=
  .obj [("entry", toJson e.entry), ("owner", e.owner.toJson), ("priority", .int e.priority)]

def aggregation (r : EntryResult ε) (toJson : ε → Json) : Aggregation :=
  ⟨(Json.arr (r.entries.map (entryJson toJson))).sorted, r.owners.length, r.owners⟩

end EntryResult

end Tributary
