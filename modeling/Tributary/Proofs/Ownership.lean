import Mathlib.Data.List.Induction
import Mathlib.Data.List.Sort
import Tributary.Proofs.Rankings

/-!
# Entries and their owners

A list of owned entries is what the contributions bring along, in order of precedence; with a key,
the first entry of each key stays. The positions of the list are divided among the owners of the
entries, so that the entries of one owner and those of all others make up the list again
(`entries_owned`).
-/

namespace Tributary

/-! ## The order of owners -/

namespace Owner

variable {a b c : Owner}

theorem not_precedes_self : ¬ a.precedes a := by
  rw [precedes, if_pos rfl, if_pos rfl, decide_eq_true_iff]
  exact String.lt_irrefl _

theorem precedes_trans (ab : a.precedes b) (bc : b.precedes c) : a.precedes c := by
  unfold precedes at *
  grind [String.lt_trans]

theorem precedes_or (other : a ≠ b) : a.precedes b ∨ b.precedes a := by
  have apart {x y : String} (h : x ≠ y) : x < y ∨ y < x := by
    by_cases before : x < y
    · exact .inl before
    · refine .inr (Decidable.of_not_not fun after => h ?_)
      exact String.le_antisymm (String.not_lt.1 after) (String.not_lt.1 before)
  obtain ⟨kind, space, name⟩ := a
  obtain ⟨kind', space', name'⟩ := b
  unfold precedes
  by_cases hk : kind = kind'
  · by_cases hs : space = space'
    · have hn : name ≠ name' := fun hn => other (by rw [hk, hs, hn])
      simpa [hk, hs] using apart hn
    · simpa [hk, hs, Ne.symm hs] using apart hs
  · simpa [hk, Ne.symm hk] using apart hk

end Owner

/-! ## What is kept -/

section Kept

variable {α γ ε : Type}

/-- Those whose key is not the key of any before them. -/
def firsts (key : α → String) (all : List α) : List α :=
  (all.zipIdx.filter fun e : α × Nat => ∀ f ∈ all.take e.2, key f ≠ key e.1).map (·.1)

theorem firsts_append (key : α → String) (all : List α) (e : α) :
    firsts key (all ++ [e]) =
      firsts key all ++ if ∃ f ∈ all, key f = key e then [] else [e] := by
  have inside : ∀ p ∈ all.zipIdx, (all ++ [e]).take p.2 = all.take p.2 := fun p mem =>
    List.take_append_of_le_length (List.mem_zipIdx' mem).1.le
  unfold firsts
  rw [List.zipIdx_append, List.filter_append, List.map_append]
  congr 1
  · congr 1
    refine List.filter_congr fun p mem => ?_
    rw [inside p mem]
  · by_cases known : ∃ f ∈ all, key f = key e
    · simp [known]
    · have new : ∀ f ∈ all, ¬ key f = key e := fun f mem same => known ⟨f, mem, same⟩
      rw [if_neg known, List.zipIdx_singleton, List.filter_cons]
      simp [if_pos new]

namespace EntryAggregator

/-- The entries of a contribution, with its owner and its priority; none if it cannot be read. -/
def brought (a : EntryAggregator γ ε) (s : Contribution) : List (OwnedEntry ε) :=
  match Aggregation.decode a.read s with
  | none => []
  | some (_, config) => (a.extract config).map (⟨·, s.owner, s.priority⟩)

/-- The entries of all contributions, in order of precedence. -/
def gathered (a : EntryAggregator γ ε) (sources : List Contribution) : List (OwnedEntry ε) :=
  (Aggregation.byPriority sources).flatMap a.brought

theorem entries_aggregate (a : EntryAggregator γ ε) (sources : List Contribution) :
    (a.aggregate sources).entries = match a.dedupKey with
      | none => a.gathered sources
      | some key => keepFirst key [] (a.gathered sources) := by
  have all : ((Aggregation.decoded a.read sources).flatMap fun known =>
      a.stamped known.1 known.2) = a.gathered sources := by
    unfold Aggregation.decoded gathered
    induction Aggregation.byPriority sources with
    | nil => rfl
    | cons s rest ih =>
      rw [List.filterMap_cons, List.flatMap_cons, ← ih, brought]
      cases read : Aggregation.decode a.read s with
      | none => rfl
      | some known => simp [stamped, fst_of_decode read]
  rw [← all, aggregate_eq]
  rfl

variable {key : ε → String} {seen : List String} {all : List (OwnedEntry ε)}

theorem mem_of_mem_keepFirst {e : OwnedEntry ε} (h : e ∈ keepFirst key seen all) :
    e ∈ all ∧ key e.entry ∉ seen := by
  induction all generalizing seen with
  | nil => cases h
  | cons f rest ih =>
    unfold keepFirst at h
    split at h
    · exact (ih h).imp_left (List.mem_cons_of_mem f)
    · next new =>
      rcases List.mem_cons.1 h with rfl | later
      · exact ⟨List.mem_cons_self, by simpa using new⟩
      · obtain ⟨mem, unseen⟩ := ih later
        exact ⟨List.mem_cons_of_mem f mem, fun old => unseen (List.mem_cons_of_mem _ old)⟩

/-- No key stays twice. -/
theorem distinct_keepFirst : ((keepFirst key seen all).map (key ·.entry)).Nodup := by
  induction all generalizing seen with
  | nil => exact .nil
  | cons e rest ih =>
    unfold keepFirst
    split
    · exact ih
    · refine List.nodup_cons.2 ⟨fun again => ?_, ih⟩
      obtain ⟨f, mem, same⟩ := List.mem_map.1 again
      exact (mem_of_mem_keepFirst mem).2 (same ▸ List.mem_cons_self)

/-- Every key that has not been seen before stays. -/
theorem present_keepFirst {e : OwnedEntry ε} (mem : e ∈ all) (unseen : key e.entry ∉ seen) :
    ∃ f ∈ keepFirst key seen all, key f.entry = key e.entry := by
  induction all generalizing seen with
  | nil => cases mem
  | cons f rest ih =>
    unfold keepFirst
    split
    · next old =>
      rcases List.mem_cons.1 mem with rfl | later
      · exact absurd (by simpa using old) unseen
      · exact ih later unseen
    · by_cases same : key e.entry = key f.entry
      · exact ⟨f, List.mem_cons_self, same.symm⟩
      · rcases List.mem_cons.1 mem with rfl | later
        · exact absurd rfl same
        · have fresh : key e.entry ∉ key f.entry :: seen := by simp [same, unseen]
          obtain ⟨g, kept, same'⟩ := ih later fresh
          exact ⟨g, List.mem_cons_of_mem f kept, same'⟩

theorem keepFirst_append (e : OwnedEntry ε) : keepFirst key seen (all ++ [e]) =
    keepFirst key seen all ++
      if key e.entry ∈ seen ∨ ∃ f ∈ all, key f.entry = key e.entry then [] else [e] := by
  induction all generalizing seen with
  | nil => simp [keepFirst]
  | cons f rest ih =>
    rw [List.cons_append, keepFirst, keepFirst, ih, ih]
    by_cases old : key f.entry ∈ seen
    · have known (same : key f.entry = key e.entry) : key e.entry ∈ seen := same ▸ old
      simp [old, or_and_right, exists_or, ← or_assoc, or_iff_left_of_imp known]
    · simp [old, or_assoc, or_left_comm, eq_comm]

/-- Going through the entries with the keys seen so far keeps those that no earlier entry has. -/
theorem keepFirst_eq_firsts (key : ε → String) (all : List (OwnedEntry ε)) :
    keepFirst key [] all = firsts (key ·.entry) all := by
  induction all using List.reverseRecOn with
  | nil => rfl
  | append_singleton all e ih =>
    rw [keepFirst_append, firsts_append, ih]
    simp

end EntryAggregator

/-- What is kept of entries: all of them, or with a key the first of each key, so that no key is
there twice and none is missing. -/
inductive Kept (all : List (OwnedEntry ε)) : Option (ε → String) → List (OwnedEntry ε) → Prop
  | all : Kept all none all
  | firsts (key : ε → String) (distinct : ((firsts (key ·.entry) all).map (key ·.entry)).Nodup)
      (present : ∀ e ∈ all, ∃ f ∈ firsts (key ·.entry) all, key f.entry = key e.entry) :
      Kept all (some key) (firsts (key ·.entry) all)

theorem EntryAggregator.kept_aggregate (a : EntryAggregator γ ε) (sources : List Contribution) :
    Kept (a.gathered sources) a.dedupKey (a.aggregate sources).entries := by
  rw [entries_aggregate]
  cases a.dedupKey with
  | none => exact .all
  | some key =>
    dsimp only
    rw [keepFirst_eq_firsts]
    refine .firsts key ?_ fun e mem => ?_
    · rw [← keepFirst_eq_firsts]
      exact distinct_keepFirst
    · rw [← keepFirst_eq_firsts]
      exact present_keepFirst mem (by simp)

end Kept

/-! ## Positions by owner -/

section Index

variable {ε : Type} {ix : OwnerIndex} {entries : List (OwnedEntry ε)} {owner : Owner}

namespace OwnerIndex

/-- Each position of a list of entries stands once, in the ascending line of the entry's owner, and
there are no other lines: each has an owner of its own and is not empty. -/
structure Partitions (ix : OwnerIndex) (entries : List (OwnedEntry ε)) : Prop where
  owners : ix.Pairwise (·.1.precedes ·.1)
  once : (ix.flatMap (·.2)).Perm (List.range entries.length)
  ascending : ∀ line ∈ ix, line.2.Pairwise (· < ·)
  owned : ∀ line ∈ ix, ∀ i ∈ line.2, ∃ h : i < entries.length, entries[i].owner = line.1
  filled : ∀ line ∈ ix, line.2 ≠ []

/-- A line behind an addition was there, or is new, or has become longer. -/
theorem mem_add {i : Nat} {line : Owner × List Nat} (h : line ∈ ix.add owner i) :
    line ∈ ix ∨ line = (owner, [i]) ∨ ∃ is, (owner, is) ∈ ix ∧ line = (owner, is ++ [i]) := by
  induction ix with
  | nil => exact .inr (.inl (List.mem_singleton.1 h))
  | cons first rest ih =>
    obtain ⟨o, is⟩ := first
    unfold add at h
    split at h
    · next same =>
      subst same
      rcases List.mem_cons.1 h with rfl | later
      · exact .inr (.inr ⟨is, List.mem_cons_self, rfl⟩)
      · exact .inl (List.mem_cons_of_mem _ later)
    · split at h
      · rcases List.mem_cons.1 h with rfl | old
        · exact .inr (.inl rfl)
        · exact .inl old
      · rcases List.mem_cons.1 h with rfl | later
        · exact .inl List.mem_cons_self
        · obtain old | new | ⟨is', old, longer⟩ := ih later
          · exact .inl (List.mem_cons_of_mem _ old)
          · exact .inr (.inl new)
          · exact .inr (.inr ⟨is', List.mem_cons_of_mem _ old, longer⟩)

theorem flatMap_add (i : Nat) :
    ((ix.add owner i).flatMap (·.2)).Perm (ix.flatMap (·.2) ++ [i]) := by
  induction ix with
  | nil => exact .refl _
  | cons first rest ih =>
    obtain ⟨o, is⟩ := first
    unfold add
    split
    · simp only [List.flatMap_cons, List.append_assoc]
      exact List.perm_append_comm.append_left is
    · split
      · exact (List.perm_append_singleton i _).symm
      · simp only [List.flatMap_cons, List.append_assoc]
        exact ih.append_left is

theorem owners_add (h : ix.Pairwise (·.1.precedes ·.1)) (i : Nat) :
    (ix.add owner i).Pairwise (·.1.precedes ·.1) := by
  induction ix with
  | nil => exact List.pairwise_singleton _ _
  | cons first rest ih =>
    obtain ⟨before, later⟩ := List.pairwise_cons.1 h
    unfold add
    by_cases same : owner = first.1
    · rw [if_pos same]
      exact List.pairwise_cons.2 ⟨before, later⟩
    · rw [if_neg same]
      by_cases earlier : owner.precedes first.1
      · rw [if_pos earlier]
        refine List.pairwise_cons.2 ⟨fun line mem => ?_, h⟩
        rcases List.mem_cons.1 mem with rfl | mem
        · exact earlier
        · exact Owner.precedes_trans earlier (before line mem)
      · rw [if_neg earlier]
        refine List.pairwise_cons.2 ⟨fun line mem => ?_, ih later⟩
        obtain old | rfl | ⟨is, old, rfl⟩ := mem_add mem
        · exact before line old
        · exact (Owner.precedes_or same).resolve_left earlier
        · exact (Owner.precedes_or same).resolve_left earlier

/-- The next entry takes the next position, behind those of its owner. -/
theorem Partitions.add (h : ix.Partitions entries) (e : OwnedEntry ε) :
    (ix.add e.owner entries.length).Partitions (entries ++ [e]) where
  owners := owners_add h.owners _
  once := by
    rw [List.length_append, List.length_singleton, List.range_succ]
    exact (flatMap_add _).trans (h.once.append_right _)
  ascending line mem := by
    obtain old | rfl | ⟨is, old, rfl⟩ := mem_add mem
    · exact h.ascending line old
    · exact List.pairwise_singleton _ _
    · refine List.pairwise_append.2 ⟨h.ascending _ old, List.pairwise_singleton _ _, ?_⟩
      intro i mem j last
      obtain rfl := List.mem_singleton.1 last
      exact (h.owned _ old i mem).1
  owned line mem i at_i := by
    have inside {i : Nat} : (∃ h : i < entries.length, entries[i].owner = line.1) →
        ∃ h : i < (entries ++ [e]).length, (entries ++ [e])[i].owner = line.1 := by
      rintro ⟨lt, same⟩
      exact ⟨by simp; omega, by rwa [List.getElem_append_left lt]⟩
    have last : e.owner = line.1 →
        ∃ h : entries.length < (entries ++ [e]).length, (entries ++ [e])[entries.length].owner =
          line.1 := fun same => ⟨by simp, by simpa using same⟩
    obtain old | rfl | ⟨is, old, rfl⟩ := mem_add mem
    · exact inside (h.owned line old i at_i)
    · obtain rfl := List.mem_singleton.1 at_i
      exact last rfl
    · rcases List.mem_append.1 at_i with old' | new
      · exact inside (h.owned _ old i old')
      · obtain rfl := List.mem_singleton.1 new
        exact last rfl
  filled line mem := by
    obtain old | rfl | ⟨is, old, rfl⟩ := mem_add mem
    · exact h.filled line old
    · simp
    · simp

end OwnerIndex

theorem EntryAggregator.partitions_index (entries : List (OwnedEntry ε)) :
    (index entries).Partitions entries := by
  induction entries using List.reverseRecOn with
  | nil => exact ⟨.nil, .refl _, by simp [index], by simp [index], by simp [index]⟩
  | append_singleton entries e ih =>
    have last : index (entries ++ [e]) = (index entries).add e.owner entries.length := by
      simp [index, List.zipIdx_append]
    rw [last]
    exact ih.add e

/-- The positions at which a list satisfies a condition lead to the elements that do. -/
theorem filterMap_positions {α : Type} (p : α → Bool) (l : List α) :
    ((List.range l.length).filter fun i => (l[i]?).any p).filterMap (l[·]?) = l.filter p := by
  induction l using List.reverseRecOn with
  | nil => rfl
  | append_singleton l x ih =>
    have inside : ∀ i ∈ List.range l.length, (l ++ [x])[i]? = l[i]? := fun i mem =>
      List.getElem?_append_left (List.mem_range.1 mem)
    rw [List.length_append, List.length_singleton, List.range_succ, List.filter_append,
      List.filterMap_append, List.filter_append]
    congr 1
    · rw [← ih, List.filter_congr fun i mem => by rw [inside i mem]]
      exact List.filterMap_congr fun i mem => inside i (List.mem_filter.1 mem).1
    · by_cases h : p x <;> simp [h]

namespace OwnerIndex.Partitions

theorem eq_of_owner (h : ix.Partitions entries) {line line' : Owner × List Nat}
    (mem : line ∈ ix) (mem' : line' ∈ ix) (same : line.1 = line'.1) : line = line' := by
  have apart : (ix.map (·.1)).Nodup := by
    refine List.pairwise_map.2 (h.owners.imp ?_)
    intro first second before same
    rw [same] at before
    exact Owner.not_precedes_self before
  exact List.inj_on_of_nodup_map apart mem mem' same

/-- The line of an owner has all positions of the owner's entries. -/
theorem line_eq (h : ix.Partitions entries) {is : List Nat} (mem : (owner, is) ∈ ix) :
    is = (List.range entries.length).filter fun i => (entries[i]?).any (·.owner = owner) := by
  refine List.Pairwise.eq_of_mem_iff (r := (· < ·)) (h.ascending _ mem)
    (List.pairwise_lt_range.filter _) fun i => ?_
  simp only [List.mem_filter, List.mem_range]
  constructor
  · intro at_i
    obtain ⟨lt, same⟩ := h.owned _ mem i at_i
    exact ⟨lt, by simpa [lt] using same⟩
  · rintro ⟨lt, same⟩
    obtain ⟨line, there, at_i⟩ := List.mem_flatMap.1 (h.once.mem_iff.2 (List.mem_range.2 lt))
    obtain ⟨_, same'⟩ := h.owned line there i at_i
    have owns : line.1 = owner := same'.symm.trans (by simpa [lt] using same)
    obtain rfl := h.eq_of_owner there mem owns
    exact at_i

/-- An owner without a line has no entries. -/
theorem not_owns (h : ix.Partitions entries) (none : ∀ line ∈ ix, line.1 ≠ owner)
    {e : OwnedEntry ε} (mem : e ∈ entries) : e.owner ≠ owner := by
  obtain ⟨i, lt, rfl⟩ := List.mem_iff_getElem.1 mem
  obtain ⟨line, there, at_i⟩ := List.mem_flatMap.1 (h.once.mem_iff.2 (List.mem_range.2 lt))
  obtain ⟨_, same⟩ := h.owned line there i at_i
  exact fun owns => none line there (same.symm.trans owns)

end OwnerIndex.Partitions

/-- What an owner has of a list of entries, what all others have, and that this is everything. -/
structure EntryResult.Divided (r : EntryResult ε) (owner : Owner) : Prop where
  own : r.ownerEntries owner = r.entries.filter (·.owner = owner)
  others : r.removeOwner owner = r.entries.filter (·.owner ≠ owner)
  all : (r.ownerEntries owner ++ r.removeOwner owner).Perm r.entries

theorem OwnerIndex.Partitions.divided {r : EntryResult ε} (h : r.byOwner.Partitions r.entries)
    (owner : Owner) : r.Divided owner := by
  have own : r.ownerEntries owner = r.entries.filter (·.owner = owner) := by
    unfold EntryResult.ownerEntries
    cases found : r.byOwner.find? (·.1 = owner) with
    | none =>
      have missing : ∀ line ∈ r.byOwner, line.1 ≠ owner := by
        simpa using List.find?_eq_none.1 found
      exact (List.filter_eq_nil_iff.2 fun e mem => by simpa using h.not_owns missing mem).symm
    | some line =>
      obtain ⟨o, is⟩ := line
      obtain rfl : o = owner := by simpa using List.find?_some found
      have there := List.mem_of_find?_eq_some found
      dsimp only
      rw [h.line_eq there]
      exact filterMap_positions ..
  refine ⟨own, rfl, ?_⟩
  rw [own]
  refine List.Perm.trans (.of_eq ?_) (List.filter_append_perm (·.owner = owner) r.entries)
  simp [EntryResult.removeOwner]

end Index

/-- A list of entries has those of all contributions that can be read, in order of precedence, each
with its owner and its priority; with a key, the first of each key. Its positions are divided among
the owners, and so are the entries themselves. -/
theorem entries_owned {γ ε : Type} (a : EntryAggregator γ ε) (sources : List Contribution) :
    (∃ ranked, Ranking sources ranked ∧
      Kept (ranked.flatMap fun s => a.brought s.1) a.dedupKey (a.aggregate sources).entries) ∧
    (a.aggregate sources).byOwner.Partitions (a.aggregate sources).entries ∧
    ∀ owner, (a.aggregate sources).Divided owner := by
  have partitions : (a.aggregate sources).byOwner.Partitions (a.aggregate sources).entries := by
    rw [EntryAggregator.aggregate_eq]
    exact EntryAggregator.partitions_index _
  refine ⟨?_, partitions, partitions.divided⟩
  obtain ⟨ranked, ranking, order⟩ := exists_ranking sources
  refine ⟨ranked, ranking, ?_⟩
  have all : a.gathered sources = ranked.flatMap fun s => a.brought s.1 := by
    rw [EntryAggregator.gathered, order, List.flatMap_map]
  exact all ▸ a.kept_aggregate sources

end Tributary
