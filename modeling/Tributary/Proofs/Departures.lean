import Tributary.Proofs.Ownership
import Tributary.Proofs.Winners

/-!
# When an owner leaves

What an aggregation says without one owner, compared with an aggregation of the contributions of
all other owners. It never says anything else; what it lacks are entries that the owner's entries
had displaced, and keys that the owner had won (`shortcuts_compared`).
-/

namespace Tributary

/-- The contributions of all other owners. -/
def withoutOwner (owner : Owner) (sources : List Contribution) : List Contribution :=
  sources.filter (·.owner ≠ owner)

/-! ## Entries -/

namespace EntryAggregator

variable {γ ε : Type} {a : EntryAggregator γ ε} {sources : List Contribution} {owner : Owner}

/-- An entry of another owner has the key of an entry of this owner that was kept in its place. -/
def Displaces (a : EntryAggregator γ ε) (sources : List Contribution) (owner : Owner) : Prop :=
  ∃ key, a.dedupKey = some key ∧
    ∃ s ∈ sources, s.owner ≠ owner ∧ ∃ e ∈ a.brought s,
      ∃ f ∈ (a.aggregate sources).entries, f.owner = owner ∧ key f.entry = key e.entry

/-- The entries without an owner, compared with those of the contributions of all others. -/
structure Outlived (a : EntryAggregator γ ε) (sources : List Contribution) (owner : Owner) :
    Prop where
  kept : ((a.aggregate sources).removeOwner owner).Sublist
    (a.aggregate (withoutOwner owner sources)).entries
  same_iff : (a.aggregate sources).removeOwner owner =
    (a.aggregate (withoutOwner owner sources)).entries ↔ ¬ a.Displaces sources owner
  plain : a.dedupKey = none → (a.aggregate sources).removeOwner owner =
    (a.aggregate (withoutOwner owner sources)).entries

theorem owner_of_brought {s : Contribution} {e : OwnedEntry ε} (h : e ∈ a.brought s) :
    e.owner = s.owner := by
  unfold brought at h
  split at h
  · cases h
  · obtain ⟨_, _, rfl⟩ := List.mem_map.1 h
    rfl

theorem mem_gathered {e : OwnedEntry ε} :
    e ∈ a.gathered sources ↔ ∃ s ∈ sources, e ∈ a.brought s := by
  rw [gathered, List.mem_flatMap]
  exact exists_congr fun s => by rw [mem_byPriority]

theorem gathered_withoutOwner : a.gathered (withoutOwner owner sources) =
    (a.gathered sources).filter (·.owner ≠ owner) := by
  have brings (s : Contribution) : (a.brought s).filter (·.owner ≠ owner) =
      if s.owner ≠ owner then a.brought s else [] := by
    split
    · next other =>
      exact List.filter_eq_self.2 fun e mem => by simpa [owner_of_brought mem] using other
    · next own =>
      exact List.filter_eq_nil_iff.2 fun e mem => by simpa [owner_of_brought mem] using own
  unfold gathered withoutOwner
  rw [byPriority_filter]
  induction Aggregation.byPriority sources with
  | nil => rfl
  | cons s rest ih =>
    rw [List.flatMap_cons, List.filter_append, brings, ← ih, List.filter_cons]
    by_cases other : s.owner ≠ owner
    · simp [other]
    · simp [other]

/-- With fewer entries to go through and fewer keys seen, nothing that stayed is lost. -/
theorem keepFirst_filter_sublist {key : ε → String} (stays : OwnedEntry ε → Bool)
    {seen fewer : List String} (h : ∀ k ∈ fewer, k ∈ seen) (all : List (OwnedEntry ε)) :
    ((keepFirst key seen all).filter stays).Sublist (keepFirst key fewer (all.filter stays)) := by
  induction all generalizing seen fewer with
  | nil => exact .slnil
  | cons e rest ih =>
    have more : ∀ k ∈ key e.entry :: fewer, k ∈ key e.entry :: seen := fun k mem => by
      rcases List.mem_cons.1 mem with rfl | mem
      · exact List.mem_cons_self
      · exact List.mem_cons_of_mem _ (h k mem)
    by_cases old : key e.entry ∈ seen
    · have here : ∀ k ∈ key e.entry :: fewer, k ∈ seen := fun k mem => by
        rcases List.mem_cons.1 mem with rfl | mem
        · exact old
        · exact h k mem
      rw [keepFirst, if_pos (by simpa using old), List.filter_cons]
      split
      · rw [keepFirst]
        split
        · exact ih h
        · exact (ih here).cons _
      · exact ih h
    · have new : key e.entry ∉ fewer := fun mem => old (h _ mem)
      rw [keepFirst, if_neg (by simpa using old), List.filter_cons, List.filter_cons]
      split
      · rw [keepFirst, if_neg (by simpa using new)]
        exact (ih more).cons_cons _
      · exact ih fun k mem => List.mem_cons_of_mem _ (h k mem)

variable {key : ε → String}

theorem distinct_aggregate (keyed : a.dedupKey = some key) :
    ((a.aggregate sources).entries.map (key ·.entry)).Nodup := by
  rw [entries_aggregate, keyed]
  exact distinct_keepFirst

theorem present_aggregate (keyed : a.dedupKey = some key) {e : OwnedEntry ε}
    (mem : e ∈ a.gathered sources) :
    ∃ f ∈ (a.aggregate sources).entries, key f.entry = key e.entry := by
  rw [entries_aggregate, keyed]
  exact present_keepFirst mem (by simp)

theorem mem_gathered_of_entries {e : OwnedEntry ε} (mem : e ∈ (a.aggregate sources).entries) :
    e ∈ a.gathered sources := by
  rw [entries_aggregate] at mem
  cases keyed : a.dedupKey with
  | none => simpa [keyed] using mem
  | some key => exact (mem_of_mem_keepFirst (by simpa [keyed] using mem)).1

theorem removeOwner_of_plain (plain : a.dedupKey = none) :
    (a.aggregate sources).removeOwner owner =
      (a.aggregate (withoutOwner owner sources)).entries := by
  simp only [EntryResult.removeOwner, entries_aggregate, plain]
  exact gathered_withoutOwner.symm

theorem removeOwner_sublist : ((a.aggregate sources).removeOwner owner).Sublist
    (a.aggregate (withoutOwner owner sources)).entries := by
  cases keyed : a.dedupKey with
  | none =>
    rw [removeOwner_of_plain keyed]
  | some key =>
    simp only [EntryResult.removeOwner, entries_aggregate, keyed, gathered_withoutOwner]
    exact keepFirst_filter_sublist _ (fun _ mem => mem) _

/-- An entry that comes back without an owner had been displaced by one of the owner's. -/
theorem displaces_of_new (keyed : a.dedupKey = some key) {e : OwnedEntry ε}
    (mem : e ∈ (a.aggregate (withoutOwner owner sources)).entries)
    (new : e ∉ (a.aggregate sources).removeOwner owner) : a.Displaces sources owner := by
  have gathered := mem_gathered_of_entries mem
  rw [gathered_withoutOwner, List.mem_filter] at gathered
  obtain ⟨brought, other⟩ := gathered
  obtain ⟨f, kept, same⟩ := present_aggregate keyed brought
  by_cases own : f.owner = owner
  · obtain ⟨s, stands, brought⟩ := mem_gathered.1 brought
    refine ⟨key, keyed, s, stands, ?_, e, brought, f, kept, own, same⟩
    simpa [owner_of_brought brought] using other
  · have stays : f ∈ (a.aggregate sources).removeOwner owner :=
      List.mem_filter.2 ⟨kept, by simpa using own⟩
    have one : f = e := List.inj_on_of_nodup_map (distinct_aggregate keyed)
      (removeOwner_sublist.subset stays) mem same
    exact absurd (one ▸ stays) new

/-- What an owner's entries have displaced is missing among the entries without that owner. -/
theorem Displaces.ne (h : a.Displaces sources owner) : (a.aggregate sources).removeOwner owner ≠
    (a.aggregate (withoutOwner owner sources)).entries := by
  intro same
  obtain ⟨key, keyed, s, stands, other, e, brought, f, kept, own, taken⟩ := h
  have gathered : e ∈ a.gathered (withoutOwner owner sources) :=
    mem_gathered.2 ⟨s, List.mem_filter.2 ⟨stands, by simpa using other⟩, brought⟩
  obtain ⟨g, mem, again⟩ := present_aggregate keyed gathered
  obtain ⟨kept', other'⟩ := List.mem_filter.1 (same ▸ mem)
  have one : g = f := List.inj_on_of_nodup_map (distinct_aggregate keyed) kept' kept
    (again.trans taken.symm)
  simp [one, own] at other'

theorem outlived (a : EntryAggregator γ ε) (sources : List Contribution) (owner : Owner) :
    a.Outlived sources owner where
  kept := removeOwner_sublist
  same_iff := by
    refine ⟨fun same displaces => displaces.ne same, fun none => ?_⟩
    cases keyed : a.dedupKey with
    | none => exact removeOwner_of_plain keyed
    | some key =>
      have within : (a.aggregate (withoutOwner owner sources)).entries ⊆
          (a.aggregate sources).removeOwner owner := fun e mem =>
        Classical.not_not.1 fun new => none (displaces_of_new keyed mem new)
      have distinct : (a.aggregate (withoutOwner owner sources)).entries.Nodup :=
        (distinct_aggregate keyed).of_map
      exact removeOwner_sublist.eq_of_length_le (List.subperm_of_subset distinct within).length_le
  plain := removeOwner_of_plain

end EntryAggregator

/-! ## Settings -/

namespace SettingsAggregator

variable {γ : Type} {a : SettingsAggregator γ} {sources : List Contribution} {owner : Owner}
  {key : String}

/-- The values without an owner's keys, compared with those of the contributions of all others. -/
structure Outlived (a : SettingsAggregator γ) (sources : List Contribution) (owner : Owner) :
    Prop where
  agrees : ∀ key value, ((a.aggregate sources).without owner).get? key = some value →
    (a.aggregate (withoutOwner owner sources)).values.get? key = some value
  lacks : ∀ key, ((a.aggregate (withoutOwner owner sources)).values.get? key).isSome →
    ((a.aggregate sources).without owner).get? key = none →
    (a.aggregate sources).ownerOf? key = some owner

theorem owner_of_setting {s : Contribution} {x : Setting} (h : a.setting? key s = some x) :
    x.owner = s.owner := by
  unfold setting? at h
  obtain ⟨_, _, h⟩ := Option.bind_eq_some_iff.1 h
  obtain ⟨_, _, rfl⟩ := Option.map_eq_some_iff.1 h
  rfl

theorem ascending_contribute (s : Contribution) {t : Table Setting} (h : t.Ascending)
    (config : Table Json) : (contribute s t config).Ascending := by
  unfold contribute
  induction config.entries generalizing t with
  | nil => exact h
  | cons pair rest ih =>
    refine ih ?_
    dsimp only
    split
    · exact h
    · exact h.set _ _

theorem ascending_aggregate (a : SettingsAggregator γ) (sources : List Contribution) :
    (a.aggregate sources).settings.Ascending := by
  have onward (l : List (Contribution × γ)) {t : Table Setting} (h : t.Ascending) :
      (l.foldl (fun t known => contribute known.1 t (a.extract known.2)) t).Ascending := by
    induction l generalizing t with
    | nil => exact h
    | cons known rest ih => exact ih (ascending_contribute _ h _)
  exact onward _ Table.ascending_empty

/-- The winner of a key outlives those who won nothing of it. -/
theorem get?_withoutOwner {x : Setting} (won : (a.aggregate sources).settings.get? key = some x)
    (other : x.owner ≠ owner) :
    (a.aggregate (withoutOwner owner sources)).settings.get? key = some x := by
  rw [get?_aggregate] at won ⊢
  obtain ⟨before, s, after, split, sets, free⟩ := List.findSome?_eq_some_iff.1 won
  have stays : s.owner ≠ owner := owner_of_setting sets ▸ other
  rw [withoutOwner, byPriority_filter, split, List.filter_append,
    List.filter_cons_of_pos (by simpa using stays), List.findSome?_eq_some_iff]
  exact ⟨_, s, _, rfl, sets, fun t mem => free t (List.mem_filter.1 mem).1⟩

theorem get?_of_withoutOwner
    (h : ((a.aggregate (withoutOwner owner sources)).settings.get? key).isSome) :
    ((a.aggregate sources).settings.get? key).isSome := by
  refine Option.isSome_iff_ne_none.2 fun missing => ?_
  have none : (a.aggregate (withoutOwner owner sources)).settings.get? key = none :=
    get?_eq_none_iff.2 fun s mem => get?_eq_none_iff.1 missing s (List.mem_filter.1 mem).1
  simp [none] at h

theorem get?_without : ((a.aggregate sources).without owner).get? key =
    (((a.aggregate sources).settings.get? key).filter (·.owner ≠ owner)).map (·.value) := by
  have left := Table.get?_filter (ascending_aggregate a sources) (·.owner ≠ owner) key
  rw [← left]
  exact Table.get?_map ..

theorem outlived (a : SettingsAggregator γ) (sources : List Contribution) (owner : Owner) :
    a.Outlived sources owner where
  agrees key value h := by
    rw [get?_without, Option.map_eq_some_iff] at h
    obtain ⟨x, found, rfl⟩ := h
    obtain ⟨won, other⟩ := Option.filter_eq_some_iff.1 found
    rw [SettingsResult.values, Table.get?_map, get?_withoutOwner won (by simpa using other)]
    rfl
  lacks key found missing := by
    rw [SettingsResult.values, Table.get?_map, Option.isSome_map] at found
    obtain ⟨x, won⟩ := Option.isSome_iff_exists.1 (get?_of_withoutOwner found)
    rw [get?_without, won] at missing
    have own : x.owner = owner := by simpa using missing
    rw [SettingsResult.ownerOf?, won, ← own]
    rfl

end SettingsAggregator

/-- Leaving out what an owner has, and aggregating the contributions of all others. The entries
that are left stand among the new ones in the same order, and these are the same unless an entry of
the owner had displaced one of another owner, for which there has to be a key. The values that are
left are the new values, and only keys that the owner had won are missing. -/
theorem shortcuts_compared :
    (∀ (γ ε : Type) (a : EntryAggregator γ ε) sources owner, a.Outlived sources owner) ∧
    (∀ (γ : Type) (a : SettingsAggregator γ) sources owner, a.Outlived sources owner) :=
  ⟨fun _ _ a => a.outlived, fun _ a => a.outlived⟩

end Tributary
