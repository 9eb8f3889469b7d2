import Tributary.Proofs.Markers

/-!
# Merges one after the other

Every push and every teardown merges its entries with those that are downstream. Since each entry
of a merge carries a marker, the next merge takes it away again, and the entries of others stay:
after any number of merges those without a marker are there as they were in the beginning, and
behind them the entries of the last merge (`merges_settle`).
-/

namespace Tributary.Marker

universe u

variable {α : Type u} (describe : α → String)

/-- The entries in which no marker begins. -/
def external (entries : List α) : List α := entries.filter fun entry => !managed (describe entry)

/-- The entries in which one begins. -/
def recognised (entries : List α) : List α := entries.filter fun entry => managed (describe entry)

/-- Each entry is described by a marker behind some text. -/
def Marked (entries : List α) : Prop :=
  ∀ entry ∈ entries, ∃ (o : Owner) (description : String), describe entry = append o description

/-- What is downstream after one merge for each list of managed entries. -/
def mergeInTurn (downstream : List α) (lists : List (List α)) : List α :=
  lists.foldl (fun entries managedEntries =>
    mergePreservingExternal describe managedEntries entries) downstream

variable {describe} {downstream entries : List α}

theorem Marked.managed (marked : Marked describe entries) {entry : α} (mem : entry ∈ entries) :
    managed (describe entry) := by
  obtain ⟨o, description, described⟩ := marked entry mem
  rw [described]
  exact managed_append o description

theorem Marked.external (marked : Marked describe entries) : external describe entries = [] :=
  List.filter_eq_nil_iff.2 fun _ mem => by simp [marked.managed mem]

theorem Marked.recognised (marked : Marked describe entries) :
    recognised describe entries = entries :=
  List.filter_eq_self.2 fun _ mem => marked.managed mem

theorem external_external (entries : List α) :
    external describe (external describe entries) = external describe entries := by
  simp [external]

theorem recognised_external (entries : List α) :
    recognised describe (external describe entries) = [] := by
  simp [recognised, external]

theorem merge_eq (managedEntries downstream : List α) :
    mergePreservingExternal describe managedEntries downstream =
      external describe downstream ++ managedEntries := rfl

/-- A merge neither takes anything from the entries of others nor adds to them. -/
theorem external_merge (marked : Marked describe entries) (downstream : List α) :
    external describe (mergePreservingExternal describe entries downstream) =
      external describe downstream := by
  rw [merge_eq, external, List.filter_append, ← external, ← external, external_external,
    marked.external, List.append_nil]

theorem mergeInTurn_eq {lists : List (List α)} (marked : ∀ entries ∈ lists, Marked describe entries)
    (nonempty : lists ≠ []) :
    mergeInTurn describe downstream lists =
      external describe downstream ++ lists.getLast nonempty := by
  induction lists generalizing downstream with
  | nil => exact absurd rfl nonempty
  | cons entries rest ih =>
    have first := marked entries List.mem_cons_self
    rw [mergeInTurn, List.foldl_cons, ← mergeInTurn]
    by_cases last : rest = []
    · subst last
      rfl
    · rw [ih (fun entries mem => marked entries (List.mem_cons_of_mem _ mem)) last,
        external_merge first, List.getLast_cons last]

/-- However often entries are merged, those of others are kept in their order and as they are, and
of the managed ones the last are there and no others. To merge the last ones again changes
nothing. -/
theorem merges_settle {lists : List (List α)} (marked : ∀ entries ∈ lists, Marked describe entries)
    (nonempty : lists ≠ []) :
    mergeInTurn describe downstream lists =
        downstream.filter (fun entry => !managed (describe entry)) ++ lists.getLast nonempty ∧
      external describe (mergeInTurn describe downstream lists) = external describe downstream ∧
      recognised describe (mergeInTurn describe downstream lists) = lists.getLast nonempty ∧
      mergePreservingExternal describe (lists.getLast nonempty)
          (mergeInTurn describe downstream lists) = mergeInTurn describe downstream lists := by
  have whole : mergeInTurn describe downstream lists =
      external describe downstream ++ lists.getLast nonempty := mergeInTurn_eq marked nonempty
  have last := marked _ (List.getLast_mem nonempty)
  have kept : external describe (mergeInTurn describe downstream lists) =
      external describe downstream := by
    rw [whole, external, List.filter_append, ← external, ← external, external_external,
      last.external, List.append_nil]
  refine ⟨whole, kept, ?_, ?_⟩
  · rw [whole, recognised, List.filter_append, ← recognised, ← recognised, recognised_external,
      last.recognised, List.nil_append]
  · rw [merge_eq, kept, whole]

/-- The rules of a network, each with its note: two by hand, of which one quotes half a marker, and
one of an owner who has left. -/
def networkRules : List (String × String) :=
  [("10.0.0.1", "by hand"), ("10.0.0.2", "Büro [managed-by:AccessRule/prod/gone]"),
   ("10.0.0.3", "see managed-by: [")]

/-- Rules that are pushed one after the other; the second time one of them has gone. -/
def pushedRules : List (List (String × String)) :=
  [[("10.1.0.1", append webRule ""), ("10.1.0.2", append webRuleTwin "the other [one")],
   [("10.1.0.2", append webRuleTwin "the other [one")]]

theorem pushedRules_marked : ∀ rules ∈ pushedRules, Marked Prod.snd rules := by
  simp only [pushedRules, List.forall_mem_cons, List.not_mem_nil, false_implies, implies_true,
    and_true, Marked]
  exact ⟨⟨⟨webRule, "", rfl⟩, ⟨webRuleTwin, _, rfl⟩⟩, ⟨webRuleTwin, _, rfl⟩⟩

theorem networkRules_settle :
    mergeInTurn Prod.snd networkRules pushedRules =
        [("10.0.0.1", "by hand"), ("10.0.0.3", "see managed-by: ["),
         ("10.1.0.2", "the other [one [managed-by:AccessRule/prod/web-2]")] ∧
      mergePreservingExternal Prod.snd [("10.1.0.2", append webRuleTwin "the other [one")]
          (mergeInTurn Prod.snd networkRules pushedRules) =
        mergeInTurn Prod.snd networkRules pushedRules := by
  obtain ⟨whole, -, -, again⟩ := merges_settle pushedRules_marked (by decide)
  exact ⟨whole.trans (by decide), again⟩

end Tributary.Marker
