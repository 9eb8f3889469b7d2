import Tributary.Proofs.Precedence

/-!
# Rankings

Contributions take precedence by their priority numbers and, within one priority, by the places at
which they were registered. There is exactly one list of all contributions in that order, and it is
the one that aggregations follow (`exists_ranking`, `Ranking.unique`).
-/

namespace Tributary

/-- A contribution and the place at which it was registered take precedence over another. -/
def Outranks (s t : Contribution × Nat) : Prop :=
  s.1.priority < t.1.priority ∨ s.1.priority = t.1.priority ∧ s.2 < t.2

/-- All contributions with their places, each before those that it outranks. -/
structure Ranking (sources : List Contribution) (ranked : List (Contribution × Nat)) : Prop where
  complete : ranked.Perm sources.zipIdx
  ordered : ranked.Pairwise Outranks

theorem Outranks.asymm {s t : Contribution × Nat} (h : Outranks s t) : ¬ Outranks t s := by
  unfold Outranks at *
  omega

theorem Ranking.unique {sources : List Contribution} {ranked others : List (Contribution × Nat)}
    (h : Ranking sources ranked) (h' : Ranking sources others) : ranked = others :=
  (h.complete.trans h'.complete.symm).eq_of_pairwise
    (fun _ _ _ _ before after => absurd after before.asymm) h.ordered h'.ordered

/-- Sorting by priority alone ranks contributions, since it keeps the order of registration. -/
theorem exists_ranking (sources : List Contribution) :
    ∃ ranked, Ranking sources ranked ∧ Aggregation.byPriority sources = ranked.map (·.1) := by
  let level (a b : Contribution) : Bool := a.priority ≤ b.priority
  let ranked := sources.zipIdx.mergeSort (List.zipIdxLE level)
  have complete : ranked.Perm sources.zipIdx := List.mergeSort_perm ..
  have level_trans (a b c : Contribution) (ab : level a b) (bc : level b c) : level a c := by
    simp only [level, decide_eq_true_eq] at *
    omega
  have level_total (a b : Contribution) : level a b || level b a := by
    simp only [level, Bool.or_eq_true, decide_eq_true_eq]
    omega
  have sorted : ranked.Pairwise fun s t => List.zipIdxLE level s t :=
    List.pairwise_mergeSort (List.zipIdxLE_trans level_trans) (List.zipIdxLE_total level_total) _
  have places : ranked.Pairwise fun s t => s.2 ≠ t.2 := by
    have apart : (sources.zipIdx.map (·.2)).Nodup := by
      rw [List.zipIdx_map_snd]
      exact List.nodup_range'
    exact List.pairwise_map.1 ((complete.map _).nodup_iff.2 apart)
  refine ⟨ranked, ⟨complete, ?_⟩, List.mergeSort_zipIdx.symm⟩
  refine (sorted.and places).imp ?_
  rintro s t ⟨le, other⟩
  unfold Outranks
  simp only [List.zipIdxLE, level, decide_eq_true_eq] at le
  split at le
  · split at le
    · simp only [decide_eq_true_eq] at le
      omega
    · omega
  · simp at le

theorem mem_byPriority {sources : List Contribution} {s : Contribution} :
    s ∈ Aggregation.byPriority sources ↔ s ∈ sources :=
  (List.mergeSort_perm sources _).mem_iff

/-- Who leaves does not change the order of those who stay. -/
theorem byPriority_filter (stays : Contribution → Bool) (sources : List Contribution) :
    Aggregation.byPriority (sources.filter stays) =
      (Aggregation.byPriority sources).filter stays := by
  have within (p : Int) (l : List Contribution) :
      ofPriority p (l.filter stays) = (ofPriority p l).filter stays := List.filter_comm ..
  refine (ascending_byPriority _).eq ((ascending_byPriority _).filter _) fun p => ?_
  rw [ofPriority_byPriority, within, within, ofPriority_byPriority]

theorem fst_of_decode {γ : Type} {read : List UInt8 → Option γ} {s : Contribution}
    {known : Contribution × γ} (h : Aggregation.decode read s = some known) : known.1 = s := by
  unfold Aggregation.decode at h
  split at h
  · cases h
  · obtain ⟨_, _, rfl⟩ := Option.map_eq_some_iff.1 h
    rfl

end Tributary
