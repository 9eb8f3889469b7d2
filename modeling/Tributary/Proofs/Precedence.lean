import Mathlib.Data.List.FinRange
import Mathlib.Data.List.Sort
import Mathlib.Logic.Equiv.Defs
import Tributary.Aggregation.Entries
import Tributary.Aggregation.Scalar
import Tributary.Aggregation.Settings

/-!
# Precedence

An aggregation depends on nothing but the contributions that can be read, in the order of their
priorities and, within one priority, in the order in which they were registered
(`aggregations_byPrecedence`): contributions that are blank or cannot be read come and go without a
trace, and so does every rearrangement that keeps the order within each priority.
-/

namespace Tributary

/-- The contributions of one priority. -/
def ofPriority (p : Int) (sources : List Contribution) : List Contribution :=
  sources.filter (·.priority = p)

/-- Smaller priority numbers stand first. -/
def Ascending (sources : List Contribution) : Prop :=
  sources.Pairwise (·.priority ≤ ·.priority)

/-- The same contributions at other positions, where those of one priority keep their order. -/
def Rearranged (sources others : List Contribution) : Prop :=
  ∃ origin : Fin others.length ≃ Fin sources.length, (∀ i, others[i] = sources[origin i]) ∧
    ∀ i j, i < j → others[i].priority = others[j].priority → origin i < origin j

/-- The contributions that are neither blank nor impossible to read. -/
def readable (read : List UInt8 → Option γ) (sources : List Contribution) : List Contribution :=
  sources.filter fun s => !s.payload.all Aggregation.isBlank && (read s.payload).isSome

/-! ## Order of precedence -/

section Order

variable {sources others : List Contribution} {s : Contribution}

@[simp] theorem ofPriority_cons_self :
    ofPriority s.priority (s :: sources) = s :: ofPriority s.priority sources := by
  simp [ofPriority]

theorem mem_ofPriority {p : Int} : s ∈ ofPriority p sources ↔ s ∈ sources ∧ s.priority = p := by
  simp [ofPriority]

/-- The contributions of one priority, by their positions. -/
theorem ofPriority_eq_map (sources : List Contribution) (p : Int) :
    ofPriority p sources =
      ((List.finRange sources.length).filter fun i => sources[i].priority = p).map
        fun i => sources[i] := by
  conv_lhs => rw [ofPriority, ← List.map_getElem_finRange sources]
  rw [List.filter_map]
  rfl

theorem Rearranged.ofPriority_eq (h : Rearranged sources others) (p : Int) :
    ofPriority p others = ofPriority p sources := by
  obtain ⟨origin, same, keeps⟩ := h
  -- both sides list the positions of the priority in strictly ascending order
  have positions :
      ((List.finRange others.length).filter fun i => others[i].priority = p).map origin =
        (List.finRange sources.length).filter fun i => sources[i].priority = p := by
    refine List.Pairwise.eq_of_mem_iff (r := (· < ·)) ?_ ?_ ?_
    · rw [List.pairwise_map, List.pairwise_filter]
      refine (List.pairwise_lt_finRange _).imp fun before one other => keeps _ _ before ?_
      exact (of_decide_eq_true one).trans (of_decide_eq_true other).symm
    · exact (List.pairwise_lt_finRange _).filter _
    · intro i
      simp only [List.mem_map, List.mem_filter, List.mem_finRange, true_and, decide_eq_true_eq]
      constructor
      · rintro ⟨j, hj, rfl⟩
        rwa [← same]
      · intro hi
        refine ⟨origin.symm i, ?_, origin.apply_symm_apply i⟩
        simpa [same] using hi
  rw [ofPriority_eq_map, ofPriority_eq_map, ← positions, List.map_map]
  exact List.map_congr_left fun i _ => same i

theorem Ascending.head_le (h : Ascending (s :: sources)) {t : Contribution}
    (mem : t ∈ s :: sources) : s.priority ≤ t.priority := by
  cases mem with
  | head => exact Int.le_refl _
  | tail _ mem => exact List.rel_of_pairwise_cons h mem

theorem mem_iff_of_ofPriority (same : ∀ p, ofPriority p sources = ofPriority p others) :
    s ∈ sources ↔ s ∈ others := by
  have here : s ∈ ofPriority s.priority sources ↔ s ∈ ofPriority s.priority others := by
    rw [same]
  simpa [mem_ofPriority] using here

/-- In ascending order, contributions are determined by those of each priority. -/
theorem Ascending.eq (h : Ascending sources) (h' : Ascending others)
    (same : ∀ p, ofPriority p sources = ofPriority p others) : sources = others := by
  induction sources generalizing others with
  | nil =>
    cases others with
    | nil => rfl
    | cons t rest => exact absurd ((mem_iff_of_ofPriority same).2 List.mem_cons_self) (by simp)
  | cons s sources ih =>
    cases others with
    | nil => exact absurd ((mem_iff_of_ofPriority same).1 List.mem_cons_self) (by simp)
    | cons t others =>
      have level : t.priority = s.priority :=
        Int.le_antisymm (h'.head_le ((mem_iff_of_ofPriority same).1 List.mem_cons_self))
          (h.head_le ((mem_iff_of_ofPriority same).2 List.mem_cons_self))
      have first := same s.priority
      rw [ofPriority_cons_self, ← level, ofPriority_cons_self] at first
      obtain rfl : s = t := (List.cons.inj first).1
      have rest (p : Int) : ofPriority p sources = ofPriority p others := by
        have := same p
        simp only [ofPriority, List.filter_cons] at this
        split at this
        · exact (List.cons.inj this).2
        · exact this
      rw [ih h.of_cons h'.of_cons rest]

theorem ascending_byPriority (sources : List Contribution) :
    Ascending (Aggregation.byPriority sources) := by
  have sorted : (Aggregation.byPriority sources).Pairwise
      fun a b => decide (a.priority ≤ b.priority) = true :=
    List.pairwise_mergeSort (fun a b c ab bc => by simp at ab bc ⊢; omega)
      (fun a b => by simp; omega) sources
  exact sorted.imp of_decide_eq_true

/-- Putting contributions in order of precedence keeps the order within each priority. -/
theorem ofPriority_byPriority (sources : List Contribution) (p : Int) :
    ofPriority p (Aggregation.byPriority sources) = ofPriority p sources := by
  have level : (ofPriority p sources).Pairwise fun a b => decide (a.priority ≤ b.priority) := by
    refine List.pairwise_iff_forall_sublist.2 fun {a b} both => ?_
    have ha := (mem_ofPriority.1 (both.subset (by simp : a ∈ [a, b]))).2
    have hb := (mem_ofPriority.1 (both.subset (by simp : b ∈ [a, b]))).2
    simp [ha, hb]
  have stays : (ofPriority p sources).Sublist (Aggregation.byPriority sources) :=
    List.sublist_mergeSort (fun a b c ab bc => by simp at ab bc ⊢; omega)
      (fun a b => by simp; omega) level List.filter_sublist
  have within : (ofPriority p sources).Sublist (ofPriority p (Aggregation.byPriority sources)) := by
    simpa [ofPriority, List.filter_filter] using stays.filter (·.priority = p)
  refine (within.eq_of_length ?_).symm
  exact ((List.mergeSort_perm sources _).filter _).length_eq.symm

end Order

/-! ## What is read -/

section Read

variable {γ ρ : Type} {read : List UInt8 → Option γ} {sources others : List Contribution}

theorem ofPriority_readable (p : Int) :
    ofPriority p (readable read sources) = readable read (ofPriority p sources) :=
  List.filter_comm ..

theorem isSome_decode (s : Contribution) : (Aggregation.decode read s).isSome =
    (!s.payload.all Aggregation.isBlank && (read s.payload).isSome) := by
  unfold Aggregation.decode
  split <;> simp_all

/-- The contributions behind what is decoded. -/
theorem map_fst_decoded (sources : List Contribution) :
    (Aggregation.decoded read sources).map (·.1) =
      readable read (Aggregation.byPriority sources) := by
  unfold Aggregation.decoded readable
  induction Aggregation.byPriority sources with
  | nil => rfl
  | cons s rest ih =>
    rw [List.filterMap_cons, List.filter_cons, ← isSome_decode, ← ih]
    unfold Aggregation.decode
    by_cases blank : s.payload.all Aggregation.isBlank
    · simp [blank]
    · cases read s.payload <;> simp [blank]

/-- What is decoded depends on the readable contributions of each priority only. -/
theorem decoded_eq
    (same : ∀ p, ofPriority p (readable read sources) = ofPriority p (readable read others)) :
    Aggregation.decoded read sources = Aggregation.decoded read others := by
  have only (sources : List Contribution) : Aggregation.decoded read sources =
      (readable read (Aggregation.byPriority sources)).filterMap (Aggregation.decode read) := by
    rw [readable, List.filterMap_filter]
    refine List.filterMap_congr fun s _ => ?_
    rw [← isSome_decode]
    cases Aggregation.decode read s <;> rfl
  have ordered (sources : List Contribution) :
      Ascending (readable read (Aggregation.byPriority sources)) :=
    (ascending_byPriority sources).filter _
  rw [only, only others]
  congr 1
  refine (ordered sources).eq (ordered others) fun p => ?_
  rw [ofPriority_readable, ofPriority_byPriority, ofPriority_readable, ofPriority_byPriority,
    ← ofPriority_readable, ← ofPriority_readable, same]

/-- What is made of contributions depends on the readable ones only, in order of precedence. -/
structure ByPrecedence (read : List UInt8 → Option γ) (aggregate : List Contribution → ρ)
    (view : ρ → Aggregation) : Prop where
  /-- Contributions that are blank or cannot be read may stand anywhere or be left out. -/
  unread : ∀ sources others, readable read sources = readable read others →
    aggregate sources = aggregate others
  /-- The order of contributions matters within a priority only. -/
  rearranged : ∀ sources others, Rearranged sources others →
    aggregate sources = aggregate others
  /-- The owners are those of the readable contributions, in ascending order of the priorities
  and, within one priority, in order of registration. -/
  listed : ∀ sources, ∃ counted, (view (aggregate sources)).owners = counted.map (·.owner) ∧
    (view (aggregate sources)).sourceCount = counted.length ∧ Ascending counted ∧
    ∀ p, ofPriority p counted = ofPriority p (readable read sources)

theorem byPrecedence_of_decoded {aggregate : List Contribution → ρ} {view : ρ → Aggregation}
    (made : ∀ sources others, Aggregation.decoded read sources = Aggregation.decoded read others →
      aggregate sources = aggregate others)
    (owners : ∀ sources, (view (aggregate sources)).owners =
      (Aggregation.decoded read sources).map (·.1.owner))
    (counted : ∀ sources, (view (aggregate sources)).sourceCount =
      (view (aggregate sources)).owners.length) :
    ByPrecedence read aggregate view where
  unread sources others same := made _ _ (decoded_eq fun p => by rw [same])
  rearranged sources others h := by
    refine made _ _ (decoded_eq fun p => ?_)
    rw [ofPriority_readable, ofPriority_readable, h.ofPriority_eq]
  listed sources := by
    have listed : (view (aggregate sources)).owners =
        (readable read (Aggregation.byPriority sources)).map (·.owner) := by
      rw [owners, ← map_fst_decoded, List.map_map]
      rfl
    refine ⟨_, listed, ?_, (ascending_byPriority sources).filter _, fun p => ?_⟩
    · rw [counted, listed, List.length_map]
    · rw [ofPriority_readable, ofPriority_byPriority, ofPriority_readable]

end Read

/-- Whatever the configurations are and whatever is made of them, an aggregation, its hash
included, takes no notice of contributions that cannot be read and of how contributions with
different priorities are ordered. -/
theorem aggregations_byPrecedence :
    (∀ (τ : Type) (a : ScalarAggregator τ) (toJson : τ → Json),
      ByPrecedence a.read a.aggregate (·.aggregation toJson)) ∧
    (∀ (γ ε : Type) (a : EntryAggregator γ ε) (toJson : ε → Json),
      ByPrecedence a.read a.aggregate (·.aggregation toJson)) ∧
    (∀ (γ : Type) (a : SettingsAggregator γ),
      ByPrecedence a.read a.aggregate SettingsResult.aggregation) := by
  refine ⟨fun τ a toJson => ?scalar, fun γ ε a toJson => ?entries, fun γ a => ?settings⟩
  case scalar =>
    refine byPrecedence_of_decoded (fun _ _ same => ?_) (fun _ => rfl) fun _ => rfl
    simp only [ScalarAggregator.aggregate, same]
  case entries =>
    refine byPrecedence_of_decoded (fun _ _ same => ?_) (fun _ => rfl) fun _ => rfl
    simp only [EntryAggregator.aggregate, same]
  case settings =>
    refine byPrecedence_of_decoded (fun _ _ same => ?_) (fun _ => rfl) fun _ => rfl
    simp only [SettingsAggregator.aggregate, same]

end Tributary
