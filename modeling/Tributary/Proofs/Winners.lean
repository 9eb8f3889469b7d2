import Tributary.Proofs.Rankings

/-!
# Who wins a key

Each key of a table of settings goes to the contribution that outranks all others that set it, and
a key that none sets is missing. So a contribution that comes, goes or changes what it says leaves
alone every key that is won by one that outranks it (`settings_won`).
-/

namespace Tributary

namespace SettingsAggregator

variable {γ : Type} {a : SettingsAggregator γ} {key : String} {sources : List Contribution}

/-- The setting of a key that a contribution asks for, if it can be read and sets the key. -/
def setting? (a : SettingsAggregator γ) (key : String) (s : Contribution) : Option Setting :=
  (Aggregation.decode a.read s).bind fun (_, config) =>
    ((a.extract config).get? key).map (⟨·, s.owner, s.priority⟩)

/-- A contribution stands among others, sets a key and outranks all others that set it. -/
structure Wins (a : SettingsAggregator γ) (key : String) (sources : List Contribution)
    (s : Contribution × Nat) : Prop where
  stands : s ∈ sources.zipIdx
  sets : (a.setting? key s.1).isSome
  first : ∀ t ∈ sources.zipIdx, (a.setting? key t.1).isSome → t = s ∨ Outranks s t

/-! ## The keys of one table -/

/-- A contribution sets the keys that are free. -/
theorem get?_contribute (s : Contribution) (t : Table Setting) (config : Table Json)
    (key : String) : (contribute s t config).get? key =
      (t.get? key).or ((config.get? key).map (⟨·, s.owner, s.priority⟩)) := by
  obtain ⟨pairs⟩ := config
  unfold contribute
  change _ = (t.get? key).or ((Table.look key pairs).map _)
  induction pairs generalizing t with
  | nil => simp [Table.look]
  | cons pair rest ih =>
    obtain ⟨k, v⟩ := pair
    rw [List.foldl_cons, ih]
    simp only [Table.look]
    by_cases here : key = k
    · subst here
      cases free : t.get? key <;> simp [Table.contains, free]
    · cases taken : t.contains k <;> simp [here]

/-- A key has the setting of the first contribution, in order of precedence, that sets it. -/
theorem get?_aggregate (a : SettingsAggregator γ) (sources : List Contribution) (key : String) :
    (a.aggregate sources).settings.get? key =
      (Aggregation.byPriority sources).findSome? (a.setting? key) := by
  have onward (l : List Contribution) (t : Table Setting) :
      ((l.filterMap (Aggregation.decode a.read)).foldl
        (fun t (s, config) => contribute s t (a.extract config)) t).get? key =
        (t.get? key).or (l.findSome? (a.setting? key)) := by
    induction l generalizing t with
    | nil => simp
    | cons s rest ih =>
      rw [List.filterMap_cons, List.findSome?_cons, setting?]
      cases read : Aggregation.decode a.read s with
      | none => exact ih t
      | some known =>
        obtain ⟨s', config⟩ := known
        obtain rfl : s' = s := fst_of_decode read
        rw [List.foldl_cons, ih, get?_contribute, Option.or_assoc]
        congr 1
        cases sets : (a.extract config).get? key <;> simp [sets]
  exact onward _ {}

/-! ## Who wins -/

theorem Wins.unique {s t : Contribution × Nat} (h : a.Wins key sources s)
    (h' : a.Wins key sources t) : s = t := by
  obtain same | before := h.first t h'.stands h'.sets
  · exact same.symm
  · obtain same | after := h'.first s h.stands h.sets
    · exact same
    · exact absurd after before.asymm

theorem exists_wins {x : Setting} (h : (a.aggregate sources).settings.get? key = some x) :
    ∃ s, a.Wins key sources s ∧ a.setting? key s.1 = some x := by
  obtain ⟨ranked, ranking, order⟩ := exists_ranking sources
  rw [get?_aggregate, order, List.findSome?_map, List.findSome?_eq_some_iff] at h
  obtain ⟨before, s, after, rfl, sets, free⟩ := h
  refine ⟨s, ⟨ranking.complete.mem_iff.1 (by simp), ?_, fun t mem asks => ?_⟩, sets⟩
  · exact Option.isSome_iff_exists.2 ⟨x, sets⟩
  · rcases List.mem_append.1 (ranking.complete.mem_iff.2 mem) with earlier | mem
    · simp [Function.comp_apply ▸ free t earlier] at asks
    · rcases List.mem_cons.1 mem with same | later
      · exact .inl same
      · have ordered := (List.pairwise_append.1 ranking.ordered).2.1
        exact .inr (List.rel_of_pairwise_cons ordered later)

theorem get?_eq_none_iff : (a.aggregate sources).settings.get? key = none ↔
    ∀ s ∈ sources, a.setting? key s = none := by
  rw [get?_aggregate, List.findSome?_eq_none_iff]
  exact forall_congr' fun s => by rw [mem_byPriority]

theorem Wins.get?_eq {s : Contribution × Nat} (h : a.Wins key sources s) :
    (a.aggregate sources).settings.get? key = a.setting? key s.1 := by
  cases won : (a.aggregate sources).settings.get? key with
  | none =>
    have stands : s.1 ∈ sources := List.fst_mem_of_mem_zipIdx h.stands
    exact (get?_eq_none_iff.1 won s.1 stands).symm
  | some x =>
    obtain ⟨t, wins, sets⟩ := exists_wins won
    rw [h.unique wins, sets]

/-- What a table of settings says of a key. -/
structure Awards (a : SettingsAggregator γ) (key : String) (sources : List Contribution) :
    Prop where
  won : ∀ x, (a.aggregate sources).settings.get? key = some x ↔
    ∃ s, a.Wins key sources s ∧ a.setting? key s.1 = some x
  missing : (a.aggregate sources).settings.get? key = none ↔
    ∀ s ∈ sources, a.setting? key s = none
  value : (a.aggregate sources).values.get? key = (a.aggregate sources).get? key

theorem awards (a : SettingsAggregator γ) (key : String) (sources : List Contribution) :
    a.Awards key sources where
  won _ := ⟨exists_wins, fun ⟨_, wins, sets⟩ => wins.get?_eq.trans sets⟩
  missing := get?_eq_none_iff
  value := Table.get?_map ..

/-! ## One contribution more or less -/

section Place

variable {before after : List Contribution} {s : Contribution}

/-- The place of a contribution after one has been put at place `n`. -/
def shifted (n : Nat) (t : Contribution × Nat) : Contribution × Nat :=
  (t.1, if t.2 < n then t.2 else t.2 + 1)

theorem shifted_injective (n : Nat) : Function.Injective (shifted n) := by
  rintro ⟨x, i⟩ ⟨y, j⟩ same
  simp only [shifted, Prod.mk.injEq] at same ⊢
  refine ⟨same.1, ?_⟩
  have := same.2
  split at this <;> split at this <;> omega

theorem shifted_outranks {n : Nat} {t u : Contribution × Nat} :
    Outranks (shifted n t) (shifted n u) ↔ Outranks t u := by
  simp only [Outranks, shifted]
  split <;> split <;> omega

theorem shifted_outranks_new {t : Contribution × Nat} :
    Outranks (shifted before.length t) (s, before.length) ↔ Outranks t (s, before.length) := by
  simp only [Outranks, shifted]
  split <;> omega

theorem shifted_mem {t : Contribution × Nat} :
    shifted before.length t ∈ (before ++ s :: after).zipIdx ↔ t ∈ (before ++ after).zipIdx := by
  obtain ⟨x, i⟩ := t
  simp only [shifted, List.mk_mem_zipIdx_iff_getElem?]
  split
  · next first => rw [List.getElem?_append_left first, List.getElem?_append_left first]
  · next later =>
    obtain ⟨j, rfl⟩ := Nat.exists_eq_add_of_le (Nat.le_of_not_lt later)
    simp [List.getElem?_append, Nat.add_assoc]

theorem eq_or_shifted {t : Contribution × Nat} (mem : t ∈ (before ++ s :: after).zipIdx) :
    t = (s, before.length) ∨ ∃ u, t = shifted before.length u := by
  obtain ⟨x, i⟩ := t
  rcases Nat.lt_trichotomy i before.length with first | rfl | later
  · exact .inr ⟨(x, i), by simp [shifted, first]⟩
  · have there : s = x := by simpa using List.mk_mem_zipIdx_iff_getElem?.1 mem
    exact .inl (by rw [there])
  · obtain ⟨j, rfl⟩ := Nat.exists_eq_add_of_lt later
    exact .inr ⟨(x, before.length + j), by simp [shifted]⟩

/-- A newcomer that is outranked by the winner wins nothing. -/
theorem Wins.joined {t : Contribution × Nat} (h : a.Wins key (before ++ after) t)
    (ahead : Outranks t (s, before.length)) :
    a.Wins key (before ++ s :: after) (shifted before.length t) where
  stands := shifted_mem.2 h.stands
  sets := h.sets
  first u mem asks := by
    obtain rfl | ⟨u, rfl⟩ := eq_or_shifted mem
    · exact .inr (shifted_outranks_new.2 ahead)
    · obtain rfl | before := h.first u (shifted_mem.1 mem) asks
      · exact .inl rfl
      · exact .inr (shifted_outranks.2 before)

/-- Who wins before another leaves wins afterwards. -/
theorem Wins.left {t : Contribution × Nat}
    (h : a.Wins key (before ++ s :: after) (shifted before.length t)) :
    a.Wins key (before ++ after) t where
  stands := shifted_mem.1 h.stands
  sets := h.sets
  first u mem asks := by
    obtain same | before := h.first (shifted before.length u) (shifted_mem.2 mem) asks
    · exact .inl (shifted_injective _ same)
    · exact .inr (shifted_outranks.1 before)

/-- The key is won by a contribution that outranks another one. -/
def WonAhead (a : SettingsAggregator γ) (key : String) (sources : List Contribution)
    (t : Contribution × Nat) : Prop :=
  ∃ s, a.Wins key sources s ∧ Outranks s t

/-- What a contribution at some place does to a key that is won by one that outranks it: nothing,
whether it joins the others, leaves them or changes what it says. -/
structure Steady (a : SettingsAggregator γ) (key : String) (before : List Contribution)
    (s : Contribution) (after : List Contribution) : Prop where
  joins : a.WonAhead key (before ++ after) (s, before.length) →
    (a.aggregate (before ++ s :: after)).settings.get? key =
      (a.aggregate (before ++ after)).settings.get? key
  leaves : a.WonAhead key (before ++ s :: after) (s, before.length) →
    (a.aggregate (before ++ after)).settings.get? key =
      (a.aggregate (before ++ s :: after)).settings.get? key
  changes : ∀ payload, a.WonAhead key (before ++ s :: after) (s, before.length) →
    (a.aggregate (before ++ { s with payload } :: after)).settings.get? key =
      (a.aggregate (before ++ s :: after)).settings.get? key

theorem WonAhead.joins (h : a.WonAhead key (before ++ after) (s, before.length)) :
    (a.aggregate (before ++ s :: after)).settings.get? key =
      (a.aggregate (before ++ after)).settings.get? key := by
  obtain ⟨t, wins, ahead⟩ := h
  exact (wins.joined ahead).get?_eq.trans wins.get?_eq.symm

theorem WonAhead.exists_left (h : a.WonAhead key (before ++ s :: after) (s, before.length)) :
    ∃ t, a.Wins key (before ++ after) t ∧ Outranks t (s, before.length) ∧
      a.Wins key (before ++ s :: after) (shifted before.length t) := by
  obtain ⟨u, wins, ahead⟩ := h
  obtain rfl | ⟨t, rfl⟩ := eq_or_shifted wins.stands
  · exact absurd ahead ahead.asymm
  · exact ⟨t, wins.left, shifted_outranks_new.1 ahead, wins⟩

theorem steady (a : SettingsAggregator γ) (key : String) (before : List Contribution)
    (s : Contribution) (after : List Contribution) : a.Steady key before s after where
  joins := WonAhead.joins
  leaves h := by
    obtain ⟨t, wins, -, wins'⟩ := h.exists_left
    exact wins.get?_eq.trans wins'.get?_eq.symm
  changes payload h := by
    obtain ⟨t, wins, ahead, wins'⟩ := h.exists_left
    -- It leaves and comes back with another payload, at the same rank.
    have again : a.WonAhead key (before ++ after) ({ s with payload }, before.length) :=
      ⟨t, wins, ahead⟩
    rw [again.joins, wins.get?_eq]
    exact wins'.get?_eq.symm

end Place

end SettingsAggregator

/-- A key has the value, the owner and the priority of the contribution that outranks all others
that set it, and is missing if there is none. So nothing that is outranked by the winner of a key
can change what the key has. -/
theorem settings_won {γ : Type} (a : SettingsAggregator γ) (key : String) :
    (∀ sources, a.Awards key sources) ∧
      ∀ before s after, a.Steady key before s after :=
  ⟨a.awards key, a.steady key⟩

end Tributary
