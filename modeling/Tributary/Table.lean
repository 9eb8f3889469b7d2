/-!
# Tables by key

Values under distinct text keys, listed in ascending key order. `get?_set` and
`get?_erase` say what each operation does to a look-up.
-/

namespace Tributary

structure Table (α : Type u) where
  entries : List (String × α)
  deriving DecidableEq, Inhabited

namespace Table

variable {α : Type u}

def empty : Table α := ⟨[]⟩

instance : EmptyCollection (Table α) := ⟨empty⟩

/-- The value of the first pair with a key. -/
def look (key : String) : List (String × α) → Option α
  | [] => none
  | (k, v) :: rest => if key = k then some v else look key rest

/-- The value under a key. -/
def get? (t : Table α) (key : String) : Option α := look key t.entries

def contains (t : Table α) (key : String) : Bool := (t.get? key).isSome

/-- Puts a value in its place, instead of the one that was there. -/
def place (key : String) (value : α) : List (String × α) → List (String × α)
  | [] => [(key, value)]
  | (k, v) :: rest =>
    if key = k then (key, value) :: rest
    else if key < k then (key, value) :: (k, v) :: rest
    else (k, v) :: place key value rest

def set (t : Table α) (key : String) (value : α) : Table α := ⟨place key value t.entries⟩

def erase (t : Table α) (key : String) : Table α := ⟨t.entries.filter (·.1 ≠ key)⟩

def keys (t : Table α) : List String := t.entries.map (·.1)

def isEmpty (t : Table α) : Bool := t.entries.isEmpty

def size (t : Table α) : Nat := t.entries.length

/-- The table of a list of pairs; a repeated key keeps its last value. -/
def ofList (pairs : List (String × α)) : Table α :=
  pairs.foldl (fun t p => t.set p.1 p.2) empty

def map (f : α → β) (t : Table α) : Table β := ⟨t.entries.map fun p => (p.1, f p.2)⟩

@[simp] theorem get?_empty (key : String) : (empty : Table α).get? key = none := rfl

theorem look_place (key k : String) (value : α) (entries : List (String × α)) :
    look k (place key value entries) = if k = key then some value else look k entries := by
  induction entries with
  | nil => simp [place, look]
  | cons p rest ih =>
    obtain ⟨k', v⟩ := p
    unfold place
    by_cases hk : key = k'
    · subst hk
      by_cases h : k = key <;> simp [look, h]
    · by_cases h : k = key
      · subst h
        by_cases hlt : k < k' <;> simp [look, hk, hlt, ih]
      · by_cases hlt : key < k' <;> simp [look, hk, hlt, h, ih]

theorem look_filter (key k : String) (entries : List (String × α)) :
    look k (entries.filter (·.1 ≠ key)) = if k = key then none else look k entries := by
  induction entries with
  | nil => simp [look]
  | cons p rest ih =>
    obtain ⟨k', v⟩ := p
    by_cases hk : k' = key
    · subst hk
      by_cases h : k = k' <;> simp_all [look]
    · by_cases h : k = key
      · subst h
        simp_all [look, eq_comm]
      · by_cases h' : k = k' <;> simp_all [look]

@[simp] theorem get?_set (t : Table α) (key k : String) (value : α) :
    (t.set key value).get? k = if k = key then some value else t.get? k :=
  look_place key k value t.entries

@[simp] theorem get?_erase (t : Table α) (key k : String) :
    (t.erase key).get? k = if k = key then none else t.get? k :=
  look_filter key k t.entries

theorem get?_of_isEmpty {t : Table α} (h : t.isEmpty = true) (key : String) :
    t.get? key = none := by
  obtain ⟨_ | _⟩ := t
  · rfl
  · cases h

theorem get?_eq_none_of_not_mem {t : Table α} {key : String} (h : key ∉ t.keys) :
    t.get? key = none := by
  obtain ⟨entries⟩ := t
  simp only [keys, get?] at h ⊢
  induction entries with
  | nil => rfl
  | cons p rest ih =>
    simp only [List.map_cons, List.mem_cons, not_or] at h
    simp [look, h.1, ih h.2]

theorem mem_keys (t : Table α) (key : String) : key ∈ t.keys ↔ t.contains key = true := by
  constructor
  · intro mem
    obtain ⟨entries⟩ := t
    simp only [keys, contains, get?] at mem ⊢
    induction entries with
    | nil => cases mem
    | cons p rest ih =>
      by_cases same : key = p.1
      · simp [look, same]
      · have later : key ∈ rest.map (·.1) := by simpa [same] using mem
        simpa [look, same] using ih later
  · intro found
    apply Decidable.of_not_not
    intro missing
    simp [contains, get?_eq_none_of_not_mem missing] at found

/-! ## The order of the keys -/

/-- The keys of a table ascend, so that each stands there once. -/
def Ascending (t : Table α) : Prop := t.entries.Pairwise (·.1 < ·.1)

theorem ascending_empty : (empty : Table α).Ascending := List.Pairwise.nil

theorem mem_place {key : String} {value : α} {entries : List (String × α)} {p : String × α}
    (h : p ∈ place key value entries) : p = (key, value) ∨ p ∈ entries := by
  induction entries with
  | nil => exact .inl (List.mem_singleton.mp h)
  | cons q rest ih =>
    unfold place at h
    split at h
    · rcases List.mem_cons.mp h with new | old
      · exact .inl new
      · exact .inr (List.mem_cons_of_mem q old)
    · split at h
      · exact List.mem_cons.mp h
      · rcases List.mem_cons.mp h with first | later
        · exact .inr (first ▸ List.mem_cons_self)
        · exact (ih later).imp_right (List.mem_cons_of_mem q)

theorem pairwise_place {key : String} {value : α} {entries : List (String × α)}
    (ascending : entries.Pairwise (·.1 < ·.1)) :
    (place key value entries).Pairwise (·.1 < ·.1) := by
  induction entries with
  | nil => exact List.pairwise_singleton _ _
  | cons p rest ih =>
    obtain ⟨first, ascending⟩ := List.pairwise_cons.mp ascending
    unfold place
    by_cases same : key = p.1
    · rw [if_pos same]
      exact List.pairwise_cons.mpr ⟨same ▸ first, ascending⟩
    · rw [if_neg same]
      by_cases before : key < p.1
      · rw [if_pos before]
        refine List.pairwise_cons.mpr ⟨?_, List.pairwise_cons.mpr ⟨first, ascending⟩⟩
        intro q mem
        rcases List.mem_cons.mp mem with rfl | later
        · exact before
        · exact String.lt_trans before (first q later)
      · rw [if_neg before]
        refine List.pairwise_cons.mpr ⟨?_, ih ascending⟩
        intro q mem
        rcases mem_place mem with rfl | later
        · apply Decidable.of_not_not
          intro after
          exact same (String.le_antisymm (String.not_lt.mp after) (String.not_lt.mp before))
        · exact first q later

theorem Ascending.set {t : Table α} (h : t.Ascending) (key : String) (value : α) :
    (t.set key value).Ascending :=
  pairwise_place h

theorem Ascending.erase {t : Table α} (h : t.Ascending) (key : String) :
    (t.erase key).Ascending :=
  List.Pairwise.filter _ h

theorem Ascending.nodup {t : Table α} (h : t.Ascending) : t.keys.Nodup :=
  List.Pairwise.map _ (fun _ _ before same => String.lt_irrefl _ (same ▸ before)) h

/-! ## Tables from pairs -/

variable {β : Type v}

theorem place_map (f : α → β) (key : String) (value : α) (entries : List (String × α)) :
    place key (f value) (entries.map fun p => (p.1, f p.2)) =
      (place key value entries).map fun p => (p.1, f p.2) := by
  induction entries with
  | nil => rfl
  | cons p rest ih =>
    simp only [List.map_cons, place, ih]
    split
    · rfl
    · split <;> rfl

theorem set_map (f : α → β) (t : Table α) (key : String) (value : α) :
    (t.map f).set key (f value) = (t.set key value).map f :=
  congrArg Table.mk (place_map f key value t.entries)

theorem get?_map (f : α → β) (t : Table α) (key : String) :
    (t.map f).get? key = (t.get? key).map f := by
  obtain ⟨entries⟩ := t
  simp only [map, get?]
  induction entries with
  | nil => rfl
  | cons p rest ih =>
    simp only [List.map_cons, look, ih]
    split <;> rfl

/-- Values may be changed before or after the pairs are put in order. -/
theorem ofList_map (f : α → β) (pairs : List (String × α)) :
    ofList (pairs.map fun p => (p.1, f p.2)) = (ofList pairs).map f := by
  have onward (t : Table α) :
      (pairs.map fun p => (p.1, f p.2)).foldl (fun t p => t.set p.1 p.2) (t.map f) =
        (pairs.foldl (fun t p => t.set p.1 p.2) t).map f := by
    induction pairs generalizing t with
    | nil => rfl
    | cons p rest ih =>
      simp only [List.map_cons, List.foldl_cons, set_map]
      exact ih _
  exact onward empty

theorem mem_of_get? {t : Table α} {key : String} {value : α} (h : t.get? key = some value) :
    (key, value) ∈ t.entries := by
  obtain ⟨entries⟩ := t
  simp only [get?] at h ⊢
  induction entries with
  | nil => cases h
  | cons p rest ih =>
    by_cases same : key = p.1
    · simp only [look, same, if_true, Option.some.injEq] at h
      exact List.mem_cons.2 (.inl (Prod.ext same h.symm))
    · simp only [look, same, if_false] at h
      exact List.mem_cons_of_mem p (ih h)

/-- Leaving out values leaves the others where they are. -/
theorem get?_filter {t : Table α} (h : t.Ascending) (keep : α → Bool) (key : String) :
    (⟨t.entries.filter fun p => keep p.2⟩ : Table α).get? key = (t.get? key).filter keep := by
  obtain ⟨entries⟩ := t
  simp only [get?, Ascending] at h ⊢
  induction entries with
  | nil => rfl
  | cons p rest ih =>
    obtain ⟨first, later⟩ := List.pairwise_cons.1 h
    by_cases here : key = p.1
    · -- A key that is left out does not stand there again.
      have gone : look key rest = none := by
        refine get?_eq_none_of_not_mem (t := ⟨rest⟩) fun again => ?_
        obtain ⟨q, mem, same⟩ := List.mem_map.1 again
        exact String.lt_irrefl _ ((same.trans here) ▸ first q mem)
      by_cases kept : keep p.2
      · simp [look, here, kept, Option.filter]
      · rw [List.filter_cons_of_neg (by simpa using kept), ih later, gone]
        simp [look, here, kept, Option.filter]
    · by_cases kept : keep p.2 <;> simp [look, here, kept, ih later]

theorem mem_ofList {pairs : List (String × α)} {p : String × α}
    (h : p ∈ (ofList pairs).entries) : p ∈ pairs := by
  have onward (pairs : List (String × α)) (t : Table α)
      (h : p ∈ (pairs.foldl (fun t p => t.set p.1 p.2) t).entries) :
      p ∈ t.entries ∨ p ∈ pairs := by
    induction pairs generalizing t with
    | nil => exact .inl h
    | cons q rest ih =>
      rcases ih (t.set q.1 q.2) h with before | later
      · rcases mem_place before with same | old
        · exact .inr (same ▸ List.mem_cons_self)
        · exact .inl old
      · exact .inr (List.mem_cons_of_mem q later)
  exact (onward pairs empty h).resolve_left List.not_mem_nil

theorem ascending_ofList (pairs : List (String × α)) : (ofList pairs).Ascending := by
  have onward (t : Table α) (h : t.Ascending) :
      (pairs.foldl (fun t p => t.set p.1 p.2) t).Ascending := by
    induction pairs generalizing t with
    | nil => exact h
    | cons p rest ih => exact ih (t.set p.1 p.2) (h.set p.1 p.2)
  exact onward empty ascending_empty

theorem place_last {key : String} {value : α} {entries : List (String × α)}
    (h : ∀ p ∈ entries, p.1 < key) : place key value entries = entries ++ [(key, value)] := by
  induction entries with
  | nil => rfl
  | cons p rest ih =>
    have before := h p List.mem_cons_self
    have other : key ≠ p.1 := fun same => String.lt_irrefl _ (same ▸ before)
    have after : ¬ key < p.1 := fun after => String.lt_irrefl _ (String.lt_trans before after)
    simp only [place, other, after, if_false, List.cons_append]
    rw [ih fun q later => h q (List.mem_cons_of_mem p later)]

/-- The pairs of a table make up that table again. -/
theorem ofList_entries {t : Table α} (h : t.Ascending) : ofList t.entries = t := by
  have onward (first rest : List (String × α)) (h : (first ++ rest).Pairwise (·.1 < ·.1)) :
      rest.foldl (fun t p => t.set p.1 p.2) (⟨first⟩ : Table α) = ⟨first ++ rest⟩ := by
    induction rest generalizing first with
    | nil => simp
    | cons p rest ih =>
      have last : (⟨first⟩ : Table α).set p.1 p.2 = ⟨first ++ [p]⟩ :=
        congrArg Table.mk (place_last fun q before =>
          (List.pairwise_append.1 h).2.2 q before p List.mem_cons_self)
      rw [List.foldl_cons, last, ih (first ++ [p]) (by simpa using h)]
      simp
  exact onward [] t.entries h

end Table

end Tributary
