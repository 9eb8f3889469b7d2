import Tributary.Proofs.Generations

/-!
# Contributions

Nothing that was registered gets lost and nothing comes back: the contributions of a record
are what the granted writes make of them one after the other, however the programs behind
them are interleaved (`Run.orderly`).
-/

namespace Tributary

/-! ## Lists of contributions -/

theorem find?_upsert (source : Contribution) (owner : Owner) (sources : List Contribution) :
    (upsert source sources).find? (·.owner = owner) =
      if source.owner = owner then some source else sources.find? (·.owner = owner) := by
  induction sources with
  | nil => by_cases h : source.owner = owner <;> simp [upsert, h]
  | cons s rest ih =>
    unfold upsert
    by_cases replaced : s.owner = source.owner
    · by_cases h : source.owner = owner <;> simp [replaced, h]
    · rw [if_neg replaced]
      by_cases h : s.owner = owner
      · have other : source.owner ≠ owner := fun same => replaced (h.trans same.symm)
        simp [h, other]
      · simp [h, ih]

/-- A contribution that replaces another one takes its place. -/
theorem owners_upsert (source : Contribution) (sources : List Contribution) :
    (upsert source sources).map (·.owner) =
      if source.owner ∈ sources.map (·.owner) then sources.map (·.owner)
      else sources.map (·.owner) ++ [source.owner] := by
  induction sources with
  | nil => simp [upsert]
  | cons s rest ih =>
    unfold upsert
    by_cases replaced : s.owner = source.owner
    · simp [replaced]
    · simp only [replaced, if_false, List.map_cons, ih, List.mem_cons, Ne.symm replaced, false_or]
      split <;> simp

theorem upsert_of_find? {source : Contribution} {sources : List Contribution}
    (found : sources.find? (·.owner = source.owner) = some source) :
    upsert source sources = sources := by
  induction sources with
  | nil => cases found
  | cons s rest ih =>
    unfold upsert
    by_cases replaced : s.owner = source.owner
    · rw [List.find?_cons_of_pos (by simpa using replaced)] at found
      rw [if_pos replaced, Option.some.inj found]
    · rw [List.find?_cons_of_neg (by simpa using replaced)] at found
      rw [if_neg replaced, ih found]

/-- At most one contribution for each owner. -/
def Distinct (sources : List Contribution) : Prop := (sources.map (·.owner)).Nodup

theorem Distinct.upsert {sources : List Contribution} (h : Distinct sources)
    (source : Contribution) : Distinct (upsert source sources) := by
  unfold Distinct
  rw [owners_upsert]
  split
  · exact h
  · next absent =>
    refine List.nodup_append.2 ⟨h, by simp, ?_⟩
    intro a ha b hb
    rw [List.mem_singleton.1 hb]
    exact fun same => absent (same ▸ ha)

theorem Distinct.filter {sources : List Contribution} (h : Distinct sources)
    (p : Contribution → Bool) : Distinct (sources.filter p) :=
  List.Nodup.sublist (List.filter_sublist.map _) h

/-! ## What a commit does to the contributions -/

theorem Registry.contribute_sources (source : Contribution) (r : Record) :
    (contribute source r).sources = upsert source r.sources := by
  unfold contribute
  split
  · rfl
  · next present =>
    have found : r.sourceFor source.owner = some source := by
      simpa [Record.lacks] using present
    exact (upsert_of_find? found).symm

theorem Registry.withdraw_sources (owner : Owner) (r : Record) :
    (withdraw owner r).1.sources = r.sources.filter (·.owner ≠ owner) := by
  unfold withdraw
  split
  · rfl
  · next absent =>
    have none : ∀ s ∈ r.sources, s.owner ≠ owner := by
      simpa [Record.sourceFor] using absent
    exact (List.filter_eq_self.2 fun s hs => by simpa using none s hs).symm

theorem Pass.Edits.sources {past : List Exchange} {v r : Record} (h : Pass.Edits past v r) :
    r.sources = v.sources := h.agrees.sources

namespace Job

/-- What the job makes of a list of contributions. -/
def apply : Job → List Contribution → List Contribution
  | .register _ _ _ source, sources => upsert source sources
  | .unregister _ _ owner, sources => sources.filter (·.owner ≠ owner)
  | .requestDeletion .., sources => sources
  | .reconcile .., sources => sources

/-- What an exchange of the job makes of the contributions of a record, if there is one. -/
def credit (j : Job) (key : String) (x : Exchange) (sources : Option (List Contribution)) :
    Option (List Contribution) :=
  match x with
  | ⟨.store (.create r), .ok _⟩ => if r.key = key then some (j.apply []) else sources
  | ⟨.store (.update r), .ok _⟩ => if r.key = key then sources.map j.apply else sources
  | ⟨.store (.delete r), .ok _⟩ => if r.key = key then none else sources
  | _ => sources

variable {j : Job} {past : List Exchange} {key : String} {x : Exchange} {v r : Record}

theorem edits_sources (h : j.protocol.edits past v r) : r.sources = j.apply v.sources := by
  cases j with
  | register policy key template source => exact h ▸ Registry.contribute_sources source v
  | unregister policy key owner => exact h ▸ Registry.withdraw_sources owner v
  | requestDeletion policy key => exact h ▸ rfl
  | reconcile e key => exact Pass.Edits.sources h

theorem creates_sources (h : j.protocol.creates r) : r.sources = j.apply [] := by
  cases j with
  | register policy key template source =>
    obtain ⟨now, rfl⟩ := h
    rfl
  | unregister | requestDeletion | reconcile => exact h.elim

theorem credit_of_kept (none : x.commits key = false) (sources : Option (List Contribution)) :
    j.credit key x sources = sources := by
  unfold credit
  split
  · rw [if_neg (by simpa [Exchange.commits] using none)]
  · rw [if_neg (by simpa [Exchange.commits] using none)]
  · rw [if_neg (by simpa [Exchange.commits] using none)]
  · rfl

theorem commit_sources {old new : Option Record} (h : Commit j.protocol past key x old new) :
    new.map (·.sources) = j.credit key x (old.map (·.sources)) := by
  cases h with
  | kept none v => exact (credit_of_kept none _).symm
  | created token _ hkey creates => simp [credit, hkey, creates_sources creates]
  | edited token now _ hkey _ edits =>
    simp [credit, hkey, Record.updated, edits_sources edits]
  | marked => rfl
  | deleted _ hkey => simp [credit, hkey]

theorem distinct_credit {sources : Option (List Contribution)}
    (h : ∀ l, sources = some l → Distinct l) :
    ∀ l, j.credit key x sources = some l → Distinct l := by
  have applied {l : List Contribution} (h : Distinct l) : Distinct (j.apply l) := by
    cases j with
    | register policy key template source => exact h.upsert source
    | unregister policy key owner => exact h.filter _
    | requestDeletion | reconcile => exact h
  intro l
  unfold credit
  split
  · split
    · rintro ⟨⟩
      exact applied (by simp [Distinct])
    · exact h l
  · split
    · intro hl
      obtain ⟨l', rfl, rfl⟩ := Option.map_eq_some_iff.1 hl
      exact applied (h l' rfl)
    · exact h l
  · split
    · intro hl
      cases hl
    · exact h l
  · exact h l

end Job

/-- The contributions of a record as the moves make them, one after the other. -/
def contributions (jobs : Nat → Job) (key : String) (first : Option (List Contribution)) :
    List Move → Option (List Contribution)
  | [] => first
  | mv :: past => (jobs mv.member).credit key mv.exchange (contributions jobs key first past)

/-! ## Withdrawals -/

/-- An owner contributes to a record. -/
def Registered (key : String) (owner : Owner) (m : Memory) : Prop :=
  ∃ r, m.records.get? key = some r ∧ (r.sourceFor owner).isSome

/-- A move that takes the contribution of an owner back. -/
def Move.Withdraws (key : String) (owner : Owner) (mv : Move) : Prop :=
  ∃ v w, mv.before.records.get? key = some v ∧ mv.after.records.get? key = some w ∧
    (v.sourceFor owner).isSome ∧ w.sources = v.sources.filter (·.owner ≠ owner)

/-- A move of a registration by which an owner comes to contribute. -/
def Move.Enters (jobs : Nat → Job) (key : String) (owner : Owner) (mv : Move) : Prop :=
  ¬ Registered key owner mv.before ∧ Registered key owner mv.after ∧
    ∃ policy template source, jobs mv.member = .register policy key template source ∧
      source.owner = owner

/-- A job that reports that it took the contribution of an owner back. -/
def Job.Reports (key : String) (owner : Owner) : (j : Job) → j.Result → Prop
  | .unregister _ k o, .ok true => k = key ∧ o = owner
  | .unregister .., _ => False
  | .register .., _ | .requestDeletion .., _ | .reconcile .., _ => False

namespace Job

variable {j : Job} {past : List Exchange} {key : String} {owner : Owner}

theorem withdrawn_of_reports {result : j.Result} (ends : j.Ends past result)
    (reports : j.Reports key owner result) :
    j.protocol.key = key ∧
      ∃ v : Record, (v.sourceFor owner).isSome ∧ Edited past v (Registry.withdraw owner v).1 := by
  cases j with
  | unregister policy k o =>
    cases result with
    | error e => exact reports.elim
    | ok removed =>
      cases removed with
      | false => exact reports.elim
      | true =>
        obtain ⟨rfl, rfl⟩ := reports
        exact ⟨rfl, ends⟩
  | register | requestDeletion | reconcile => exact reports.elim

theorem find?_apply (j : Job) (sources : List Contribution) (owner : Owner)
    (absent : (sources.find? (·.owner = owner)) = none)
    (entered : ((j.apply sources).find? (·.owner = owner)).isSome) :
    ∃ policy key template source, j = .register policy key template source ∧
      source.owner = owner := by
  cases j with
  | register policy key template source =>
    refine ⟨policy, key, template, source, rfl, ?_⟩
    change ((upsert source sources).find? (·.owner = owner)).isSome at entered
    rw [find?_upsert, absent] at entered
    split at entered
    · assumption
    · cases entered
  | unregister policy key other =>
    have none : ∀ s ∈ sources, s.owner ≠ owner := by simpa using absent
    obtain ⟨s, hs⟩ := Option.isSome_iff_exists.1 entered
    have member := List.mem_of_find?_eq_some hs
    have same : s.owner = owner := by simpa using List.find?_some hs
    exact absurd same (none s (List.mem_filter.1 member).1)
  | requestDeletion | reconcile =>
    change (sources.find? (·.owner = owner)).isSome at entered
    rw [absent] at entered
    cases entered

end Job

theorem Move.Withdraws.unregistered {key : String} {owner : Owner} {mv : Move}
    (h : mv.Withdraws key owner) : ¬ Registered key owner mv.after := by
  rintro ⟨r, stored, present⟩
  obtain ⟨v, w, _, after, _, sources⟩ := h
  obtain rfl : r = w := Option.some.inj (stored.symm.trans after)
  rw [Record.sourceFor, sources] at present
  obtain ⟨s, hs⟩ := Option.isSome_iff_exists.1 present
  have same : s.owner = owner := by simpa using List.find?_some hs
  have other : s.owner ≠ owner := by
    simpa using (List.mem_filter.1 (List.mem_of_find?_eq_some hs)).2
  exact other same

namespace Run

variable {faulty : StoreError → Prop} {jobs : Nat → Job} {start m : Memory}
  {history earlier between : List Move} {mv : Move} {key : String} {owner : Owner}

theorem sources_eq (run : Run faulty (Job.crew jobs) start history m) (h : start.Sound) :
    (m.records.get? key).map (·.sources) =
      contributions jobs key ((start.records.get? key).map (·.sources)) history := by
  induction history generalizing m with
  | nil =>
    cases run
    rfl
  | cons mv past ih =>
    have committed := run.committed h key
    obtain ⟨before, _⟩ := run.last
    rw [run.memory_eq, contributions, ← ih before]
    exact Job.commit_sources committed

theorem distinct (run : Run faulty (Job.crew jobs) start history m) (h : start.Sound)
    (first : ∀ r, start.records.get? key = some r → Distinct r.sources) {r : Record}
    (stored : m.records.get? key = some r) : Distinct r.sources := by
  have kept (history : List Move) : ∀ l,
      contributions jobs key ((start.records.get? key).map (·.sources)) history = some l →
        Distinct l := by
    induction history with
    | nil =>
      intro l hl
      obtain ⟨r, hr, rfl⟩ := Option.map_eq_some_iff.1 hl
      exact first r hr
    | cons mv past ih => exact Job.distinct_credit ih
  refine kept history r.sources ?_
  rw [← run.sources_eq h, stored]
  rfl

/-- Who comes to contribute has been entered by a registration. -/
theorem enters (run : Run faulty (Job.crew jobs) start (mv :: earlier) m)
    (h : start.Sound) (absent : ¬ Registered key owner mv.before)
    (entered : Registered key owner mv.after) : mv.Enters jobs key owner := by
  refine ⟨absent, entered, ?_⟩
  have committed := run.committed h key
  obtain ⟨w, stored, present⟩ := entered
  rw [stored] at committed
  have missing {v : Record} (hv : mv.before.records.get? key = some v) :
      v.sourceFor owner = none := by
    cases hs : v.sourceFor owner with
    | none => rfl
    | some s => exact absurd ⟨v, hv, by simp [hs]⟩ absent
  have registers {sources : List Contribution} (mine : (jobs mv.member).protocol.key = key)
      (none : sources.find? (·.owner = owner) = none)
      (some : (((jobs mv.member).apply sources).find? (·.owner = owner)).isSome) :
      ∃ policy template source, jobs mv.member = .register policy key template source ∧
        source.owner = owner := by
    obtain ⟨policy, key', template, source, hj, ho⟩ := Job.find?_apply _ _ _ none some
    rw [hj] at mine
    obtain rfl : key' = key := mine
    exact ⟨policy, template, source, hj, ho⟩
  generalize hold : mv.before.records.get? key = old at committed
  generalize mv.exchange = x at committed
  cases committed with
  | kept => exact absurd ⟨w, hold, present⟩ absent
  | created token mine _ creates =>
    rw [Record.sourceFor, Job.creates_sources creates] at present
    exact registers mine rfl present
  | edited token now mine _ _ edits =>
    rw [Record.sourceFor, Record.updated, Job.edits_sources edits] at present
    exact registers mine (missing hold) present
  | @marked v _ _ mine =>
    have none := missing hold
    change (v.sourceFor owner).isSome at present
    rw [none] at present
    cases present

/-- Who reports that it took a contribution back has done so. -/
theorem withdraws (run : Run faulty (Job.crew jobs) start history m) (h : start.Sound) {i : Nat}
    {result : (jobs i).Result} (left : (jobs i).program.Leaves (own i history) (.done result))
    (reports : (jobs i).Reports key owner result) :
    ∃ later mv earlier, history = later ++ mv :: earlier ∧ mv.member = i ∧
      mv.Withdraws key owner := by
  have ends := run.ended h (i := i) left (jobs i).ensures
  obtain ⟨mine, v, present, since, token, before, split, read⟩ :=
    Job.withdrawn_of_reports ends reports
  obtain ⟨later, mv, earlier, rfl, rfl, hx, rfl, rfl⟩ := exists_of_own split
  refine ⟨later, mv, earlier, rfl, rfl, ?_⟩
  have committed := run.upto_move.committed h key
  have allowed := (run.upto_move.allowed h).2
  obtain ⟨i, ⟨q, a⟩, old, new⟩ := mv
  cases hx
  obtain ⟨v', read', hkey', hkey, _⟩ := allowed
  have same : (Registry.withdraw owner v).1.key = key := (hkey.trans hkey').trans mine
  dsimp only [Move.Withdraws] at committed ⊢
  generalize old.records.get? key = before at committed ⊢
  generalize new.records.get? key = after at committed ⊢
  cases committed with
  | kept none => simp [Exchange.commits, same] at none
  | @edited v' _ _ now _ _ read' _ =>
    obtain rfl : v' = v := Option.some.inj (read'.symm.trans read)
    exact ⟨v', _, rfl, rfl, present, Registry.withdraw_sources owner v'⟩

end Run

/-- What holds of a record, its contributions and its generation in every run. -/
structure Orderly (jobs : Nat → Job) (key : String) (start : Memory) (history : List Move) :
    Prop where
  /-- There is at most one contribution for each owner. -/
  distinct : ∀ r, (memoryAfter start history).records.get? key = some r → Distinct r.sources
  /-- The contributions are those that the commits make of each other in their order. -/
  replayed : ((memoryAfter start history).records.get? key).map (·.sources) =
    contributions jobs key ((start.records.get? key).map (·.sources)) history
  /-- A commit counts the generation up by one if it changes the contributions, and never
  down. -/
  counted : ∀ later mv earlier, history = later ++ mv :: earlier → ∀ v w,
    mv.before.records.get? key = some v → mv.after.records.get? key = some w →
      v.generation ≤ w.generation ∧ (w.sources ≠ v.sources → w.generation = v.generation + 1)
  /-- In the life of a record its generation never falls and identifies what it asks for. -/
  identified : ∀ later between earlier, history = later ++ between ++ earlier →
    Undeleted key between → ∀ v w,
      (memoryAfter start earlier).records.get? key = some v →
      (memoryAfter start (between ++ earlier)).records.get? key = some w →
        v.generation ≤ w.generation ∧
          (w.generation = v.generation →
            w.sources = v.sources ∧ w.deletionRequested = v.deletionRequested)
  /-- Who reports that it took a contribution back has done so itself. -/
  reported : ∀ i owner (result : (jobs i).Result),
    (jobs i).program.Leaves (own i history) (.done result) →
    (jobs i).Reports key owner result →
      ∃ later mv earlier, history = later ++ mv :: earlier ∧ mv.member = i ∧
        mv.Withdraws key owner
  /-- Between two withdrawals the owner has registered again. -/
  once : ∀ later last between first earlier owner,
    history = later ++ last :: (between ++ first :: earlier) →
    first.Withdraws key owner → last.Withdraws key owner →
      ∃ mv ∈ between, mv.Enters jobs key owner

end Tributary
