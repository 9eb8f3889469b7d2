import Tributary.Proofs.Generations

/-!
# Teardowns

What a teardown takes down, gives back or enters as done is what it was asked to: the version
that it writes to still has the generation, and so the contributions, of the version that the
round began with (`Run.teardown_current`). It relies on one pass at a time for each record,
which a dispatcher sees to, and on nothing else: the store may refuse any call, and anybody
may register or withdraw between any two of them.
-/

namespace Tributary

open Exchange (Kind)

/-- As a dispatcher sees to it, no other pass over a record moves between two moves of one. -/
def OnePassAtATime (jobs : Nat → Job) (key : String) (history : List Move) : Prop :=
  ∀ later last between first earlier, history = later ++ last :: (between ++ first :: earlier) →
    last.member = first.member → (jobs first.member).passes key = true →
      ∀ mv ∈ between, (jobs mv.member).passes key = true → mv.member = first.member

theorem onePassAtATime_of_single {jobs : Nat → Job} {key : String} {history : List Move} {i : Nat}
    (single : ∀ j, (jobs j).passes key = true → j = i) : OnePassAtATime jobs key history := by
  intro _ _ _ first _ _ _ pass mv _ other
  exact (single _ other).trans (single _ pass).symm

theorem Job.passes_of_removes {j : Job} {past : List Exchange} {x : Exchange} {key : String}
    (asked : j.protocol.Asks past x.request) (removes : x.removes key = true) :
    j.passes key = true ∧ x.isRemoval = true := by
  unfold Exchange.removes at removes
  split at removes
  · obtain ⟨_, _, mine, deletes⟩ := asked
    refine ⟨?_, rfl⟩
    cases j with
    | reconcile e k =>
      obtain rfl : _ = key := by simpa using removes
      exact decide_eq_true mine.symm
    | register | unregister | requestDeletion => exact deletes.elim
  · cases removes

variable {faulty : StoreError → Prop} {jobs : Nat → Job} {start m : Memory}
  {since before later earlier : List Move} {mv : Move} {key : String} {c v : Record}

namespace Run

/-- The record that a pass has read is not deleted while the pass goes on. -/
theorem undeleted (run : Run faulty (Job.crew jobs) start (mv :: (since ++ before)) m)
    (h : start.Sound) (alone : OnePassAtATime jobs key (mv :: (since ++ before)))
    (pass : (jobs mv.member).passes key = true) (reads : Reads mv.member c before) :
    Undeleted key since := by
  obtain ⟨first, past, rfl, same, _⟩ := reads
  intro x hx
  cases removes : x.exchange.removes key with
  | false => rfl
  | true =>
    obtain ⟨since', since'', rfl⟩ := List.append_of_mem hx
    have split : mv :: (since' ++ x :: since'' ++ first :: past) =
        (mv :: since') ++ x :: (since'' ++ first :: past) := by simp
    have asked := (Run.upto_move (split ▸ run)).allowed h
    have ⟨other, removal⟩ := Job.passes_of_removes asked removes
    have own : x.member = mv.member :=
      (alone [] _ _ _ _ rfl same.symm (same ▸ pass) x hx other).trans same
    have done : x.exchange ∈ Tributary.own mv.member (since' ++ x :: since'' ++ first :: past) := by
      simp [Tributary.own, own]
    exact absurd ((run.allowed h).1 _ done) (by simp [removal])

/-- A version that a pass held before was the stored one, and its record is still there. -/
theorem since_held (run : Run faulty (Job.crew jobs) start (mv :: earlier) m) (h : start.Sound)
    (alone : OnePassAtATime jobs key (mv :: earlier)) (pass : (jobs mv.member).passes key = true)
    {k : Kind} (held : heldAt k (own mv.member earlier) = some c) :
    ∃ since before, earlier = since ++ before ∧ Reads mv.member c before ∧
      (memoryAfter start before).records.get? key = some c ∧ Undeleted key since := by
  obtain ⟨since, before, rfl, reads⟩ := exists_reads_of_heldAt held
  obtain ⟨_, first⟩ := run.last.1.upto
  exact ⟨since, before, rfl, reads, first.found_of_reads h pass reads,
    run.undeleted h alone pass reads⟩

/-- The version that a pass writes to agrees with one of the same generation that it held
before. -/
theorem agrees_of_held (run : Run faulty (Job.crew jobs) start (mv :: earlier) m)
    (h : start.Sound) (alone : OnePassAtATime jobs key (mv :: earlier))
    (pass : (jobs mv.member).passes key = true) {k : Kind}
    (held : heldAt k (own mv.member earlier) = some c)
    (stored : mv.before.records.get? key = some v) (same : v.generation = c.generation) :
    c.Agrees v := by
  obtain ⟨since, before, rfl, _, found, undeleted⟩ := run.since_held h alone pass held
  exact run.last.1.agrees_of_generation h found undeleted stored same

end Run

/-! ## Nothing is swallowed -/

theorem Backoff.phase_recordFailure (b : Backoff) (s : Status) (category : Category)
    (reason : String) (generation : Nat) (now : Instant) :
    (b.recordFailure s category reason generation now).1.phase = .error ∨
      (b.recordFailure s category reason generation now).1.phase = .failed := by
  unfold Backoff.recordFailure
  extract_lets entered secs
  split
  · exact .inl rfl
  · exact .inr rfl

namespace Pass

variable {past : List Exchange} {key : String} {x : Exchange} {v w : Record}

theorem heldAt_clock_of_takenDown {c : Record} (h : TakenDown c past) :
    heldAt .clock past = some c := by
  obtain ⟨_, before, time, base, read, cut, u⟩ := h
  have started : heldAt .clock (⟨.now, time⟩ :: before) = some c :=
    (heldAt_cons_of_eq (x := ⟨.now, time⟩) rfl before).trans read
  rw [u.heldAt_eq (by decide)]
  cases cut <;> exact started

theorem taken_of_deleted (h : Commit (protocol key) past key x (some v) none) :
    Early past ∧ ∃ c, v.generation = c.generation ∧ TakenDown c past := by
  cases h with
  | deleted _ _ _ deletes =>
    obtain ⟨early, c, same, down⟩ := deletes
    exact ⟨early, c, same.symm, down⟩

/-- A write by which a teardown is over: the request is cleared, or the rest is entered as
synchronised. -/
def Settles (past : List Exchange) (v w : Record) : Prop :=
  (v.teardownRequested = true ∧ w.teardownRequested = false) ∨
    (Early past ∧ w.status ≠ v.status ∧ w.status.phase = .synced)

theorem held_of_settles (h : Commit (protocol key) past key x (some v) (some w))
    (settles : Settles past v w) :
    ∃ c, heldAt .aggregation past = some c ∧ v.generation = c.generation := by
  cases h with
  | kept =>
    obtain ⟨on, off⟩ | ⟨_, changed, _⟩ := settles
    · rw [off] at on
      cases on
    · exact absurd rfl changed
  | edited token now _ _ _ edits =>
    obtain ⟨on, off⟩ | ⟨_, changed, _⟩ := settles
    · cases edits with
      | guard | adopt => exact absurd (on.symm.trans off) (by simp)
      | release =>
        split at off <;> exact absurd (on.symm.trans off) (by simp)
      | @clear c _ aggregated =>
        split at off
        · next same => exact ⟨c, aggregated, same⟩
        · exact absurd (on.symm.trans off) (by simp)
    · exact absurd rfl changed
  | @marked _ r token _ _ _ marks =>
    obtain ⟨on, off⟩ | ⟨early, changed, synced⟩ := settles
    · exact absurd (on.symm.trans off) (by simp)
    · change r.status ≠ v.status at changed
      change r.status.phase = .synced at synced
      generalize r.status = s at marks changed synced
      cases marks with
      | @remaining c a budget now early aggregated =>
        refine ⟨c, aggregated, ?_⟩
        split at changed
        · assumption
        · exact absurd rfl changed
      | reset | syncing => cases synced
      | success late => exact absurd early late
      | failure cause timed =>
        obtain e | e := Backoff.phase_recordFailure _ _ _ _ _ _
        · rw [e] at synced
          cases synced
        · rw [e] at synced
          cases synced

end Pass

/-- A pass only deletes a record that asks for nothing, as it did when the round of teardown
began, and only settles a teardown for the contributions that it cut back to. -/
theorem Run.teardown_current (run : Run faulty (Job.crew jobs) start (mv :: earlier) m)
    (h : start.Sound) (key : String) (alone : OnePassAtATime jobs key (mv :: earlier))
    (pass : (jobs mv.member).passes key = true) :
    (∀ v, mv.before.records.get? key = some v → mv.after.records.get? key = none →
      ¬ (v.sources ≠ [] ∧ v.deletionRequested = false) ∧
      ∃ c, heldAt .clock (own mv.member earlier) = some c ∧ v.generation = c.generation) ∧
    (∀ v w, mv.before.records.get? key = some v → mv.after.records.get? key = some w →
      Pass.Settles (own mv.member earlier) v w →
      ∃ c, heldAt .aggregation (own mv.member earlier) = some c ∧
        v.generation = c.generation ∧ v.sources = c.sources) := by
  have passed := run.passed h pass
  refine ⟨fun v stored gone => ?_, fun v w stored made settles => ?_⟩
  · rw [stored, gone] at passed
    obtain ⟨_, c, same, down⟩ := Pass.taken_of_deleted passed
    have held := Pass.heldAt_clock_of_takenDown down
    have abandoned := down.1
    have agrees := run.agrees_of_held h alone pass held stored same
    refine ⟨?_, c, held, same⟩
    rintro ⟨asked, kept⟩
    rw [← agrees.abandoned] at abandoned
    simp [Record.abandoned, asked, kept] at abandoned
  · rw [stored, made] at passed
    obtain ⟨c, held, same⟩ := Pass.held_of_settles passed settles
    have agrees := run.agrees_of_held h alone pass held stored same
    exact ⟨c, held, same, agrees.sources⟩

/-- While the contributions of `a` are torn down, `b` registers. -/
def heirs : Nat → Job := Job.roster [.joins "a", .leaves "a", .looks, .joins "b"]

theorem heirs_alone (history : List Move) : OnePassAtATime heirs "r" history := by
  refine onePassAtATime_of_single fun i pass => (?_ : i = 2)
  match i with
  | 2 => rfl
  | 0 | 1 | 3 | _ + 4 => cases pass

/-- The pass has cut back to what `b` asks for and has just cleared the request for a
teardown. -/
def inheritance : Scene (Job.crew heirs) :=
  (Scene.opening (Job.crew heirs) {}).play {}
    [0, 0, 0, 1, 1, 1, 2, 2, 2, 2, 3, 3, 2, 2, 2, 2, 2, 2, 2, 2, 2, 2, 2, 2]

theorem inheritance_current :
    ∃ mv earlier v w, inheritance.history = mv :: earlier ∧
      mv.before.records.get? "r" = some v ∧ mv.after.records.get? "r" = some w ∧
      v.teardownRequested = true ∧ w.teardownRequested = false ∧
      ∃ c, heldAt .aggregation (own mv.member earlier) = some c ∧
        v.generation = c.generation ∧ v.sources = c.sources := by
  have run : Run (fun _ => False) (Job.crew heirs) {} inheritance.history inheritance.memory :=
    (Scene.real_play _).run
  refine ⟨_, _, _, _, rfl, rfl, rfl, rfl, rfl, ?_⟩
  have current := run.teardown_current Memory.sound_empty "r" (heirs_alone _) rfl
  exact current.2 _ _ rfl rfl (.inl ⟨rfl, rfl⟩)

/-! ## What is deleted was torn down -/

/-- Only a pass that has pushed gives a record its identity. -/
theorem Job.commit_identity {j : Job} {past : List Exchange} {x : Exchange} {v w : Record}
    (h : Commit j.protocol past key x (some v) (some w))
    (early : j.passes key = true → Pass.Early past) : w.externalId = v.externalId := by
  cases h with
  | kept => rfl
  | marked => rfl
  | @edited _ r token now mine _ _ edits =>
    change r.externalId = v.externalId
    cases j with
    | register policy k template source =>
      obtain rfl : r = Registry.contribute source v := edits
      unfold Registry.contribute
      split <;> rfl
    | unregister policy k owner =>
      obtain rfl : r = (Registry.withdraw owner v).1 := edits
      unfold Registry.withdraw
      split <;> rfl
    | requestDeletion policy k =>
      obtain rfl : r = Registry.condemn v := edits
      rfl
    | reconcile e k =>
      have early := early (decide_eq_true mine)
      cases (edits : Pass.Edits past v r) with
      | guard => rfl
      | release | clear => split <;> rfl
      | adopt id late => exact absurd early late

/-- A record keeps its identity as long as no pass over it gets past its teardown. -/
theorem Run.identity_kept
    (run : Run faulty (Job.crew jobs) start (since ++ before) m) (h : start.Sound)
    (found : (memoryAfter start before).records.get? key = some c) (undeleted : Undeleted key since)
    (early : ∀ since' mv since'', since = since' ++ mv :: since'' →
      (jobs mv.member).passes key = true → Pass.Early (own mv.member (since'' ++ before))) :
    ∃ w, m.records.get? key = some w ∧ w.externalId = c.externalId := by
  induction since generalizing m with
  | nil => exact ⟨c, run.memory_eq ▸ found, rfl⟩
  | cons mv since ih =>
    obtain ⟨run', _⟩ := run.last
    obtain ⟨u, stored, same⟩ := ih run' (fun x hx => undeleted x (.tail _ hx))
      fun since' x since'' split => early (mv :: since') x since'' (congrArg (mv :: ·) split)
    have committed := run.committed h key
    have last := undeleted mv (.head _)
    rw [run.memory_eq]
    change ∃ w, mv.after.records.get? key = some w ∧ _
    rw [stored] at committed
    generalize hx : mv.exchange = x at committed
    generalize mv.after.records.get? key = after at committed
    cases after with
    | none =>
      cases committed with
      | deleted _ hkey => simp [hx, Exchange.removes, hkey] at last
    | some w =>
      exact ⟨w, rfl, (Job.commit_identity committed (early [] mv since rfl)).trans same⟩

namespace Pass

/-- What a pass has done in a round of teardown. -/
def round (past : List Exchange) : List Exchange := past.takeWhile (·.kind ≠ .clock)

/-- In the round the downstream was told to take down everything, and nothing is left. -/
def TornDown (past : List Exchange) (c : Record) : Prop :=
  heldAt .teardown past = some c ∧ ∃ type credentials answer,
    latest .teardown (round past) = some ⟨.teardown type c.scopeIds credentials .empty, answer⟩ ∧
      Accepted answer

/-- In the round the downstream was not called, for want of credentials. -/
def Unresolved (past : List Exchange) (c : Record) : Prop :=
  (∀ x ∈ round past, x.kind ≠ .teardown) ∧ ∃ error : DownstreamError,
    latest .resolution (round past) = some ⟨.credentials c.credentialsRef, .error error⟩ ∧
      error.isNotFound = true

variable {past : List Exchange} {c : Record}

theorem tornDown_or_unresolved (h : TakenDown c past) :
    c.isPending = true ∨ TornDown past c ∨ Unresolved past c := by
  obtain ⟨_, before, time, base, read, cut, u⟩ := h
  cases cut with
  | absent pending => exact .inl pending
  | @unresolved error missing =>
    have since : Upkeep [⟨.credentials c.credentialsRef, .error error⟩] (round past) :=
      u.takeWhile (k := .clock) (by decide)
    refine .inr (.inr ⟨?_, error, ?_, missing⟩)
    · exact since.forall_mem (fun _ hx => by simp [hx]) (by simp [Exchange.kind])
    · rw [since.latest_eq (by decide)]
      rfl
  | @accepted type credentials answer accepted =>
    have since : Upkeep [⟨.teardown type c.scopeIds credentials .empty, answer⟩,
        ⟨.credentials c.credentialsRef, .ok credentials⟩] (round past) :=
      u.takeWhile (k := .clock) (by decide)
    refine .inr (.inl ⟨?_, type, credentials, answer, ?_, accepted⟩)
    · rw [u.heldAt_eq (by decide)]
      exact read
    · rw [since.latest_eq (by decide)]
      rfl

theorem tornDown_iff (h : TakenDown c past) (live : c.isPending = false) :
    TornDown past c ↔ ¬ Unresolved past c := by
  constructor
  · rintro ⟨_, type, credentials, answer, found, _⟩ ⟨none, _⟩
    exact none _ (List.mem_of_find?_eq_some found) rfl
  · intro resolved
    obtain pending | down | unresolved := tornDown_or_unresolved h
    · exact absurd (live.symm.trans pending) (by simp)
    · exact down
    · exact absurd unresolved resolved

end Pass

/-- The version that a pass deletes has kept the identity that it had when the round began. -/
theorem Run.identity_of_held (run : Run faulty (Job.crew jobs) start (mv :: earlier) m)
    (h : start.Sound) (alone : OnePassAtATime jobs key (mv :: earlier))
    (pass : (jobs mv.member).passes key = true) (early : Pass.Early (own mv.member earlier))
    {k : Kind} (held : heldAt k (own mv.member earlier) = some c)
    (stored : mv.before.records.get? key = some v) : v.externalId = c.externalId := by
  obtain ⟨since, before, rfl, reads, found, undeleted⟩ := run.since_held h alone pass held
  have early' (since' : List Move) (x : Move) (since'' : List Move)
      (split : since = since' ++ x :: since'') (other : (jobs x.member).passes key = true) :
      Pass.Early (own x.member (since'' ++ before)) := by
    subst split
    obtain ⟨began, past, rfl, mine, _⟩ := reads
    have same : x.member = mv.member :=
      (alone [] mv _ began past rfl mine.symm (mine ▸ pass) x (by simp) other).trans mine
    have split : since' ++ x :: since'' ++ began :: past =
        (since' ++ [x]) ++ (since'' ++ began :: past) := by simp
    rw [split, own_append] at early
    rw [same]
    exact fun y hy => early y (List.mem_append_right _ hy)
  obtain ⟨w, stored', same⟩ := run.last.1.identity_kept h found undeleted early'
  rw [Option.some.inj (stored.symm.trans stored'), same]

/-- Whatever a pass deletes was torn down in the round that deletes it, unless nothing was ever
created downstream or the credentials were not found: then the downstream is not called. -/
theorem Run.deleted_torn_down (run : Run faulty (Job.crew jobs) start (mv :: earlier) m)
    (h : start.Sound) (key : String) (pass : (jobs mv.member).passes key = true)
    (stored : mv.before.records.get? key = some v) (gone : mv.after.records.get? key = none) :
    ∃ c, heldAt .clock (own mv.member earlier) = some c ∧ v.generation = c.generation ∧
      (c.isPending = false →
        (Pass.TornDown (own mv.member earlier) c ↔ ¬ Pass.Unresolved (own mv.member earlier) c)) ∧
      (OnePassAtATime jobs key (mv :: earlier) → c.isPending = v.isPending) := by
  have passed := run.passed h pass
  rw [stored, gone] at passed
  obtain ⟨early, c, same, down⟩ := Pass.taken_of_deleted passed
  have held := Pass.heldAt_clock_of_takenDown down
  refine ⟨c, held, same, Pass.tornDown_iff down, fun alone => ?_⟩
  rw [Record.isPending, Record.isPending, run.identity_of_held h alone pass early held stored]

/-- The last contributor of a record leaves, and a pass takes the record down. -/
def farewell (around : Surroundings) : Scene (Job.crew heirs) :=
  (Scene.opening (Job.crew heirs) {}).play around [0, 0, 0, 1, 1, 1, 2, 2, 2, 2, 2]

theorem farewell_torn_down :
    ∃ mv earlier v c, (farewell {}).history = mv :: earlier ∧
      mv.before.records.get? "r" = some v ∧ mv.after.records.get? "r" = none ∧
      v.isPending = false ∧ v.generation = c.generation ∧ Pass.TornDown (own 2 earlier) c := by
  have run : Run (fun _ => False) (Job.crew heirs) {} (farewell {}).history (farewell {}).memory :=
    (Scene.real_play _).run
  obtain ⟨c, held, same, torn, pending⟩ := run.deleted_torn_down Memory.sound_empty "r" rfl rfl rfl
  refine ⟨_, _, _, c, rfl, rfl, rfl, rfl, same, ?_⟩
  refine (torn (pending (heirs_alone _))).2 ?_
  rintro ⟨none, _⟩
  exact absurd none (by decide)

/-- If the credentials are not found, the record goes and what it stands for stays. -/
theorem farewell_unresolved :
    ∃ mv earlier v, (farewell { credentials := .error ⟨.notFound, "secret"⟩ }).history =
        mv :: earlier ∧
      mv.before.records.get? "r" = some v ∧ mv.after.records.get? "r" = none ∧
      v.isPending = false ∧ ∀ x ∈ own 2 earlier, x.kind ≠ .teardown :=
  ⟨_, _, _, rfl, rfl, rfl, rfl, by decide⟩

end Tributary
