import Tributary.Proofs.Aftermath
import Tributary.Proofs.Placeholders

/-!
# Coherent statuses

Whatever is run against a memory, the fields of a stored status agree with its phase and with
each other, since every write of a pass leaves them so, whatever version it is made of. An
outcome is not about a generation that is still to come if passes over a record are made one
after the other. Otherwise it may be: a pass that has read a record may enter its outcome into
the one that came after it (`Run.status_coherent`, `misjudgement_ahead`).
-/

namespace Tributary

namespace Status

/-- There is no failure. -/
structure Clean (s : Status) : Prop where
  retryCount : s.retryCount = 0
  failureReason : s.failureReason = none
  errorCategory : s.errorCategory = none
  failedAt : s.failedAt = none
  nextRetryAt : s.nextRetryAt = none

/-- There was a failure that does not have to last, and there are attempts left. -/
structure Retrying (s : Status) : Prop where
  reason : s.failureReason.isSome = true
  category : ∃ c, s.errorCategory = some c ∧ c ≠ .permanent
  begun : 1 ≤ s.retryCount
  left : s.retryCount < s.maxRetries

/-- There was a failure that lasts, or there are no attempts left. -/
structure GivenUp (s : Status) : Prop where
  reason : s.failureReason.isSome = true
  category : s.errorCategory.isSome = true
  failedAt : s.failedAt.isSome = true
  nextRetryAt : s.nextRetryAt = none
  final : s.errorCategory = some .permanent ∨ s.maxRetries ≤ s.retryCount

/-- All that is remembered of the last success is there, or nothing. -/
structure Ledger (s : Status) : Prop where
  version : s.configVersion = 0 ↔ s.configHash = ""
  snapshot : s.configHash = "" ↔ s.snapshot = none
  time : s.snapshot = none ↔ s.lastSyncTime = none
  hash : ∀ value, s.snapshot = some value → s.configHash = value.fingerprint

structure Coherent (s : Status) : Prop where
  clean : s.phase = .pending ∨ s.phase = .synced → s.Clean
  retrying : s.phase = .error → s.Retrying
  givenUp : s.phase = .failed → s.GivenUp
  ledger : s.Ledger

/-! ## Each write of a status -/

/-- A write that is no success leaves what is remembered of the last one. -/
theorem Ledger.kept {s t : Status} (h : s.Ledger) (version : t.configVersion = s.configVersion)
    (hash : t.configHash = s.configHash) (snapshot : t.snapshot = s.snapshot)
    (time : t.lastSyncTime = s.lastSyncTime) : t.Ledger := by
  constructor
  · rw [version, hash]
    exact h.version
  · rw [hash, snapshot]
    exact h.snapshot
  · rw [snapshot, time]
    exact h.time
  · rw [snapshot, hash]
    exact h.hash

/-- A status of a record that nobody has looked at yet. -/
theorem coherent_new : ({} : Status).Coherent where
  clean _ := ⟨rfl, rfl, rfl, rfl, rfl⟩
  retrying := nofun
  givenUp := nofun
  ledger := ⟨by simp, by simp, by simp, nofun⟩

theorem Coherent.syncing {s : Status} (h : s.Coherent) :
    ({ s with phase := .syncing } : Status).Coherent where
  clean := by rintro (same | same) <;> cases same
  retrying := nofun
  givenUp := nofun
  ledger := h.ledger.kept rfl rfl rfl rfl

theorem Coherent.reset {s : Status} (h : s.Coherent) : (Backoff.resetFailed s).Coherent where
  clean _ := ⟨rfl, rfl, rfl, rfl, rfl⟩
  retrying := nofun
  givenUp := nofun
  ledger := h.ledger.kept rfl rfl rfl rfl

/-- What a success enters, whatever there was before. -/
theorem coherent_synced (s : Status) (a : Aggregation) (generation budget : Nat) (now : Instant)
    (resultData : Table String) :
    ({ Pass.synced s a generation budget now with resultData } : Status).Coherent where
  clean _ := ⟨rfl, rfl, rfl, rfl, rfl⟩
  retrying := nofun
  givenUp := nofun
  ledger := by
    have some_hash : a.hash ≠ "" := a.value.fingerprint_ne_empty
    constructor
    · simp [Pass.synced, clearFailure, some_hash]
    · simp [Pass.synced, clearFailure, some_hash]
    · simp [Pass.synced, clearFailure]
    · intro value same
      cases same
      rfl

theorem Coherent.recordFailure {s : Status} (h : s.Coherent) (b : Backoff) (category : Category)
    (reason : String) (generation : Nat) (now : Instant) :
    (b.recordFailure s category reason generation now).1.Coherent := by
  unfold Backoff.recordFailure
  extract_lets entered secs
  split
  · next again =>
    have counted : entered.retryCount = min (s.retryCount + 1) Backoff.maxCount := if_neg again.1
    have limit : 1 ≤ Backoff.maxCount := by decide
    exact {
      clean := by rintro (same | same) <;> cases same
      retrying := fun _ => ⟨rfl, ⟨category, rfl, again.1⟩, by
        show 1 ≤ entered.retryCount
        omega, again.2⟩
      givenUp := nofun
      ledger := h.ledger.kept rfl rfl rfl rfl }
  · next none_left =>
    have final : entered.errorCategory = some .permanent ∨
        entered.maxRetries ≤ entered.retryCount := by
      by_cases permanent : category = .permanent
      · exact .inl (congrArg some permanent)
      · have spent : ¬ entered.retryCount < entered.maxRetries := fun left =>
          none_left ⟨permanent, left⟩
        exact .inr (Nat.le_of_not_lt spent)
    exact {
      clean := by rintro (same | same) <;> cases same
      retrying := nofun
      givenUp := fun _ => ⟨rfl, rfl, rfl, rfl, final⟩
      ledger := h.ledger.kept rfl rfl rfl rfl }

end Status

/-- Whatever a pass writes, the status stays coherent. -/
theorem Pass.Marks.coherent {past : List Exchange} {v : Record} {s : Status}
    (marks : Pass.Marks past v s) (h : v.status.Coherent) : s.Coherent := by
  cases marks with
  | remaining =>
    split
    · exact Status.coherent_synced v.status _ _ _ _ v.status.resultData
    · exact h
  | reset => exact h.reset
  | syncing => exact h.syncing
  | success => exact Status.coherent_synced v.status _ _ _ _ _
  | failure => exact h.recordFailure _ _ _ _ _

/-! ## Which generation an outcome is about -/

theorem Pass.Timed.heldAt_clock {past : List Exchange} {now : Instant} {v : Record}
    (timed : Pass.Timed past now v) : heldAt .clock past = some v := by
  obtain ⟨before, read, u⟩ := timed
  rw [u.heldAt_eq (by decide)]
  exact (heldAt_cons_of_eq (x := ⟨.now, now⟩) rfl before).trans read

/-- An outcome is about the generation of the version that is written to, or that was held when the
clock was read. -/
theorem Pass.Marks.observed {past : List Exchange} {v : Record} {s : Status}
    (marks : Pass.Marks past v s) : s.observedGeneration = v.status.observedGeneration ∨
      s.observedGeneration = v.generation ∨
      ∃ c, heldAt .clock past = some c ∧ s.observedGeneration = c.generation := by
  cases marks with
  | remaining =>
    split
    · next same => exact .inr (.inl same.symm)
    · exact .inl rfl
  | reset | syncing => exact .inl rfl
  | success _ _ timed => exact .inr (.inr ⟨_, timed.heldAt_clock, rfl⟩)
  | failure _ timed =>
    refine .inr (.inr ⟨_, timed.heldAt_clock, ?_⟩)
    unfold Backoff.recordFailure
    extract_lets entered secs
    split <;> rfl

/-- A pass enters an outcome for a version of a record that has been deleted since the pass read
it. -/
def Misjudges (jobs : Nat → Job) (key : String) (mv : Move) (earlier : List Move)
    (generation : Nat) : Prop :=
  (jobs mv.member).passes key = true ∧
    (∃ r token, mv.exchange = ⟨.store (.updateStatus r), .ok token⟩ ∧
      r.status.observedGeneration = generation) ∧
    ∃ c since before, earlier = since ++ before ∧ Reads mv.member c before ∧
      heldAt .clock (own mv.member earlier) = some c ∧ c.generation = generation ∧
      ¬ Undeleted key since

variable {faulty : StoreError → Prop} {jobs : Nat → Job} {start m : Memory}
  {history earlier : List Move} {mv : Move} {key : String} {v w : Record}

namespace Run

/-- No pass misjudges a record if passes over it are made one after the other. -/
theorem not_misjudges (run : Run faulty (Job.crew jobs) start (mv :: earlier) m) (h : start.Sound)
    (alone : OnePassAtATime jobs key (mv :: earlier)) (generation : Nat) :
    ¬ Misjudges jobs key mv earlier generation := by
  rintro ⟨pass, -, c, since, before, rfl, reads, -, -, deleted⟩
  exact deleted (run.undeleted h alone pass reads)

/-- A status that has just been written is not about a generation that is still to come, unless the
record was misjudged. -/
theorem observed_le (run : Run faulty (Job.crew jobs) start (mv :: earlier) m) (h : start.Sound)
    (pass : (jobs mv.member).passes key = true) {r : Record} {token : Nat}
    (written : mv.exchange = ⟨.store (.updateStatus r), .ok token⟩)
    (marks : Pass.Marks (own mv.member earlier) v r.status)
    (stored : mv.before.records.get? key = some v) :
    r.status.observedGeneration = v.status.observedGeneration ∨
      r.status.observedGeneration ≤ v.generation ∨
      Misjudges jobs key mv earlier r.status.observedGeneration := by
  rcases marks.observed with same | same | ⟨c, held, same⟩
  · exact .inl same
  · exact .inr (.inl (Nat.le_of_eq same))
  · obtain ⟨since, before, rfl, reads⟩ := exists_reads_of_heldAt held
    by_cases undeleted : Undeleted key since
    · have risen := run.last.1.generation_of_read h pass reads undeleted stored
      refine .inr (.inl ?_)
      omega
    · exact .inr (.inr ⟨pass, ⟨r, token, written, rfl⟩, c, since, before, rfl, reads, held,
        same.symm, undeleted⟩)

end Run

/-- The status is coherent and about a generation that has come, unless the record was misjudged. -/
def Upright (jobs : Nat → Job) (key : String) (history : List Move) (r : Record) : Prop :=
  r.status.Coherent ∧ (r.status.observedGeneration ≤ r.generation ∨
    ∃ later mv earlier, history = later ++ mv :: earlier ∧
      Misjudges jobs key mv earlier r.status.observedGeneration)

/-- What a move that leaves the status leaves, if it does not take the generation back. -/
theorem Upright.kept (h : Upright jobs key earlier v) (status : w.status = v.status)
    (grows : v.generation ≤ w.generation) : Upright jobs key (mv :: earlier) w := by
  obtain ⟨coherent, about⟩ := h
  rw [Upright, status]
  refine ⟨coherent, ?_⟩
  rcases about with le | ⟨later, x, sooner, rfl, misjudges⟩
  · exact .inl (Nat.le_trans le grows)
  · exact .inr ⟨mv :: later, x, sooner, rfl, misjudges⟩

/-- Only passes write statuses. -/
theorem Job.passes_of_marks {j : Job} {past : List Exchange} {s : Status}
    (mine : j.protocol.key = key) (marks : j.protocol.marks past v s) :
    j.passes key = true ∧ Pass.Marks past v s := by
  cases j with
  | reconcile e k => exact ⟨decide_eq_true mine, marks⟩
  | register | unregister | requestDeletion => exact marks.elim

/-- A record that somebody creates. -/
theorem Job.upright_of_creates {j : Job} {r : Record} (creates : j.protocol.creates r)
    (token : Nat) : Upright jobs key history { r with token } := by
  cases j with
  | register policy k template source =>
    obtain ⟨now, rfl⟩ := creates
    exact ⟨Status.coherent_new, .inl (Nat.zero_le _)⟩
  | unregister | requestDeletion | reconcile => exact creates.elim

namespace Run

/-- What one move leaves. -/
theorem upright (run : Run faulty (Job.crew jobs) start (mv :: earlier) m) (h : start.Sound)
    (before : ∀ v, mv.before.records.get? key = some v → Upright jobs key earlier v)
    (stored : mv.after.records.get? key = some w) : Upright jobs key (mv :: earlier) w := by
  have committed := run.committed h key
  rw [stored] at committed
  generalize found : mv.before.records.get? key = old at committed
  generalize made : mv.exchange = x at committed
  cases committed with
  | kept => exact (before w found).kept rfl (Nat.le_refl _)
  | created token _ _ creates => exact Job.upright_of_creates creates token
  | @edited v r token now mine hkey read edits =>
    have follows := (Job.edits_follow edits).le
    exact (before v found).kept rfl follows
  | @marked v r token mine hkey read marks =>
    obtain ⟨pass, marks⟩ := Job.passes_of_marks mine marks
    obtain ⟨coherent, about⟩ := before v found
    refine ⟨marks.coherent coherent, ?_⟩
    rcases run.observed_le h pass made marks found with same | le | misjudges
    · rcases about with le | ⟨later, x, sooner, rfl, misjudges⟩
      · exact .inl (same ▸ le)
      · exact .inr ⟨mv :: later, x, sooner, rfl, same ▸ misjudges⟩
    · exact .inl le
    · exact .inr ⟨[], mv, earlier, rfl, misjudges⟩

/-- Whatever is stored, its status is coherent. It is about a generation that has come if passes
over the record were made one after the other, and otherwise unless a pass has taken the record for
one that was deleted before. -/
theorem status_coherent (run : Run faulty (Job.crew jobs) start history m) (h : start.Sound)
    (key : String) (fresh : ∀ v, start.records.get? key = some v →
      v.status.Coherent ∧ v.status.observedGeneration ≤ v.generation)
    {w : Record} (stored : m.records.get? key = some w) :
    w.status.Coherent ∧
    (OnePassAtATime jobs key history → w.status.observedGeneration ≤ w.generation) ∧
    (w.generation < w.status.observedGeneration → ∃ later mv earlier,
      history = later ++ mv :: earlier ∧
        Misjudges jobs key mv earlier w.status.observedGeneration) := by
  have upright : Upright jobs key history w := by
    induction history generalizing m w with
    | nil =>
      rw [run.memory_eq] at stored
      obtain ⟨coherent, le⟩ := fresh w stored
      exact ⟨coherent, .inl le⟩
    | cons mv earlier ih =>
      apply run.upright h (fun v found => ih run.last.1 found)
      rwa [run.memory_eq] at stored
  obtain ⟨coherent, about⟩ := upright
  refine ⟨coherent, ?_, ?_⟩
  · intro alone
    rcases about with le | ⟨later, mv, earlier, rfl, misjudges⟩
    · exact le
    · obtain ⟨_, upto⟩ := run.upto
      exact absurd misjudges (upto.not_misjudges h alone.upto _)
  · intro ahead
    rcases about with le | misjudged
    · omega
    · exact misjudged

end Run

/-- While what `a` and `b` ask for is pushed, both leave, another pass deletes the record, and `c`
registers under the same key. -/
def successors : Nat → Job :=
  Job.roster [.joins "a", .joins "b", .looks, .leaves "a", .leaves "b", .looks, .joins "c"]

/-- The first pass learns that the push was rejected, and enters it into the record of `c`. -/
def misjudgement : Scene (Job.crew successors) :=
  (Scene.opening (Job.crew successors) {}).play { push := .error ⟨.validation, "rejected"⟩ }
    ([0, 0, 0, 1, 1, 1] ++ List.replicate 10 2 ++ [3, 3, 3, 4, 4, 4] ++ List.replicate 7 5 ++
      [6, 6, 6] ++ List.replicate 6 2)

theorem misjudgement_coherent :
    ∃ w, misjudgement.memory.records.get? "r" = some w ∧ w.status.Coherent ∧
      ∃ later mv earlier, misjudgement.history = later ++ mv :: earlier ∧
        Misjudges successors "r" mv earlier w.status.observedGeneration := by
  have run : Run (fun _ => False) (Job.crew successors) {} misjudgement.history
      misjudgement.memory := (Scene.real_play _).run
  have found : (misjudgement.memory.records.get? "r").isSome = true := by decide +kernel
  obtain ⟨w, stored⟩ := Option.isSome_iff_exists.mp found
  have fresh : ∀ v, ({} : Memory).records.get? "r" = some v →
      v.status.Coherent ∧ v.status.observedGeneration ≤ v.generation := by
    intro v found
    cases found
  obtain ⟨coherent, -, misjudged⟩ := run.status_coherent Memory.sound_empty "r" fresh stored
  refine ⟨w, stored, coherent, misjudged ?_⟩
  have ahead : ∀ w ∈ misjudgement.memory.records.get? "r",
      w.generation < w.status.observedGeneration := by decide +kernel
  exact ahead w stored

/-- The record of `c` has failed for a generation that is still to come, and stays so. -/
theorem misjudgement_ahead :
    Run (fun _ => False) (Job.crew successors) {} misjudgement.history misjudgement.memory ∧
    ∃ w, misjudgement.memory.records.get? "r" = some w ∧ w.sources.map (·.owner.name) = ["c"] ∧
      w.generation < w.status.observedGeneration ∧ Backoff.parked w = true := by
  refine ⟨(Scene.real_play _).run, ?_⟩
  have found : (misjudgement.memory.records.get? "r").isSome = true := by decide +kernel
  obtain ⟨w, stored⟩ := Option.isSome_iff_exists.mp found
  have holds : ∀ w ∈ misjudgement.memory.records.get? "r",
      w.sources.map (·.owner.name) = ["c"] ∧ w.generation < w.status.observedGeneration ∧
        Backoff.parked w = true := by decide +kernel
  exact ⟨w, stored, holds w stored⟩

end Tributary
