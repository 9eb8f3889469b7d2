import Tributary.Proofs.Teardowns

/-!
# Outcomes

A pass enters its outcome for the generation of the version that it holds when it reads the
clock for that, which may be later than the one that it aggregated. `Run.outcome_generation`
says by how much, and that whatever comes after that version is looked at again.
-/

namespace Tributary

namespace Pass

variable {past : List Exchange} {v g h : Record} {s : Status}

theorem Timed.held {now : Instant} (t : Timed past now v) :
    ∃ since before, past = since ++ before ∧ lastRead before = some v ∧
      heldAt .aggregation before = heldAt .aggregation past := by
  obtain ⟨before, read, u⟩ := t
  obtain ⟨since, split⟩ := u.append
  refine ⟨since ++ [⟨.now, now⟩], before, by simp [split], read, ?_⟩
  have waited : Exchange.kind ⟨.now, now⟩ ≠ .aggregation := by simp [Exchange.kind]
  rw [u.heldAt_eq (by decide), heldAt_cons_of_ne waited]

/-- The phases in which an attempt ends. -/
def Concluded (s : Status) : Prop := s.phase = .synced ∨ s.phase = .error ∨ s.phase = .failed

/-- An outcome of an attempt is entered for the version that was held when the clock was
read. -/
theorem timed_of_marks (marks : Marks past v s) (late : ¬ Early past) (concluded : Concluded s) :
    ∃ g a h now, Aggregated past g a ∧ Timed past now h ∧ s.observedGeneration = h.generation := by
  cases marks with
  | remaining early => exact absurd early late
  | reset | syncing => obtain e | e | e := concluded <;> cases e
  | success _ aggregated timed => exact ⟨_, _, _, _, aggregated, timed, rfl⟩
  | failure cause timed =>
    obtain ⟨g, a, aggregated⟩ := cause late
    refine ⟨g, a, _, _, aggregated, timed, ?_⟩
    unfold Backoff.recordFailure
    extract_lets entered secs
    split <;> rfl

end Pass

/-- A record that has changed since its last outcome is not kept waiting. -/
theorem Backoff.released {r : Record} (risen : r.status.observedGeneration < r.generation) :
    (r.status.phase = .failed → shouldReset r = true) ∧ ∀ now, retryWait r now = none := by
  constructor
  · intro failed
    simp [shouldReset, failed, risen]
  · intro now
    have other : r.generation ≠ r.status.observedGeneration := by omega
    simp [retryWait, other]

/-- The generation that an outcome is entered for is that of the version that was aggregated,
and one more for each rise before the clock was read. What rises later is not kept waiting. -/
theorem Run.outcome_generation {faulty : StoreError → Prop} {jobs : Nat → Job} {start m : Memory}
    (later : List Move) {mv : Move} {earlier : List Move}
    (run : Run faulty (Job.crew jobs) start (later ++ mv :: earlier) m) (h : start.Sound)
    (key : String) (alone : OnePassAtATime jobs key (mv :: earlier))
    (pass : (jobs mv.member).passes key = true) (late : ¬ Pass.Early (own mv.member earlier))
    {r : Record} {token : Nat} (written : mv.exchange = ⟨.store (.updateStatus r), .ok token⟩)
    (concluded : Pass.Concluded r.status) :
    ∃ g a c after between before, earlier = after ++ (between ++ before) ∧
      Reads mv.member g before ∧ Reads mv.member c (between ++ before) ∧
      Pass.Aggregated (own mv.member earlier) g a ∧
      r.status.observedGeneration = c.generation ∧
      c.generation = g.generation + rises key between ∧
      (r.status.observedGeneration ≤ g.generation ↔ rises key between = 0) ∧
      (Undeleted key later → ∀ w, m.records.get? key = some w → w.status = r.status →
        w.generation = r.status.observedGeneration + rises key (later ++ mv :: after) ∧
        (0 < rises key (later ++ mv :: after) →
          (r.status.phase = .failed → Backoff.shouldReset w = true) ∧
          ∀ now, Backoff.retryWait w now = none)) := by
  have upto := run.upto_move
  have asked := Job.protocol_of_passes pass ▸ (upto.allowed h).2
  rw [written] at asked
  obtain ⟨v, _, _, _, _, marks⟩ := asked
  obtain ⟨g, a, c, now, aggregated, timed, observed⟩ := Pass.timed_of_marks marks late concluded
  obtain ⟨_, past, split, read, held⟩ := timed.held
  obtain ⟨moves, rest, rfl, _, rfl⟩ := exists_of_own_append split
  obtain ⟨after, between, before, rfl, first, second⟩ :=
    exists_reads_both (by decide) (by decide) (held.trans aggregated.1) read
  have split₁ : moves ++ (after ++ (between ++ before)) =
      (moves ++ after ++ between) ++ before := by simp
  have split₂ : moves ++ (after ++ (between ++ before)) = (moves ++ after) ++ (between ++ before) :=
    (List.append_assoc ..).symm
  have split₃ : later ++ mv :: (moves ++ (after ++ (between ++ before))) =
      (later ++ mv :: (moves ++ after)) ++ (between ++ before) := by simp
  have kept : Undeleted key (moves ++ after ++ between) :=
    Run.undeleted (split₁ ▸ upto) h (split₁ ▸ alone) pass first
  obtain ⟨_, read'⟩ := (split₂ ▸ upto.last.1).upto
  have risen : c.generation = g.generation + rises key between :=
    read'.generation_of_read h pass first (fun x hx => kept x (List.mem_append_right _ hx))
      (read'.memory_eq ▸ read'.found_of_reads h pass second)
  refine ⟨g, a, c, moves ++ after, between, before, split₂, first, second, aggregated, observed,
    risen, by omega, fun undeleted w stored status => ?_⟩
  have onwards : Undeleted key (later ++ mv :: (moves ++ after)) := by
    intro x hx
    rcases List.mem_append.1 hx with hx | hx
    · exact undeleted x hx
    · cases hx with
      | head => rw [written]; rfl
      | tail _ hx => exact kept x (List.mem_append_left _ hx)
  have risen' : w.generation = c.generation + rises key (later ++ mv :: (moves ++ after)) :=
    Run.generation_of_read (split₃ ▸ run) h pass second onwards stored
  refine ⟨observed ▸ risen', fun some => ?_⟩
  have ahead : w.status.observedGeneration < w.generation := by
    rw [status, observed]
    omega
  exact status ▸ Backoff.released ahead

/-- While the contributions of `a` are pushed, `b` registers. -/
def latecomers : Nat → Job := Job.roster [.joins "a", .joins "b", .looks]

theorem latecomers_alone (history : List Move) : OnePassAtATime latecomers "r" history := by
  refine onePassAtATime_of_single fun i pass => (?_ : i = 2)
  match i with
  | 2 => rfl
  | 0 | 1 | _ + 3 => cases pass

/-- The contribution of `b` comes between the aggregation and the write that begins the
attempt, and the downstream does not accept what is pushed. -/
def rejection : Scene (Job.crew latecomers) :=
  (Scene.opening (Job.crew latecomers) {}).play { push := .error ⟨.validation, "rejected"⟩ }
    [0, 0, 0, 2, 2, 2, 2, 2, 2, 1, 1, 1, 2, 2, 2, 2, 2, 2, 2, 2, 2]

theorem rejection_generation :
    ∃ mv earlier r token, rejection.history = mv :: earlier ∧
      mv.exchange = ⟨.store (.updateStatus r), .ok token⟩ ∧
      ∃ g a between, Pass.Aggregated (own mv.member earlier) g a ∧
        r.status.observedGeneration = g.generation + rises "r" between := by
  have run : Run (fun _ => False) (Job.crew latecomers) {} rejection.history rejection.memory :=
    (Scene.real_play _).run
  refine ⟨_, _, _, _, rfl, rfl, ?_⟩
  obtain ⟨g, a, c, _, between, _, _, _, _, aggregated, observed, risen, _⟩ :=
    Run.outcome_generation [] run Memory.sound_empty "r" (latecomers_alone _) rfl
      (by unfold Pass.Early; decide) rfl (.inr (.inr rfl))
  exact ⟨g, a, between, aggregated, observed.trans risen⟩

/-- The record has failed for a generation that was never pushed, and stays so. -/
theorem rejection_parked :
    ∃ mv earlier r g a, rejection.history = mv :: earlier ∧
      mv.after.records.get? "r" = some r ∧ Pass.Aggregated (own 2 earlier) g a ∧
      g.generation < r.status.observedGeneration ∧ r.sources ≠ g.sources ∧
      Backoff.parked r = true :=
  ⟨_, _, _, _, _, rfl, rfl, ⟨rfl, _, rfl⟩, by decide, by decide, by decide⟩

end Tributary
