import Tributary.Proofs.Outcomes
import Tributary.Proofs.Skips
import Tributary.Proofs.Verdicts

/-!
# What failures leave

If passes over a record are made one after the other, the last one has left every failure of its
own in the record (`Run.discloses`): once, with its reason, and with the last success as it was
(`Run.failure_recorded`). Credentials that are not found when something is to be torn down count as
no failure, however (`lockout_unnoticed`). A teardown that has failed leaves the guard, unless the
pass has given it up for a deletion that was refused (`Run.guard_after_failure`,
`relapse_unguarded`).
-/

namespace Tributary

open Pass (Setback Unfinished StartsGuarded)

/-- What a failure makes of a status, and what the pass says. -/
structure Status.Fails (category : Category) (reason : String) (action : Action) (s t : Status) :
    Prop where
  named : t.failureReason = some reason
  classed : t.errorCategory = some category
  told : (∃ delay, action = .requeue delay ∧ t.phase = .error) ∨
    (action = .awaitChange ∧ t.phase = .failed)
  count : t.retryCount =
    if category = .permanent then s.retryCount else min (s.retryCount + 1) Backoff.maxCount
  configHash : t.configHash = s.configHash
  configVersion : t.configVersion = s.configVersion
  lastSyncTime : t.lastSyncTime = s.lastSyncTime
  resultData : t.resultData = s.resultData
  snapshot : t.snapshot = s.snapshot

theorem Backoff.recordFailure_fails (b : Backoff) (s : Status) (category : Category)
    (reason : String) (generation : Nat) (now : Instant) :
    s.Fails category reason (b.recordFailure s category reason generation now).2.action
      (b.recordFailure s category reason generation now).1 := by
  unfold recordFailure
  extract_lets entered secs
  split
  · exact ⟨rfl, rfl, .inl ⟨_, rfl, rfl⟩, rfl, rfl, rfl, rfl, rfl, rfl⟩
  · exact ⟨rfl, rfl, .inr ⟨rfl, rfl⟩, rfl, rfl, rfl, rfl, rfl, rfl⟩

theorem Pass.Recorded.fails {b : Backoff} {held w : Record} {category : Category} {reason : String}
    {action : Action} (h : Recorded b held category reason action w) :
    held.status.Fails category reason action w.status := by
  obtain ⟨generation, now, entered, told⟩ := h.entered
  rw [entered, told]
  exact b.recordFailure_fails held.status category reason generation now

theorem Pass.Discloses.others {e : Engine} {past : List Exchange} {result : Except SyncError Action}
    {v w : Option Record} (h : Discloses e past result v) (others : Others v w) :
    Discloses e past result w := by
  intro failed category reason earlier setback evident
  obtain ⟨action, held, u, told, then_, rfl, recorded⟩ :=
    h failed category reason earlier setback evident
  obtain ⟨entered, guard, identity⟩ := recorded
  cases others with
  | @grown _ w grows =>
    exact ⟨action, held, w, told, then_, rfl, grows.status.symm ▸ entered, grows.guard.trans guard,
      grows.externalId.trans identity⟩

namespace Job

/-- What a job has left of its failures when it has ended. -/
def Discloses : (j : Job) → List Exchange → j.Result → Option Record → Prop
  | .reconcile e _ => Pass.Discloses e
  | .register .. | .unregister .. | .requestDeletion .. => fun _ _ _ => True

theorem Discloses.others {j : Job} {past : List Exchange} {result : j.Result} {v w : Option Record}
    (h : j.Discloses past result v) (others : Others v w) : j.Discloses past result w := by
  cases j with
  | reconcile e k => exact Pass.Discloses.others h others
  | register | unregister | requestDeletion => trivial

theorem records {j : Job} {faulty : StoreError → Prop} {key : String} {v : Option Record}
    (pass : j.passes key = true) :
    j.program.Amid (Pass.beside faulty key) j.Discloses [] v := by
  cases j with
  | reconcile e k =>
    obtain rfl : k = key := of_decide_eq_true pass
    exact e.reconcile_records
  | register | unregister | requestDeletion => cases pass

end Job

theorem OnePassAtATime.upto {jobs : Nat → Job} {key : String} {later earlier : List Move}
    (alone : OnePassAtATime jobs key (later ++ earlier)) : OnePassAtATime jobs key earlier := by
  induction later with
  | nil => exact alone
  | cons mv later ih => exact ih alone.tail

/-- A pass that moves has moved last, or has done nothing so far. -/
theorem OnePassAtATime.latest_or {jobs : Nat → Job} {key : String} {mv : Move}
    {history : List Move} (alone : OnePassAtATime jobs key (mv :: history))
    (pass : (jobs mv.member).passes key = true) :
    latestPass jobs key history = some mv.member ∨ own mv.member history = [] := by
  by_cases latest : latestPass jobs key history = some mv.member
  · exact .inl latest
  · exact .inr (alone.own_eq_nil pass latest)

variable {faulty : StoreError → Prop} {jobs : Nat → Job} {start m : Memory}
  {history later earlier : List Move} {mv : Move} {key : String}

namespace Run

/-- The pass that has moved last goes on as every pass begins, if what others do makes no
difference in the end. -/
theorem latest_amid {ends : (i : Nat) → List Exchange → (jobs i).Result → Option Record → Prop}
    (stable : ∀ i past result v w, ends i past result v → Others v w → ends i past result w)
    (begins : ∀ i v, (jobs i).passes key = true →
      (jobs i).program.Amid (Pass.beside faulty key) (ends i) [] v)
    (run : Run faulty (Job.crew jobs) start history m) (h : start.Sound)
    (alone : OnePassAtATime jobs key history) {i : Nat}
    (latest : latestPass jobs key history = some i) (rest : Program (jobs i).Result)
    (left : (jobs i).program.Leaves (own i history) rest) :
    rest.Amid (Pass.beside faulty key) (ends i) (own i history) (m.records.get? key) := by
  induction run generalizing rest with
  | start => cases latest
  | @move past m m' run j q next a before serves ih =>
    have whole : Run faulty (Job.crew jobs) start (⟨j, ⟨q, a⟩, m, m'⟩ :: past) m' :=
      run.move j before serves
    cases pass : (jobs j).passes key with
    | false =>
      have others := whole.others h pass
      obtain ⟨latest, same⟩ := latestPass_of_not _ pass latest
      rw [same] at left ⊢
      exact (ih alone.tail latest rest left).others (fun others' => others.trans others')
        fun past result ended => stable i past result _ _ ended others
    | true =>
      rw [latestPass_cons ⟨j, ⟨q, a⟩, m, m'⟩ pass] at latest
      obtain rfl := Option.some.inj latest
      rw [own_cons_self ⟨j, ⟨q, a⟩, m, m'⟩ past] at left ⊢
      obtain rfl := (before.step a).unique left
      have goesOn : (Program.ask q next).Amid (Pass.beside faulty key) (ends j) (own j past)
          (m.records.get? key) := by
        obtain latest | fresh := alone.latest_or pass
        · exact ih alone.tail latest _ before
        · rw [fresh] at before ⊢
          rw [before.unique .start]
          exact begins j _ pass
      exact (goesOn _ a _ (.refl _) trivial (whole.turns h key)).2

/-- The pass that has moved last leaves its failures in the record. -/
theorem discloses (run : Run faulty (Job.crew jobs) start history m) (h : start.Sound)
    (alone : OnePassAtATime jobs key history) {i : Nat}
    (latest : latestPass jobs key history = some i) (rest : Program (jobs i).Result)
    (left : (jobs i).program.Leaves (own i history) rest) :
    rest.Amid (Pass.beside faulty key) (jobs i).Discloses (own i history)
      (m.records.get? key) :=
  latest_amid (fun _ _ _ _ _ discloses others => discloses.others others)
    (fun _ _ pass => Job.records pass) run h alone latest rest left

/-- What the last pass knows to be stored is stored, but for what others have made of it. -/
theorem stored_of_known (run : Run faulty (Job.crew jobs) start history m) (h : start.Sound)
    (alone : OnePassAtATime jobs key history) {i : Nat}
    (latest : latestPass jobs key history = some i) {c : Record}
    (knows : known (own i history) = some c) :
    ∃ w, m.records.get? key = some w ∧ c.GrowsInto w := by
  induction run with
  | start => cases latest
  | @move past m m' run j q next a left serves ih =>
    have whole : Run faulty (Job.crew jobs) start (⟨j, ⟨q, a⟩, m, m'⟩ :: past) m' :=
      run.move j left serves
    cases pass : (jobs j).passes key with
    | false =>
      obtain ⟨latest, same⟩ := latestPass_of_not _ pass latest
      rw [same] at knows
      obtain ⟨u, stored, grows⟩ := ih alone.tail latest knows
      have others : Others (m.records.get? key) (m'.records.get? key) := whole.others h pass
      rw [stored] at others
      generalize m'.records.get? key = v at others ⊢
      cases others with
      | grown grows' => exact ⟨_, rfl, grows.trans grows'⟩
    | true =>
      rw [latestPass_cons ⟨j, ⟨q, a⟩, m, m'⟩ pass] at latest
      obtain rfl := Option.some.inj latest
      rw [own_cons_self ⟨j, ⟨q, a⟩, m, m'⟩ past] at knows
      by_cases touched : (Exchange.read? ⟨q, a⟩).isSome || Exchange.isCommit ⟨q, a⟩
      · have read : Exchange.read? ⟨q, a⟩ = some c := by simpa [known, touched] using knows
        exact ⟨c, whole.found_of_reads h pass ⟨_, past, rfl, rfl, read⟩, .refl c⟩
      · obtain ⟨unread, uncommitted⟩ := Bool.or_eq_false_iff.1 (Bool.not_eq_true _ ▸ touched)
        have unread : Exchange.read? ⟨q, a⟩ = none := by simpa using unread
        rw [known_of_other unread uncommitted] at knows
        have same : m' = m := Serves.same (x := ⟨q, a⟩) serves uncommitted
        obtain latest | fresh := alone.latest_or pass
        · rw [same]
          exact ih alone.tail latest knows
        · rw [fresh] at knows
          cases knows

/-- What the last pass has left of a failure. -/
theorem recorded (run : Run faulty (Job.crew jobs) start (later ++ mv :: earlier) m)
    (h : start.Sound) (alone : OnePassAtATime jobs key (later ++ mv :: earlier)) {e : Engine}
    (pass : jobs mv.member = .reconcile e key)
    (latest : latestPass jobs key (later ++ mv :: earlier) = some mv.member)
    {result : Except SyncError Action}
    (ended : (e.reconcile key).Leaves (own mv.member (later ++ mv :: earlier)) (.done result))
    {category : Category} {reason : String}
    (setback : Setback e.updater.maxAttempts (own mv.member (mv :: earlier)) category reason)
    (evident : reliable e.updater.maxAttempts (own mv.member (later ++ mv :: earlier)) = true ∨
      (Pass.Early (own mv.member (mv :: earlier)) ∧ Unfinished result)) :
    ∃ action held w, result = .ok action ∧
      Pass.HeldThen (StartsGuarded (own mv.member (later ++ mv :: earlier)))
        (own mv.member (mv :: earlier)) held ∧
      m.records.get? key = some w ∧ Pass.Recorded e.backoff held category reason action w := by
  have discloses := run.discloses h alone latest
  rw [pass] at discloses
  have left : Pass.Discloses e _ result _ := discloses _ ended
  refine left _ category reason ?_ setback evident
  rw [own_append]
  exact List.suffix_append ..

end Run

/-- If a pass could rely on the store, whatever has failed is in the record, and the pass says so:
for its own reason, and counted once. The last success and the identity stay as they were when it
failed. -/
theorem Run.failure_recorded (run : Run faulty (Job.crew jobs) start (later ++ mv :: earlier) m)
    (h : start.Sound) (key : String) (alone : OnePassAtATime jobs key (later ++ mv :: earlier))
    {e : Engine} (pass : jobs mv.member = .reconcile e key)
    (latest : latestPass jobs key (later ++ mv :: earlier) = some mv.member)
    {result : Except SyncError Action}
    (ended : (e.reconcile key).Leaves (own mv.member (later ++ mv :: earlier)) (.done result))
    (steady : reliable e.updater.maxAttempts (own mv.member (later ++ mv :: earlier)) = true)
    {category : Category} {reason : String}
    (setback : Setback e.updater.maxAttempts (own mv.member (mv :: earlier)) category reason) :
    ∃ action u w, result = .ok action ∧ mv.after.records.get? key = some u ∧
      m.records.get? key = some w ∧ u.status.Fails category reason action w.status ∧
      w.externalId = u.externalId := by
  obtain ⟨action, held, w, told, before, stored, recorded⟩ :=
    run.recorded h alone pass latest ended setback (.inl steady)
  have passes : (jobs mv.member).passes key = true := by simp [pass, Job.passes]
  obtain ⟨u, stored', grows⟩ := run.upto_move.stored_of_known h alone.upto
    (latestPass_cons mv passes earlier) before.known
  refine ⟨action, u, w, told, stored', stored, ?_, recorded.identity.trans grows.externalId.symm⟩
  rw [grows.status]
  exact recorded.fails

/-- What a pass has answered. -/
def Pass.answer? : Program (Except SyncError Action) → Option Action
  | .done (.ok action) => some action
  | _ => none

theorem Pass.eq_done_of_answer? {p : Program (Except SyncError Action)} {action : Action}
    (h : answer? p = some action) : p = .done (.ok action) := by
  unfold answer? at h
  split at h
  · rw [Option.some.inj h]
  · cases h

/-- The downstream cannot be reached. Before that is entered, `b` registers, so that it has to be
written twice. -/
def outage : Scene (Job.crew latecomers) :=
  (Scene.opening (Job.crew latecomers) {}).play { push := .error ⟨.http 502, "bad gateway"⟩ }
    [0, 0, 0, 2, 2, 2, 2, 2, 2, 2, 2, 2, 2, 1, 1, 1, 2, 2, 2, 2, 2, 2]

theorem outage_recorded :
    (own 2 outage.history).any (·.refuses .status) = true ∧
      ∃ w, outage.memory.records.get? "r" = some w ∧ w.status.retryCount = 1 ∧
        w.status.phase = .error ∧ w.status.failureReason = some "HTTP 502: bad gateway" := by
  have real : Scene.Real (fun _ => False) {} outage := Scene.real_play _
  have ended : outage.left 2 = .done (.ok (.requeue (.ofSecs 10))) :=
    Pass.eq_done_of_answer? (by decide +kernel)
  have latest : latestPass latecomers "r" outage.history = some 2 := by decide +kernel
  have steady : reliable 5 (own 2 outage.history) = true := by decide +kernel
  obtain ⟨later, mv, earlier, split, member, before, type, scope, credentials, a, pushed⟩ :
      ∃ later mv earlier, outage.history = later ++ mv :: earlier ∧ mv.member = 2 ∧
        (mv.after.records.get? "r").map (·.status.retryCount) = some 0 ∧
        ∃ type scope credentials a, mv.exchange =
          ⟨.push type scope credentials a, .error ⟨.http 502, "bad gateway"⟩⟩ :=
    ⟨outage.history.take 9, _, _, rfl, rfl, rfl, _, _, _, _, rfl⟩
  have run := real.run
  have left := real.left 2
  rw [split] at run latest steady left
  rw [ended] at left
  obtain ⟨i, x, old, new⟩ := mv
  obtain rfl : i = 2 := member
  have setback : Setback 5 (own 2 (⟨2, x, old, new⟩ :: earlier)) .transient
      "HTTP 502: bad gateway" := by
    rw [own_cons_self ⟨2, x, old, new⟩ earlier, pushed]
    exact .push
  obtain ⟨action, u, w, told, found, stored, fails, _⟩ :=
    run.failure_recorded Memory.sound_empty "r" (latecomers_alone _) rfl latest left steady setback
  obtain rfl := Except.ok.inj told
  have counted : u.status.retryCount = 0 := by
    rw [found] at before
    exact Option.some.inj before
  refine ⟨by decide +kernel, w, stored, ?_, ?_, fails.named⟩
  · rw [fails.count, counted]
    rfl
  · obtain ⟨_, _, phase⟩ | ⟨none, _⟩ := fails.told
    · exact phase
    · cases none

/-- `a` and `b` register and `b` leaves again. The credentials for what is to be cut back are not
found. -/
def lockout : Scene (Job.crew deserters) :=
  (Scene.opening (Job.crew deserters) {}).play { credentials := .error ⟨.notFound, "secret"⟩ }
    [0, 0, 0, 1, 1, 1, 2, 2, 2, 3, 3, 3, 3, 3, 3, 3, 3, 3]

/-- Nothing is left to do, and the record says that all is well. -/
theorem lockout_unnoticed :
    OnePassAtATime deserters "r" lockout.history ∧ reliable 5 (own 3 lockout.history) = true ∧
      (∃ x ∈ own 3 lockout.history, ∃ reference error, x = ⟨.credentials reference, .error error⟩) ∧
      lockout.left 3 = .done (.ok .done) ∧
      ∃ w, lockout.memory.records.get? "r" = some w ∧ w.status.phase = .synced ∧
        w.status.failureReason = none := by
  refine ⟨onePassAtATime_of_sorted (by decide +kernel), by decide +kernel, ?_,
    Pass.eq_done_of_answer? (by decide +kernel), _, rfl, rfl, rfl⟩
  exact ⟨⟨.credentials none, .error ⟨.notFound, "secret"⟩⟩,
    List.mem_of_getElem? (i := 5) rfl, _, _, rfl⟩

/-- If the teardown of a record that was guarded has failed, the record has its guard still, unless
the version that was torn down had been read because its deletion was refused. -/
theorem Run.guard_after_failure (run : Run faulty (Job.crew jobs) start (later ++ mv :: earlier) m)
    (h : start.Sound) (key : String) (alone : OnePassAtATime jobs key (later ++ mv :: earlier))
    {e : Engine} (pass : jobs mv.member = .reconcile e key)
    (latest : latestPass jobs key (later ++ mv :: earlier) = some mv.member)
    {result : Except SyncError Action}
    (ended : (e.reconcile key).Leaves (own mv.member (later ++ mv :: earlier)) (.done result))
    (unfinished : Unfinished result)
    (guarded : StartsGuarded (own mv.member (later ++ mv :: earlier))) {type : String}
    {scope : Table String} {credentials : Credentials} {remaining : Aggregation}
    {error : DownstreamError}
    (called : mv.exchange = ⟨.teardown type scope credentials remaining, .error error⟩)
    (found : error.isNotFound = false) :
    ∃ w, m.records.get? key = some w ∧
      w.status.failureReason = some ("teardown failed: " ++ error.text) ∧
      (w.pendingTeardown = true ↔ rereadForRemoval (own mv.member earlier) = false) := by
  have passes : (jobs mv.member).passes key = true := by simp [pass, Job.passes]
  have asked := Job.protocol_of_passes passes ▸ (run.upto_move.allowed h).2
  rw [called] at asked
  have past : own mv.member (mv :: earlier) =
      ⟨.teardown type scope credentials remaining, .error error⟩ :: own mv.member earlier := by
    rw [own_cons_self, called]
  have early : Pass.Early (own mv.member (mv :: earlier)) := by
    rw [past]
    exact Pass.Early.cons asked (by simp [Exchange.kind])
  have setback : Setback e.updater.maxAttempts (own mv.member (mv :: earlier)) error.category
      ("teardown failed: " ++ error.text) := by
    rw [past]
    exact .teardown found
  obtain ⟨_, held, w, _, before, stored, recorded⟩ :=
    run.recorded h alone pass latest ended setback (.inr ⟨early, unfinished⟩)
  refine ⟨w, stored, recorded.fails.named, ?_⟩
  rw [recorded.guard, before.guarded guarded early, past, reread_of_unread rfl]
  simp

/-- What `a` has registered is pushed and to be deleted, and another pass looks at it. Meanwhile `b`
may register. -/
def relatives : Nat → Job :=
  Job.roster [.joins "a", .looks, .requestDeletion {} "r", .looks, .joins "b"]

def relation (order : List Nat) : Scene (Job.crew relatives) :=
  (Scene.opening (Job.crew relatives) {}).play {}
    ([0, 0, 0, 1, 1, 1, 1, 1, 1, 1, 1, 1, 1, 1, 1, 1, 2, 2, 2] ++ order)

def failing : Surroundings := { teardown := .error ⟨.http 502, "bad gateway"⟩ }

/-- The teardown fails at once. -/
def faltering : Scene (Job.crew relatives) :=
  (relation [3, 3, 3]).play failing [3, 3, 3, 3]

theorem faltering_guarded :
    ∃ w, faltering.memory.records.get? "r" = some w ∧
      w.status.failureReason = some "teardown failed: HTTP 502: bad gateway" ∧
      w.pendingTeardown = true := by
  have real : Scene.Real (fun _ => False) {} faltering := (Scene.real_play _).play _
  have ended : faltering.left 3 = .done (.ok (.requeue (.ofSecs 10))) :=
    Pass.eq_done_of_answer? (by decide +kernel)
  have alone : OnePassAtATime relatives "r" faltering.history :=
    onePassAtATime_of_sorted (by decide +kernel)
  have latest : latestPass relatives "r" faltering.history = some 3 := by decide +kernel
  have guarded : StartsGuarded (own 3 faltering.history) := ⟨_, rfl, rfl⟩
  obtain ⟨later, mv, earlier, split, member, unread, type, scope, credentials, remaining, called⟩ :
      ∃ later mv earlier, faltering.history = later ++ mv :: earlier ∧ mv.member = 3 ∧
        rereadForRemoval (own 3 earlier) = false ∧
        ∃ type scope credentials remaining, mv.exchange =
          ⟨.teardown type scope credentials remaining, .error ⟨.http 502, "bad gateway"⟩⟩ :=
    ⟨faltering.history.take 3, _, _, rfl, rfl, rfl, _, _, _, _, rfl⟩
  have run := real.run
  have left := real.left 3
  rw [split] at run latest guarded left alone
  rw [ended] at left
  obtain ⟨i, x, old, new⟩ := mv
  obtain rfl : i = 3 := member
  obtain ⟨w, stored, named, kept⟩ := run.guard_after_failure Memory.sound_empty "r" alone rfl latest
    left ⟨_, rfl, by simp⟩ guarded called rfl
  exact ⟨w, stored, named, kept.2 unread⟩

/-- The first teardown succeeds, and the record gives up its guard, but before it is deleted `b`
registers. The second teardown fails. -/
def relapse : Scene (Job.crew relatives) :=
  (relation [3, 3, 3, 3, 3, 3, 4, 4, 4, 3, 3, 3, 3]).play failing [3, 3, 3, 3]

/-- The record is still to be torn down, but the store would delete it. -/
theorem relapse_unguarded :
    OnePassAtATime relatives "r" relapse.history ∧ StartsGuarded (own 3 relapse.history) ∧
      relapse.left 3 = .done (.ok (.requeue (.ofSecs 10))) ∧
      ∃ w ∈ relapse.memory.records.get? "r",
        w.status.failureReason = some "teardown failed: HTTP 502: bad gateway" ∧
        w.pendingTeardown = false ∧
        (relapse.memory.perform ⟨0, 0⟩ (.delete w)).1.isOk = true := by
  refine ⟨onePassAtATime_of_sorted (by decide +kernel), ?_,
    Pass.eq_done_of_answer? (by decide +kernel), by decide +kernel⟩
  unfold StartsGuarded
  decide +kernel

end Tributary
