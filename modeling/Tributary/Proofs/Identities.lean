import Tributary.Proofs.Skips

/-!
# Identities

A record that was created without an identity gets one from a push, and from nowhere else: the
identity that a push has reported is entered by the next update of its pass (`Adopts`), and stays.
So a teardown that calls nothing, because the record still has its placeholder, is right about the
record (`Run.deleted_placeholder`), but not always about the downstream: a push may have been
accepted whose identity could not be entered (`oblivion_forgotten`).
-/

namespace Tributary

open Exchange (Kind)

/-- A pass enters the identity that its latest push has reported. -/
def Adopts (jobs : Nat → Job) (key : String) (mv : Move) (earlier : List Move) : Prop :=
  (jobs mv.member).passes key = true ∧ ∃ r token,
    mv.exchange = ⟨.store (.update r), .ok token⟩ ∧ r.key = key ∧
      Pass.Reported (own mv.member earlier) r.externalId

namespace Pass

variable {past : List Exchange} {key : String} {r v w c : Record} {token : Nat}

/-- Past its teardown, a pass changes nothing but the identity. -/
theorem adopted_of_late (late : ¬ Early past) (hkey : r.key = key)
    (h : Commit (protocol key) past key ⟨.store (.update r), .ok token⟩ (some v) (some w)) :
    Reported past r.externalId ∧ w.isPending = false := by
  cases h with
  | kept none => simp [Exchange.commits, hkey] at none
  | edited token now _ _ _ edits =>
    cases (edits : Edits past v r) with
    | guard early | release early | clear early => exact absurd early late
    | adopt id _ reported real => exact ⟨reported, real⟩

/-- The downstream was not called in a round of teardown, nor was the access to it asked for. -/
def Passive (past : List Exchange) : Prop :=
  ∀ x ∈ round past, x.kind ≠ .resolution ∧ x.kind ≠ .teardown

/-- A version with a placeholder is taken down without a call, and no other is. -/
theorem TakenDown.passive_iff (h : TakenDown c past) : Passive past ↔ c.isPending = true := by
  constructor
  · intro passive
    obtain pending | ⟨_, _, _, _, called, _⟩ | ⟨_, _, asked, _⟩ := tornDown_or_unresolved h
    · exact pending
    · exact absurd rfl (passive _ (List.mem_of_find?_eq_some called)).2
    · exact absurd rfl (passive _ (List.mem_of_find?_eq_some asked)).1
  · intro pending
    obtain ⟨_, before, time, base, _, cut, u⟩ := h
    cases cut with
    | absent =>
      have since : Upkeep [] (round past) := u.takeWhile (k := .clock) (by decide)
      exact since.forall_mem (fun x hx => by simp [hx]) fun _ none => by cases none
    | unresolved _ real | accepted _ real => cases real.symm.trans pending

end Pass

/-- A move that changes the identity of a record is that of a pass past its teardown. -/
theorem Job.identity_of_commit {j : Job} {past : List Exchange} {key : String} {x : Exchange}
    {v w : Record} (h : Commit j.protocol past key x (some v) (some w)) :
    w.externalId = v.externalId ∨ (j.passes key = true ∧ ¬ Pass.Early past ∧
      ∃ r token, x = ⟨.store (.update r), .ok token⟩ ∧ r.key = key) := by
  by_cases early : j.passes key = true → Pass.Early past
  · exact .inl (Job.commit_identity h early)
  · obtain ⟨pass, late⟩ := Classical.not_imp.1 early
    cases h with
    | kept | marked => exact .inl rfl
    | edited token now _ hkey => exact .inr ⟨pass, late, _, token, rfl, hkey⟩

variable {faulty : StoreError → Prop} {jobs : Nat → Job} {start m : Memory}
  {history earlier since before : List Move} {mv : Move} {key : String} {v w : Record}

namespace Run

/-- A pass whose push has reported something is past its teardown. -/
theorem late_of_reported (run : Run faulty (Job.crew jobs) start history m) (h : start.Sound)
    {i : Nat} (pass : (jobs i).passes key = true) {id : String}
    (reported : Pass.Reported (own i history) id) : ¬ Pass.Early (own i history) := by
  obtain ⟨x, found, named⟩ := Option.bind_eq_some_iff.1 reported
  obtain ⟨past, base, split⟩ := List.append_of_mem (List.mem_of_find?_eq_some found)
  obtain ⟨later, mv, sooner, rfl, rfl, rfl, _, hbase⟩ := exists_of_own split
  have asked := Job.protocol_of_passes pass ▸ (run.upto_move.allowed h).2
  rw [hbase] at asked
  have late : ¬ Pass.Early base := by
    unfold Exchange.reported? at named
    split at named
    · next hx =>
      rw [hx] at asked
      exact asked.1
    · cases named
  intro early
  apply late
  intro x hx
  exact early x (by rw [split]; simp [hx])

/-- A move either enters a real identity or leaves the identity as it is. -/
theorem identity_step (run : Run faulty (Job.crew jobs) start (mv :: earlier) m) (h : start.Sound)
    (stored : mv.before.records.get? key = some v) (made : mv.after.records.get? key = some w) :
    (Adopts jobs key mv earlier ∧ w.isPending = false) ∨
      (¬ Adopts jobs key mv earlier ∧ w.externalId = v.externalId) := by
  have committed := run.committed h key
  rw [stored, made] at committed
  by_cases adopts : Adopts jobs key mv earlier
  · obtain ⟨pass, r, token, hx, hkey, reported⟩ := adopts
    have passed := run.passed h pass
    rw [stored, made, hx] at passed
    have late := run.last.1.late_of_reported h pass reported
    exact .inl ⟨⟨pass, r, token, hx, hkey, reported⟩, (Pass.adopted_of_late late hkey passed).2⟩
  · refine .inr ⟨adopts, ?_⟩
    obtain same | ⟨pass, late, r, token, hx, hkey⟩ := Job.identity_of_commit committed
    · exact same
    · have passed := run.passed h pass
      rw [stored, made, hx] at passed
      have reported := (Pass.adopted_of_late late hkey passed).1
      exact absurd ⟨pass, r, token, hx, hkey, reported⟩ adopts

/-- As long as a record is not deleted, it has its placeholder iff it had it at first and no
identity was entered. -/
theorem isPending_iff (run : Run faulty (Job.crew jobs) start (since ++ before) m)
    (h : start.Sound) (found : (memoryAfter start before).records.get? key = some v)
    (undeleted : Undeleted key since) :
    ∃ w, m.records.get? key = some w ∧ (w.isPending = true ↔ v.isPending = true ∧
      ∀ later mv sooner, since = later ++ mv :: sooner →
        ¬ Adopts jobs key mv (sooner ++ before)) := by
  induction since generalizing m with
  | nil =>
    refine ⟨v, run.memory_eq ▸ found, ?_⟩
    simp
  | cons mv since ih =>
    obtain ⟨run', _⟩ := run.last
    obtain ⟨u, stored, pending⟩ := ih run' fun x hx => undeleted x (.tail _ hx)
    have last := undeleted mv (.head _)
    have committed := run.committed h key
    have after := run.memory_eq
    rw [stored] at committed
    cases made : mv.after.records.get? key with
    | none =>
      rw [made] at committed
      generalize hx : mv.exchange = x at committed
      cases committed with
      | deleted _ hkey => simp [hx, Exchange.removes, hkey] at last
    | some w =>
      refine ⟨w, by rw [after]; exact made, ?_⟩
      obtain ⟨adopts, real⟩ | ⟨none, same⟩ := run.identity_step h stored made
      · constructor
        · intro placeholder
          cases real.symm.trans placeholder
        · rintro ⟨_, none⟩
          exact absurd adopts (none [] mv since rfl)
      · have kept : w.isPending = u.isPending := by simp [Record.isPending, same]
        rw [kept, pending]
        refine and_congr_right fun _ => ?_
        constructor
        · rintro earlier later adoption sooner split
          cases later with
          | nil =>
            cases split
            exact none
          | cons _ later => exact earlier later adoption sooner (List.cons.inj split).2
        · rintro whole later adoption sooner rfl
          exact whole (mv :: later) adoption sooner rfl

end Run

/-- A record is deleted without a call of the downstream iff it has its placeholder still. It has
it iff it was created with it and no pass has entered an identity since, whatever was pushed. -/
theorem Run.deleted_placeholder (run : Run faulty (Job.crew jobs) start (mv :: earlier) m)
    (h : start.Sound) (key : String) (alone : OnePassAtATime jobs key (mv :: earlier))
    (pass : (jobs mv.member).passes key = true)
    (stored : mv.before.records.get? key = some v) (gone : mv.after.records.get? key = none) :
    (Pass.Passive (own mv.member earlier) ↔ v.isPending = true) ∧
    ∀ since birth before r, earlier = since ++ birth :: before →
      birth.before.records.get? key = none → birth.after.records.get? key = some r →
      Undeleted key since →
      (v.isPending = true ↔ r.isPending = true ∧ ∀ later adoption sooner,
        since = later ++ adoption :: sooner →
          ¬ Adopts jobs key adoption (sooner ++ birth :: before)) := by
  have passed := run.passed h pass
  rw [stored, gone] at passed
  obtain ⟨early, c, _, down⟩ := Pass.taken_of_deleted passed
  have held := Pass.heldAt_clock_of_takenDown down
  have same : c.isPending = v.isPending := by
    rw [Record.isPending, Record.isPending, run.identity_of_held h alone pass early held stored]
  constructor
  · rw [← same]
    exact down.passive_iff
  · rintro since birth before r rfl _ born undeleted
    obtain ⟨w, stored', pending⟩ := run.last.1.isPending_iff h born undeleted
    obtain rfl : w = v := Option.some.inj (stored'.symm.trans stored)
    exact pending

/-- `a` registers something new, and a pass that makes one try at every write looks at it. While it
pushes, `b` registers. Then both leave, and another pass looks at the record. -/
def forgetters : Nat → Job := Job.roster [
  .register {} "r" { resourceType := "t" } ⟨⟨"App", "ns", "a"⟩, 0, []⟩,
  .reconcile { knows := fun _ => true, updater := { maxRetries := 1 } } "r",
  .joins "b", .leaves "a", .leaves "b", .looks]

/-- The push is accepted, but the identity that it reports cannot be entered: the write is refused
for the contribution of `b`. -/
def oblivion : Scene (Job.crew forgetters) :=
  (Scene.opening (Job.crew forgetters) {}).play { push := .ok { externalId := some "zone-1" } }
    [0, 0, 0, 1, 1, 1, 1, 1, 1, 1, 1, 1, 1, 2, 2, 2, 1, 1, 1, 1, 1, 1, 3, 3, 3, 4, 4, 4,
      5, 5, 5, 5, 5]

theorem oblivion_unadopted :
    ∃ mv earlier since birth before, oblivion.history = mv :: earlier ∧
      earlier = since ++ birth :: before ∧ Pass.Passive (own 5 earlier) ∧
      ∀ later adoption sooner, since = later ++ adoption :: sooner →
        ¬ Adopts forgetters "r" adoption (sooner ++ birth :: before) := by
  have run : Run (fun _ => False) (Job.crew forgetters) {} oblivion.history oblivion.memory :=
    (Scene.real_play _).run
  have alone : OnePassAtATime forgetters "r" oblivion.history :=
    onePassAtATime_of_sorted (by decide +kernel)
  have last : ∃ mv ∈ oblivion.history.head?, mv.member = 5 ∧
      (∃ v ∈ mv.before.records.get? "r", v.isPending = true) ∧
        (mv.after.records.get? "r").isNone = true := by decide +kernel
  have first : ∃ mv ∈ (oblivion.history.drop 30).head?,
      (mv.before.records.get? "r").isNone = true ∧
        (mv.after.records.get? "r").isSome = true := by decide +kernel
  have undeleted : Undeleted "r" (oblivion.history.tail.take 29) := by
    unfold Undeleted
    decide +kernel
  obtain ⟨mv, head, member, stored, gone⟩ := last
  obtain ⟨birth, head', absent, born⟩ := first
  obtain ⟨earlier, hmv⟩ := List.head?_eq_some_iff.1 head
  obtain ⟨before, hbirth⟩ := List.head?_eq_some_iff.1 head'
  obtain ⟨r, born⟩ := Option.isSome_iff_exists.1 born
  obtain ⟨v, stored, pending⟩ := stored
  have whole : earlier = oblivion.history.tail.take 29 ++ birth :: before := by
    rw [← hbirth, ← List.take_append_drop 29 earlier, hmv]
    rfl
  rw [hmv] at run alone
  obtain ⟨passive, kept⟩ := run.deleted_placeholder Memory.sound_empty "r" alone
    (by rw [member]; rfl) stored (Option.isNone_iff_eq_none.1 gone)
  refine ⟨mv, earlier, _, birth, before, hmv, whole, member ▸ passive.2 pending, ?_⟩
  exact ((kept _ birth before r whole (Option.isNone_iff_eq_none.1 absent) born undeleted).1
    pending).2

/-- The record is gone, and nobody has called the downstream for what was created there. -/
theorem oblivion_forgotten :
    OnePassAtATime forgetters "r" oblivion.history ∧
      Pass.Reported (own 1 oblivion.history) "zone-1" ∧
      oblivion.left 5 = .done (.ok .done) ∧ oblivion.memory.records.get? "r" = none ∧
      ∀ mv ∈ oblivion.history, mv.exchange.kind ≠ .teardown := by
  refine ⟨onePassAtATime_of_sorted (by decide +kernel), ?_,
    Pass.eq_done_of_finished (by decide +kernel), ?_, by decide +kernel⟩
  · unfold Pass.Reported
    decide +kernel
  · exact Option.isNone_iff_eq_none.1 (by decide +kernel)

end Tributary
