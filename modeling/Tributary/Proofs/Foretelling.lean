import Tributary.Preview
import Tributary.Proofs.Errands
import Tributary.Proofs.HeldBack

/-!
# What a preview foretells

A preview says whether the configuration differs from the one that was synchronised last, and a
pass pushes what does. But a pass pushes whatever is not marked as synchronised, too: what a push
or a pass that broke off has left in doubt is pushed again even if it was put back
(`Engine.pushes_previewed`). So a preview that says that something changes is right, with the hash
of what is pushed, and one that says that nothing does may be wrong (`reversion_unforeseen`).
-/

namespace Tributary

/-- The configuration that is pushed. -/
def Exchange.pushed? : Exchange → Option Aggregation
  | ⟨.push _ _ _ a, _⟩ => some a
  | _ => none

/-- The configurations that were pushed, the latest first. -/
def pushed (past : List Exchange) : List Aggregation := past.filterMap (·.pushed?)

theorem pushed_cons_of_none {x : Exchange} (h : x.pushed? = none) (past : List Exchange) :
    pushed (x :: past) = pushed past :=
  List.filterMap_cons_none h

theorem pushed?_of_upkeep {x : Exchange} (h : x.kind = .upkeep) : x.pushed? = none := by
  unfold Exchange.pushed?
  split
  · cases h
  · rfl

theorem Upkeep.pushed_eq {base past : List Exchange} (u : Upkeep base past) :
    pushed past = pushed base := by
  induction u with
  | refl => rfl
  | step _ hx ih => rw [pushed_cons_of_none (pushed?_of_upkeep hx), ih]

theorem Request.pushed?_of_maintains {q : Request} (h : q.maintains = true) (a : q.Answer) :
    Exchange.pushed? ⟨q, a⟩ = none := by
  cases q <;> first | rfl | cases h

theorem Request.minds_of_maintains {q : Request} (h : q.maintains = true) (key : String) :
    q.Minds key := by
  cases q <;> trivial

namespace Pass

open Session (Becomes amid_when)

/-- Nothing keeps a pass from pushing what is made of a record, except that it is synchronised. -/
structure Unobstructed (answers : Exchange → Prop) (r : Record) (a : Aggregation) : Prop where
  quiet : ∀ key, ¬answers ⟨.coalescing key, true⟩
  aggregated : ∀ type result, answers ⟨.aggregate type r.sources, result⟩ → result = .ok a
  due : ∀ now, answers ⟨.now, now⟩ → Backoff.retryWait r now = none
  resolved : ∀ reference error, ¬answers ⟨.credentials reference, .error error⟩

/-- What a pass pushes of what is made of a record. -/
def foreseen (r : Record) (a : Aggregation) : List Aggregation :=
  if (r.preview a).changed = true ∨ r.status.phase ≠ .synced then [a] else []

variable {α β : Type} {e : Engine} {key : String} {answers : Exchange → Prop} {a : Aggregation}
  {r copy : Record} {past : List Exchange} {v : Option Record}

/-- What does not give up may be followed by what does. -/
theorem Certain.becomes {session : Session α}
    {gives : List Exchange → SyncError → Record → Option Record → Prop}
    {leads : List Exchange → α → Record → Option Record → Prop}
    (h : session.Amid (undisturbed key answers) (Certain leads) copy past v) :
    session.Amid (undisturbed key answers) (Becomes gives leads) copy past v := by
  refine h.mono fun past result copy v led => ?_
  cases result with
  | ok a => exact led
  | error error => exact led.elim

/-- However a session ends, that is what was pushed. -/
abbrev HasPushed (configurations : List Aggregation) :
    List Exchange → Except SyncError α → Record → Option Record → Prop :=
  Becomes (fun past _ _ _ => pushed past = configurations)
    fun past _ _ _ => pushed past = configurations

/-- What only sees to the record pushes nothing more. -/
theorem pushing_of_asks {session : Session α} (h : session.Asks (·.maintains = true)) :
    session.Amid (undisturbed key answers) (HasPushed (pushed past)) copy past v := by
  have asked : session.Amid (undisturbed key answers)
      (fun past' _ _ _ => pushed past' = pushed past) copy past v := by
    refine Program.Asks.amid (h copy) ?_ ?_ ?_
    · intro q answer past' asked same
      rw [pushed_cons_of_none (q.pushed?_of_maintains asked answer), same]
    · intro q answer past' v asked
      exact q.minds_of_maintains asked key
    · rfl
  refine asked.mono fun past' result copy v same => ?_
  cases result with
  | ok => exact same
  | error => exact same

/-- An attempt pushes what was aggregated, and once. -/
theorem attempt_pushing (type : String) (hkey : copy.key = key)
    (resolved : ∀ reference error, ¬answers ⟨.credentials reference, .error error⟩)
    (none : pushed past = []) :
    Session.Amid (undisturbed key answers) (HasPushed [a])
      (do
        Update.status e.updater fun r => { r.status with phase := .syncing }
        match ← push type a with
        | .ok outcome => complete e a outcome
        | .error error => fail e error.category error.text) copy past (some copy) := by
  refine (Certain.becomes (status_undisturbed e.updater hkey)).next
    fun past' _ copy' v' updated => ?_
  have none' : pushed past' = [] := (Updated.upkeep updated).pushed_eq.trans none
  simp only [push, Session.amid_get, bind_assoc]
  obtain ⟨rfl, -⟩ := updated
  refine asks (fun _ => rfl) trivial fun access answered => ?_
  cases access with
  | error error => exact absurd answered (resolved _ error)
  | ok credentials =>
    refine asks (fun _ => rfl) trivial fun answer _ => ?_
    have once : pushed (⟨.push type copy'.scopeIds credentials a, answer⟩ ::
        ⟨.credentials copy'.credentialsRef, .ok credentials⟩ :: past') = [a] := by
      rw [← none']
      rfl
    rw [← once]
    -- Whatever the push has come to, what follows only sees to the record.
    cases answer with
    | ok outcome => exact pushing_of_asks (complete_asks e a outcome)
    | error error =>
      exact pushing_of_asks ((fail_asks e _ _).mono fun _ => Request.maintains_of_enters)

/-- A record that a pass is about to aggregate, with what decides whether it is pushed as it was. -/
structure Facing (key : String) (r : Record) (past : List Exchange) (copy : Record)
    (v : Option Record) : Prop where
  stored : v = some copy
  key : copy.key = key
  sources : copy.sources = r.sources
  hash : copy.status.configHash = r.status.configHash
  synced : copy.status.phase = .synced ↔ r.status.phase = .synced
  due : ∀ now, Backoff.retryWait r now = none → Backoff.retryWait copy now = none
  unpushed : pushed past = []

theorem Facing.asked (h : Facing key r past copy v) {x : Exchange} (hx : x.pushed? = none) :
    Facing key r (x :: past) copy v :=
  { h with unpushed := (pushed_cons_of_none hx past).trans h.unpushed }

theorem Guarded.facing {past' : List Exchange} (h : Guarded r past past' copy v)
    (hkey : r.key = key) (unpushed : pushed past = []) :
    Facing key r past' copy v ∧ Backoff.parked copy = Backoff.parked r := by
  obtain ⟨_, rfl, rfl, rfl⟩ | ⟨_, updated⟩ := h
  · exact ⟨⟨rfl, hkey, rfl, rfl, .rfl, fun _ => id, unpushed⟩, rfl⟩
  · have unpushed := updated.upkeep.pushed_eq.trans unpushed
    obtain ⟨rfl, token, now, rfl, -⟩ := updated
    exact ⟨⟨rfl, hkey, rfl, rfl, .rfl, fun _ => id, unpushed⟩, rfl⟩

/-- A failure that the record has outgrown is forgotten. -/
theorem Facing.reset {past' : List Exchange} {copy' : Record} {v' : Option Record}
    (h : Facing key r past copy v) (failed : copy.status.phase = .failed)
    (updated : Updated .status { copy with status := Backoff.resetFailed copy.status } copy past
      past' copy' v') : Facing key r past' copy' v' := by
  have unpushed := updated.upkeep.pushed_eq.trans h.unpushed
  obtain ⟨rfl, token, now, rfl, -⟩ := updated
  refine ⟨rfl, h.key, h.sources, h.hash, ?_, fun _ _ => rfl, unpushed⟩
  rw [← h.synced, failed]
  exact ⟨nofun, nofun⟩

/-- What a pass finds unchanged it does not push, and it pushes all else. -/
theorem Facing.foreseen_eq (h : Facing key r past copy v) (a : Aggregation) :
    foreseen r a =
      if copy.status.phase = .synced && !fingerprintChanged copy.status.configHash a.hash then []
      else [a] := by
  rw [foreseen, Record.preview, h.hash]
  by_cases synced : r.status.phase = .synced
  · cases changed : fingerprintChanged r.status.configHash a.hash <;>
      simp [synced, h.synced.2 synced]
  · simp [synced, mt h.synced.1 synced]

/-- A pass pushes what is foreseen. -/
theorem synchronise_pushing (type : String) (hkey : r.key = key)
    (unparked : Backoff.parked r = false) (h : Unobstructed answers r a)
    (unpushed : pushed past = []) :
    (synchronise e key type).Amid (undisturbed key answers) (HasPushed (foreseen r a)) r past
      (some r) := by
  unfold synchronise
  refine (Certain.becomes (guard_undisturbed e.updater hkey)).next fun past _ copy v guarded => ?_
  obtain ⟨facing, same⟩ := guarded.facing hkey unpushed
  simp only [Session.amid_get, same, unparked, Bool.false_eq_true, if_false]
  refine amid_when (fun past _ copy v => Facing key r past copy v) (fun failed => ?_)
    (fun _ => facing) fun past _ copy v facing => ?_
  · obtain rfl := facing.stored
    refine Certain.becomes ((status_undisturbed e.updater facing.key).weaken ?_)
    exact fun _ _ _ _ => facing.reset failed
  obtain rfl := facing.stored
  refine asks (fun _ => rfl) rfl fun busy answered => ?_
  cases busy with
  | true => exact absurd answered (h.quiet key)
  | false =>
    replace facing := facing.asked (x := ⟨.coalescing key, false⟩) rfl
    simp only [Bool.false_eq_true, if_false, Session.amid_get]
    refine asks (fun _ => rfl) trivial fun result answered => ?_
    replace facing := facing.asked (x := ⟨.aggregate type copy.sources, result⟩) rfl
    rw [facing.sources] at answered
    obtain rfl := h.aggregated type result answered
    rw [facing.foreseen_eq a]
    dsimp only
    split
    · exact facing.unpushed
    · refine asks (fun _ => rfl) trivial fun now asked => ?_
      replace facing := facing.asked (x := ⟨.now, now⟩) rfl
      rw [facing.due now (h.due now asked)]
      exact attempt_pushing type facing.key h.resolved facing.unpushed

theorem run_pushing (hkey : r.key = key) (known : e.knows r.resourceType = true)
    (none : r.needsTeardown = false) (unparked : Backoff.parked r = false)
    (h : Unobstructed answers r a) (unpushed : pushed past = []) :
    (run e key).Amid (undisturbed key answers) (HasPushed (foreseen r a)) r past (some r) := by
  obtain ⟨n, attempts⟩ := e.updater.exists_maxAttempts
  have skips : (rounds e key r.resourceType (n + 1)).Amid (undisturbed key answers)
      (Certain fun past' result copy' v' =>
        result = Option.none ∧ copy' = r ∧ v' = some r ∧ past' = past) r past (some r) := by
    simp only [rounds, Session.amid_get, none]
    exact ⟨rfl, rfl, rfl, rfl⟩
  simp only [run, Session.amid_get, known, if_true, attempts]
  refine (Certain.becomes skips).next fun _ _ _ _ led => ?_
  obtain ⟨rfl, rfl, rfl, rfl⟩ := led
  exact synchronise_pushing _ hkey unparked h unpushed

end Pass

open Pass in
theorem Engine.reconcile_pushing (e : Engine) (key : String) {answers : Exchange → Prop}
    {r : Record} {a : Aggregation} (known : e.knows r.resourceType = true)
    (none : r.needsTeardown = false) (unparked : Backoff.parked r = false)
    (h : Unobstructed answers r a) :
    (e.reconcile key).Amid (undisturbed key answers)
      (fun past _ _ => pushed past = foreseen r a) [] (some r) := by
  unfold Engine.reconcile
  rw [Program.amid_request]
  rintro _ answer v rfl _ turns
  refine ⟨trivial, ?_⟩
  obtain ⟨rfl, rfl⟩ := turns.get_some rfl
  obtain ⟨_, _, hkey⟩ := turns.found rfl
  dsimp only
  rw [Program.amid_bind, Program.amid_map]
  refine Program.Amid.mono (run_pushing hkey known none unparked h rfl) ?_
  rintro past ⟨result, copy⟩ v same
  cases result with
  | ok action => exact same
  | error error => exact same

/-- If nothing keeps a pass from pushing a record and nobody disturbs it, it pushes if the preview
of the record says that something changes, and if the record is not marked as synchronised, and
not otherwise. It pushes once, what the preview has the hash of. -/
theorem Engine.pushes_previewed (e : Engine) {key : String} {r : Record} {m : Memory} (h : m.Sound)
    (found : m.records.get? key = some r) (known : e.knows r.resourceType = true)
    (none : r.needsTeardown = false) (unparked : Backoff.parked r = false)
    (around : List Exchange → Surroundings) {a : Aggregation}
    (aggregated : ∀ past, (around past).aggregate r.sources = .ok a)
    (due : ∀ past, Backoff.retryWait r (around past).now = .none)
    (quiet : ∀ past, (around past).busy = false)
    (resolved : ∀ past, (around past).credentials.isOk = true) :
    (pushed (e.pass key around m).past).map (·.hash) =
      if (r.preview a).changed = true ∨ r.status.phase ≠ .synced then [(r.preview a).currentHash]
      else [] := by
  let answers (x : Exchange) : Prop :=
    ∃ past m, x.answer = ((around past).answer m x.request).1
  have answered (past : List Exchange) (m : Memory) (q : Request) :
      answers ⟨q, ((around past).answer m q).1⟩ := ⟨past, m, rfl⟩
  have unobstructed : Pass.Unobstructed answers r a := by
    refine ⟨?_, ?_, ?_, ?_⟩
    · rintro key ⟨past, _, same⟩
      cases (quiet past).symm.trans same.symm
    · rintro type result ⟨past, _, same⟩
      exact same.trans (aggregated past)
    · rintro now ⟨past, _, same⟩
      rw [show now = (around past).now from same]
      exact due past
    · rintro reference error ⟨past, _, same⟩
      have resolved := resolved past
      rw [← show _ = (around past).credentials from same] at resolved
      cases resolved
  have pushes := e.reconcile_pushing key known none unparked unobstructed
  have foreseen : pushed (e.pass key around m).past = Pass.foreseen r a :=
    Program.Amid.alone (found ▸ pushes) h answered
  rw [foreseen, Pass.foreseen]
  split <;> rfl

/-- A record that nobody has looked at yet. -/
def unseen : Record :=
  { Record.blank "r" "t" "live" ⟨0, 0⟩ with
    sources := [⟨⟨"App", "ns", "a"⟩, 0, []⟩]
    generation := 1
    token := 1 }

/-- What is made of its contributions. -/
def unseen.aggregation : Aggregation := ⟨.null, 1, [⟨"App", "ns", "a"⟩]⟩

/-- After the push of something else has failed, what was synchronised before is asked for again. -/
def reverted : Record :=
  { unseen with
    generation := 3
    pendingTeardown := true
    status := {
      phase := .error, configHash := unseen.aggregation.hash, configVersion := 1,
      lastSyncTime := some ⟨0, 0⟩, snapshot := some .null, retryCount := 1, maxRetries := 5,
      failureReason := some "HTTP 502: bad gateway", errorCategory := some .transient,
      nextRetryAt := some ⟨10, 0⟩, observedGeneration := 2 } }

/-- A pass over a record to which nothing happens meanwhile. -/
def Engine.only (r : Record) : Solo (Except SyncError Action) :=
  Engine.pass { knows := fun _ => true } "r" (fun _ => {}) (({} : Memory).put r)

theorem unseen_previewed :
    (pushed (Engine.only unseen).past).map (·.hash) =
      [(unseen.preview unseen.aggregation).currentHash] := by
  have sound : (({} : Memory).put unseen).Sound := Memory.sound_empty.put rfl
  have found : (({} : Memory).put unseen).records.get? "r" = some unseen := rfl
  have pushes := Engine.pushes_previewed { knows := fun _ => true } sound found rfl rfl rfl
    (fun _ => {}) (a := unseen.aggregation) (fun _ => rfl) (fun _ => rfl) (fun _ => rfl)
    fun _ => rfl
  exact pushes.trans (if_pos (.inr nofun))

/-- Nothing has changed, says the preview, and it is pushed all the same. -/
theorem reversion_unforeseen :
    Backoff.parked reverted = false ∧ reverted.needsTeardown = false ∧
      Backoff.retryWait reverted ⟨0, 0⟩ = none ∧
      (reverted.preview unseen.aggregation).changed = false ∧
      (pushed (Engine.only reverted).past).length = 1 := by
  decide +kernel

end Tributary
