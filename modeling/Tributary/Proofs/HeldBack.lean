import Tributary.Proofs.Rest

/-!
# Records that are held back

A record that has failed for good, or whose retry is not due yet, is left alone until it changes.
Three paths of a pass look for that, each at its own place: the one of a type that nobody knows,
the teardown and the push. On none of them is the downstream called, and unless something else
goes wrong the status stays as it is, too (`Engine.leaves_heldBack`).
-/

namespace Tributary

namespace Exchange

/-- The downstream is called, or the access to it is asked for. -/
def reaches (x : Exchange) : Bool :=
  x.kind = .resolution || x.kind = .push || x.kind = .teardown

/-- A status is to be written. -/
def isMark (x : Exchange) : Bool :=
  match x.request with
  | .store (.updateStatus _) => true
  | _ => false

theorem reaches_of_upkeep {x : Exchange} (h : x.kind = .upkeep) : x.reaches = false := by
  simp [reaches, h]

end Exchange

/-- A record that is not to be acted on at an instant, and what a pass answers instead. -/
inductive HeldBack (r : Record) (now : Instant) : Action → Prop
  | failed (phase : r.status.phase = .failed) (seen : r.generation ≤ r.status.observedGeneration) :
      HeldBack r now .awaitChange
  | waiting {due : Instant} (phase : r.status.phase = .error)
      (seen : r.generation = r.status.observedGeneration)
      (next : r.status.nextRetryAt = some due) (left : 0 < due.nanosSince now) :
      HeldBack r now (.requeue ⟨(due.nanosSince now).toNat⟩)

namespace HeldBack

variable {r : Record} {now : Instant} {action : Action}

/-- What a pass finds out about such a record. -/
theorem found (h : HeldBack r now action) :
    (Backoff.parked r = true ∧ action = .awaitChange) ∨
      (Backoff.parked r = false ∧ r.status.phase = .error ∧
        ∃ wait, Backoff.retryWait r now = some wait ∧ action = .requeue wait) := by
  cases h with
  | failed phase seen => exact .inl ⟨Pass.parked_iff.2 ⟨phase, seen⟩, rfl⟩
  | waiting phase seen next left =>
    refine .inr ⟨?_, phase, _, ?_, rfl⟩
    · simp [Backoff.parked, phase]
    · simp [Backoff.retryWait, phase, seen, next, Instant.remaining?, left]

/-- Only the status and the generation matter. -/
theorem congr {w : Record} (h : HeldBack r now action) (status : w.status = r.status)
    (generation : w.generation = r.generation) : HeldBack w now action := by
  cases h with
  | failed phase seen =>
    apply failed
    · rw [status, phase]
    · rw [status, generation]
      exact seen
  | waiting phase seen next left =>
    apply waiting
    · rw [status, phase]
    · rw [status, generation, seen]
    · rw [status, next]
    · exact left

end HeldBack

namespace Pass

open Session (amid_when)

/-- The downstream has not been called, and no access to it was asked for. -/
def Unreached (past : List Exchange) : Prop := ∀ x ∈ past, x.reaches = false

/-- No status was to be written, either. -/
def Spared (past : List Exchange) : Prop := ∀ x ∈ past, x.reaches = false ∧ x.isMark = false

theorem Unreached.cons {past : List Exchange} (h : Unreached past) {x : Exchange}
    (hx : x.reaches = false) : Unreached (x :: past) := by
  intro y hy
  cases hy with
  | head => exact hx
  | tail _ hy => exact h y hy

theorem Spared.cons {past : List Exchange} (h : Spared past) {x : Exchange}
    (reaches : x.reaches = false) (marks : x.isMark = false) : Spared (x :: past) := by
  intro y hy
  cases hy with
  | head => exact ⟨reaches, marks⟩
  | tail _ hy => exact h y hy

theorem Spared.unreached {past : List Exchange} (h : Spared past) : Unreached past :=
  fun x hx => (h x hx).1

/-- Nothing but the wait for its retry keeps a pass from pushing a record: its type is known, its
contributions can be aggregated and its key is quiet. -/
structure Unhindered (e : Engine) (answers : Exchange → Prop) (r : Record) : Prop where
  known : e.knows r.resourceType = true
  aggregates : ∀ type error, ¬answers ⟨.aggregate type r.sources, .error error⟩
  quiet : ∀ key, ¬answers ⟨.coalescing key, true⟩

/-- A record was left alone: the downstream was not called and, unless something has come in
between, its status was not touched and the pass has answered as it should. -/
structure LeftAlone (expected : Prop) (action : Action) (past : List Exchange) (answer : Action) :
    Prop where
  unreached : Unreached past
  answered : expected → answer = action ∧ Spared past

variable {e : Engine} {key : String} {answers : Exchange → Prop} {now : Instant} {r copy : Record}
  {past : List Exchange} {action : Action} {expected : Prop}

theorem Updated.upkeep {half : Half} {made copy' : Record} {past' : List Exchange}
    {v' : Option Record} (h : Updated half made copy past past' copy' v') : Upkeep past past' := by
  obtain ⟨_, token, _, _, rfl⟩ := h
  have wrote : Upkeep past (Update.written half made (.ok token) :: past) := .step .refl (by simp)
  exact wrote.step rfl

theorem Spared.leftAlone (h : Spared past) : LeftAlone expected action past action :=
  ⟨h.unreached, fun _ => ⟨rfl, h⟩⟩

/-- A failure may be entered, but the downstream is not called for that. -/
theorem fail_leaves (category : Category) (reason : String) (hkey : copy.key = key)
    (h : Unreached past) (unexpected : ¬expected) :
    (fail e category reason).Amid (undisturbed key answers)
      (Certain fun past' answer _ _ => LeftAlone expected action past' answer) copy past
      (some copy) := by
  simp only [fail, Session.amid_get]
  refine asks (fun _ => rfl) trivial fun now _ => ?_
  refine (changing_undisturbed e.updater .status _ hkey ⟨rfl, rfl⟩).next
    fun past' outcome copy' v' led => ?_
  have unreached : Unreached past' :=
    led.1.upkeep.forall_mem (fun _ => Exchange.reaches_of_upkeep) (h.cons (x := ⟨.now, now⟩) rfl)
  cases outcome with
  | retry delay => exact ⟨unreached, fun h => absurd h unexpected⟩
  | failed => exact ⟨unreached, fun h => absurd h unexpected⟩

variable (expected) (clock : ∀ time, answers ⟨.now, time⟩ → time = now)
include clock

/-- A round of teardown goes no further than to the check whether the record is held back. -/
theorem teardown_leaves (type : String) (held : HeldBack copy now action) (spared : Spared past) :
    (teardown e type).Amid (undisturbed key answers)
      (Certain fun past' result _ _ => ∃ answer, result = some answer ∧
        LeftAlone expected action past' answer) copy past (some copy) := by
  simp only [teardown, Session.amid_get]
  obtain ⟨parked, rfl⟩ | ⟨unparked, _, wait, early, rfl⟩ := held.found
  · simp only [parked, if_true]
    exact ⟨_, rfl, spared.leftAlone⟩
  · simp only [unparked, Bool.false_eq_true, if_false]
    refine asks (fun _ => rfl) trivial fun time asked => ?_
    obtain rfl := clock time asked
    simp only [early]
    exact ⟨_, rfl, (spared.cons rfl rfl).leftAlone⟩

theorem synchronise_leaves (type : String) (hkey : copy.key = key)
    (held : HeldBack copy now action) (spared : Spared past)
    (hindered : copy.status.phase = .error → expected → Unhindered e answers copy) :
    (synchronise e key type).Amid (undisturbed key answers)
      (Certain fun past' answer _ _ => LeftAlone expected action past' answer) copy past
      (some copy) := by
  unfold synchronise
  refine (guard_undisturbed e.updater hkey).next fun past' _ copy' v guarded => ?_
  obtain ⟨rfl, status, generation, sources, hkey', spared⟩ : v = some copy' ∧
      copy'.status = copy.status ∧ copy'.generation = copy.generation ∧
      copy'.sources = copy.sources ∧ copy'.key = key ∧ Spared past' := by
    obtain ⟨_, rfl, rfl, rfl⟩ | ⟨_, rfl, token, _, rfl, rfl⟩ := guarded
    · exact ⟨rfl, rfl, rfl, rfl, hkey, spared⟩
    · exact ⟨rfl, rfl, rfl, rfl, hkey, (spared.cons rfl rfl).cons rfl rfl⟩
  simp only [Session.amid_get]
  obtain ⟨parked, rfl⟩ | ⟨unparked, error, wait, early, rfl⟩ := (held.congr status generation).found
  · simp only [parked, if_true]
    exact spared.leftAlone
  · have hindered := hindered (status ▸ error)
    simp only [unparked, Bool.false_eq_true, if_false, Session.amid_get, error]
    refine asks (fun _ => rfl) rfl fun busy answered => ?_
    have spared := spared.cons (x := ⟨.coalescing key, busy⟩) rfl rfl
    cases busy with
    | true => exact ⟨spared.unreached, fun h => absurd answered ((hindered h).quiet key)⟩
    | false =>
      simp only [Bool.false_eq_true, if_false, Session.amid_get]
      refine asks (fun _ => rfl) trivial fun result answered => ?_
      have spared := spared.cons (x := ⟨.aggregate type copy'.sources, result⟩) rfl rfl
      cases result with
      | error error =>
        rw [sources] at answered
        exact fail_leaves _ _ hkey' spared.unreached
          fun h => (hindered h).aggregates type error answered
      | ok a =>
        -- A record in error is not what was synchronised last, whatever its hash.
        simp only [error, reduceCtorEq, decide_false, Bool.false_and, Bool.false_eq_true, if_false]
        refine asks (fun _ => rfl) trivial fun time asked => ?_
        obtain rfl := clock time asked
        simp only [early]
        exact (spared.cons rfl rfl).leftAlone

theorem rounds_leaves (type : String) (held : HeldBack copy now action) (spared : Spared past)
    (n : Nat) :
    (rounds e key type (n + 1)).Amid (undisturbed key answers)
      (Certain fun past' result copy' v' => match result with
        | some answer => LeftAlone expected action past' answer
        | none => copy' = copy ∧ v' = some copy ∧ past' = past) copy past (some copy) := by
  simp only [rounds, Session.amid_get]
  split
  · refine (teardown_leaves expected clock type held spared).next fun past' result _ _ left => ?_
    obtain ⟨answer, rfl, left⟩ := left
    exact left
  · exact ⟨rfl, rfl, rfl⟩

theorem run_leaves (hkey : copy.key = key) (held : HeldBack copy now action)
    (spared : Spared past)
    (hindered : copy.status.phase = .error → expected → Unhindered e answers copy) :
    (run e key).Amid (undisturbed key answers)
      (Certain fun past' answer _ _ => LeftAlone expected action past' answer) copy past
      (some copy) := by
  obtain ⟨n, attempts⟩ := e.updater.exists_maxAttempts
  simp only [run, Session.amid_get, attempts]
  split
  · refine (rounds_leaves expected clock _ held spared n).next fun past' result _ _ left => ?_
    cases result with
    | some answer => exact left
    | none =>
      obtain ⟨rfl, rfl, rfl⟩ := left
      exact synchronise_leaves expected clock _ hkey held spared hindered
  · next unknown =>
    simp only [unknownType, Session.amid_get]
    obtain ⟨parked, rfl⟩ | ⟨unparked, error, _⟩ := held.found
    · simp only [parked, if_true]
      exact spared.leftAlone
    · simp only [unparked, Bool.false_eq_true, if_false]
      exact fail_leaves _ _ hkey spared.unreached fun h => unknown (hindered error h).known

end Pass

open Pass in
theorem Engine.reconcile_leaves (e : Engine) (key : String) {answers : Exchange → Prop}
    {now : Instant} {action : Action} (expected : Prop) {r : Record}
    (clock : ∀ time, answers ⟨.now, time⟩ → time = now) (held : HeldBack r now action)
    (hindered : r.status.phase = .error → expected → Unhindered e answers r) :
    (e.reconcile key).Amid (undisturbed key answers)
      (fun past result _ => ∃ answer, result = .ok answer ∧ LeftAlone expected action past answer)
      [] (some r) := by
  unfold Engine.reconcile
  rw [Program.amid_request]
  rintro _ a v rfl _ turns
  refine ⟨trivial, ?_⟩
  obtain ⟨rfl, rfl⟩ := turns.get_some rfl
  obtain ⟨_, _, hkey⟩ := turns.found rfl
  have none : Spared [] := fun _ h => by cases h
  dsimp only
  rw [Program.amid_bind, Program.amid_map]
  refine Program.Amid.mono (run_leaves expected clock hkey held (none.cons rfl rfl) hindered) ?_
  rintro past ⟨result, copy⟩ v left
  cases result with
  | ok answer => exact ⟨answer, rfl, left⟩
  | error error => exact left.elim

/-- A record that is held back is left alone by a pass that nobody disturbs: whatever else goes
wrong, the downstream is not called. A record that has failed for good is only guarded, and one
that waits for its retry is so unless its type is unknown, its contributions cannot be aggregated or
its key is not quiet. -/
theorem Engine.leaves_heldBack (e : Engine) {key : String} {r : Record} {m : Memory} (h : m.Sound)
    (found : m.records.get? key = some r) (around : List Exchange → Surroundings) {now : Instant}
    (clock : ∀ past, (around past).now = now) {action : Action} (held : HeldBack r now action) :
    (∀ x ∈ (e.pass key around m).past,
      x.kind ≠ .resolution ∧ x.kind ≠ .push ∧ x.kind ≠ .teardown) ∧
    ((r.status.phase = .error → e.knows r.resourceType = true ∧
        (∀ past, ((around past).aggregate r.sources).isOk = true) ∧
        ∀ past, (around past).busy = false) →
      (e.pass key around m).result = .ok action ∧
        ∀ x ∈ (e.pass key around m).past, ∀ w, x.request ≠ .store (.updateStatus w)) := by
  let answers (x : Exchange) : Prop :=
    ∃ past m, x.answer = ((around past).answer m x.request).1
  let expected : Prop := r.status.phase = .error → Pass.Unhindered e answers r
  have timed (time : Instant) (answered : answers ⟨.now, time⟩) : time = now := by
    obtain ⟨past, _, same⟩ := answered
    exact same.trans (clock past)
  have reconciled := e.reconcile_leaves key expected timed held fun error h => h error
  have answered (past : List Exchange) (m : Memory) (q : Request) :
      answers ⟨q, ((around past).answer m q).1⟩ := ⟨past, m, rfl⟩
  obtain ⟨answer, result, left⟩ := Program.Amid.alone (found ▸ reconciled) h answered
  constructor
  · intro x hx
    simpa [Exchange.reaches, and_assoc] using left.unreached x hx
  · intro smooth
    obtain ⟨rfl, spared⟩ := left.answered fun error => by
      obtain ⟨known, aggregates, quiet⟩ := smooth error
      refine ⟨known, ?_, ?_⟩
      · rintro type failure ⟨past, _, same⟩
        have succeeds := aggregates past
        rw [← show _ = (around past).aggregate r.sources from same] at succeeds
        cases succeeds
      · rintro key ⟨past, _, same⟩
        cases (quiet past).symm.trans same.symm
    refine ⟨result, ?_⟩
    rintro x hx w marks
    have unmarked := (spared x hx).2
    simp [Exchange.isMark, marks] at unmarked

/-- The record was to be cut back, which has failed and is to be tried again in five seconds. -/
def postponed : Record :=
  { Engine.parted with
    status := { phase := .error, observedGeneration := 3, nextRetryAt := some ⟨5, 0⟩ } }

/-- A pass that comes too early. -/
def impatience : Solo (Except SyncError Action) :=
  Engine.pass { knows := fun _ => true } "r" (fun _ => {}) (({} : Memory).put postponed)

theorem impatience_leaves :
    impatience.result = .ok (.requeue (.ofSecs 5)) ∧ ∀ x ∈ impatience.past, x.kind ≠ .teardown := by
  have sound : (({} : Memory).put postponed).Sound := Memory.sound_empty.put rfl
  have found : (({} : Memory).put postponed).records.get? "r" = some postponed := rfl
  have left : 0 < Instant.nanosSince ⟨5, 0⟩ ⟨0, 0⟩ := by decide
  have held : HeldBack postponed ⟨0, 0⟩ (.requeue (.ofSecs 5)) := .waiting rfl rfl rfl left
  obtain ⟨unreached, answered⟩ :=
    Engine.leaves_heldBack { knows := fun _ => true } sound found (fun _ => {}) (fun _ => rfl) held
  obtain ⟨result, _⟩ := answered fun _ => ⟨rfl, fun _ => rfl, fun _ => rfl⟩
  exact ⟨result, fun x hx => (unreached x hx).2.2⟩

end Tributary
