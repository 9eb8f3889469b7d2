import Tributary.Pass
import Tributary.Proofs.Company

/-!
# Passes that nobody disturbs

If the store does not fail and nobody else touches the record, an update is made at the first try
and a pass never gives up. `Pass.Course` lists all that can come of such a pass over a stored
record: what the pass answers, what is stored in the end and what was asked for it.
-/

namespace Tributary

/-! ## A store that does not fail -/

namespace Turns

variable {key : String} {v v' : Option Record} {r : Record}

theorem performed {c : Store.Call} {a : Store.Answer c}
    (h : Turns (fun _ => False) key v ⟨.store c, a⟩ v') :
    ∃ (m : Memory) (now : Instant), m.records.get? key = v ∧ (m.perform now c).1 = a := by
  obtain ⟨m, _, _, found, ⟨now, served⟩ | ⟨_, none, _⟩, _⟩ := h
  · exact ⟨m, now, found, (Prod.mk.inj served).1⟩
  · exact none.elim

theorem get_some {k : String} (hkey : k = key) {a : Except StoreError Record}
    (h : Turns (fun _ => False) key (some r) ⟨.store (.get k), a⟩ v') :
    a = .ok r ∧ v' = some r := by
  have same := h.same (by cases a <;> rfl)
  obtain ⟨m, _, found, rfl⟩ := h.performed
  subst hkey
  exact ⟨Memory.find_eq_ok.2 found, same⟩

theorem get_none {a : Except StoreError Record}
    (h : Turns (fun _ => False) key none ⟨.store (.get key), a⟩ v') :
    a = .error (.notFound key) ∧ v' = none := by
  have same := h.same (by cases a <;> rfl)
  obtain ⟨m, _, found, rfl⟩ := h.performed
  exact ⟨by simp only [Memory.perform, Memory.find, found], same⟩

theorem written {half : Half} {c w : Record} {a : Except StoreError Nat} (hkey : c.key = key)
    (same : c.token = w.token)
    (h : Turns (fun _ => False) key (some w) (Update.written half c a) v') :
    ∃ token now, a = .ok token ∧ v' = some (half.merged c w token now) := by
  cases a with
  | ok token =>
    obtain ⟨_, now, ⟨⟩, _, _, _, rfl⟩ := h.wrote hkey
    exact ⟨token, now, rfl, rfl⟩
  | error e =>
    exfalso
    cases half with
    | spec =>
      obtain ⟨m, now, found, refused⟩ := Turns.performed (c := .update c) h
      have current := Memory.current_eq_ok.2 ⟨hkey.symm ▸ found, same⟩
      simp [Memory.perform, Memory.update, current] at refused
    | status =>
      obtain ⟨m, now, found, refused⟩ := Turns.performed (c := .updateStatus c) h
      have current := Memory.current_eq_ok.2 ⟨hkey.symm ▸ found, same⟩
      simp [Memory.perform, Memory.updateStatus, current] at refused

theorem delete_some {a : Except StoreError Unit} (hkey : r.key = key)
    (released : r.pendingTeardown = false)
    (h : Turns (fun _ => False) key (some r) ⟨.store (.delete r), a⟩ v') :
    a = .ok () ∧ v' = none := by
  cases a with
  | ok done =>
    obtain ⟨_, _, _, _, gone⟩ := Turns.deleted (r := r) hkey h
    exact ⟨rfl, gone⟩
  | error e =>
    exfalso
    obtain ⟨m, now, found, refused⟩ := h.performed
    have current := Memory.current_eq_ok.2 ⟨hkey.symm ▸ found, rfl⟩
    simp [Memory.perform, Memory.delete, current, Record.checkReleased, released] at refused

end Turns

theorem RetryPolicy.exists_maxAttempts (p : RetryPolicy) : ∃ n, p.maxAttempts = n + 1 :=
  Nat.exists_eq_add_one.2 p.maxAttempts_pos

/-! ## What is asked -/

/-- Whether a key is quiet is asked of the own key only. -/
def Request.Minds (key : String) : Request → Prop
  | .coalescing k => k = key
  | _ => True

namespace Exchange

theorem minds_of_upkeep {key : String} {x : Exchange} (h : x.kind = .upkeep) :
    x.request.Minds key := by
  obtain ⟨q, a⟩ := x
  cases q with
  | coalescing => cases h
  | _ => trivial

/-- Nothing is written, and nothing is asked of the downstream. -/
def isIdle (x : Exchange) : Bool :=
  match x.request with
  | .credentials _ | .push .. | .teardown .. => false
  | q => !q.isWrite

theorem isCommit_of_isIdle {x : Exchange} (h : x.isIdle = true) : x.isCommit = false := by
  cases committed : x.isCommit with
  | false => rfl
  | true =>
    have written := isWrite_of_isCommit committed
    unfold isIdle at h
    split at h
    · cases h
    · cases h
    · cases h
    · simp [written] at h

/-- Something else than the store has failed. -/
def isFailure : Exchange → Bool
  | ⟨.aggregate .., .error _⟩ => true
  | ⟨.credentials _, .error _⟩ => true
  | ⟨.push .., .error _⟩ => true
  | ⟨.teardown .., .error _⟩ => true
  | _ => false

end Exchange

/-- Only reading, and only of what is at hand. -/
def Idle (past : List Exchange) : Prop := ∀ x ∈ past, x.isIdle = true

theorem idle_nil : Idle [] := fun _ h => by cases h

theorem Idle.cons {past : List Exchange} (h : Idle past) {x : Exchange} (hx : x.isIdle = true) :
    Idle (x :: past) := by
  rintro y (_ | ⟨_, hy⟩)
  · exact hx
  · exact h y hy

namespace Pass

open Session (amid_bind amid_request amid_attempt amid_when)

/-- Nobody disturbs a pass over the record of a key, and it is answered only so. -/
def undisturbed (key : String) (answers : Exchange → Prop) : Company where
  key := key
  faulty _ := False
  others v w := v = w
  answers := answers
  keeps past _ := match past with
    | [] => True
    | x :: _ => x.request.Minds key
  keeps_others h _ := h
  keeps_upkeep _ hx := Exchange.minds_of_upkeep hx

variable {α β : Type} {key : String} {answers : Exchange → Prop} {copy : Record}
  {past : List Exchange} {v : Option Record}

/-- What holds of the result of a session that does not give up. -/
abbrev Certain (ends : List Exchange → α → Record → Option Record → Prop) :
    List Exchange → Except SyncError α → Record → Option Record → Prop :=
  Session.Becomes (fun _ _ _ _ => False) ends

/-- The rule for requests that write nothing. -/
theorem asks {ends : List Exchange → Except SyncError β → Record → Option Record → Prop}
    {q : Request} {f : q.Answer → Session β} (idle : ∀ a, Exchange.isCommit ⟨q, a⟩ = false)
    (minds : q.Minds key)
    (rest : ∀ a, answers ⟨q, a⟩ →
      (f a).Amid (undisturbed key answers) ends copy (⟨q, a⟩ :: past) v) :
    (Session.request q >>= f).Amid (undisturbed key answers) ends copy past v := by
  rw [amid_request]
  rintro _ a v₂ rfl answered turns
  obtain rfl := turns.same (idle a)
  exact ⟨minds, rest a answered⟩

/-! ## Updates -/

/-- An update was made at the first try. -/
def Updated (half : Half) (made copy : Record) (past past' : List Exchange) (copy' : Record)
    (v' : Option Record) : Prop :=
  v' = some copy' ∧ ∃ token now, copy' = half.merged made copy token now ∧
    past' = ⟨.store (.get made.key), .ok copy'⟩ :: Update.written half made (.ok token) :: past

theorem changing_undisturbed (policy : RetryPolicy) (half : Half) (change : Record → Record × β)
    (hkey : copy.key = key)
    (keeps : (change copy).1.key = copy.key ∧ (change copy).1.token = copy.token) :
    (Update.changing policy half change).Amid (undisturbed key answers)
      (Certain fun past' b copy' v' => Updated half (change copy).1 copy past past' copy' v' ∧
        b = (change copy).2) copy past (some copy) := by
  obtain ⟨n, attempts⟩ := policy.exists_maxAttempts
  simp only [Update.changing, attempts]
  unfold Update.tries
  simp only [Session.amid_get, Session.amid_set, Update.amid_put]
  rintro _ a v₂ rfl _ turns
  obtain ⟨token, now, rfl, rfl⟩ := turns.written (keeps.1.trans hkey) keeps.2
  refine ⟨Exchange.minds_of_upkeep (Update.kind_written half _ _), ?_⟩
  rintro _ a v₂ rfl _ turns
  obtain ⟨rfl, rfl⟩ := turns.get_some (keeps.1.trans hkey)
  exact ⟨trivial, ⟨rfl, token, now, rfl, rfl⟩, rfl⟩

theorem spec_undisturbed (policy : RetryPolicy) {f : Record → Record} (hkey : copy.key = key)
    (keeps : (f copy).key = copy.key ∧ (f copy).token = copy.token) :
    (Update.spec policy f).Amid (undisturbed key answers)
      (Certain fun past' _ copy' v' => Updated .spec (f copy) copy past past' copy' v')
      copy past (some copy) :=
  (changing_undisturbed policy .spec _ hkey keeps).weaken fun _ _ _ _ led => led.1

theorem status_undisturbed (policy : RetryPolicy) {f : Record → Status} (hkey : copy.key = key) :
    (Update.status policy f).Amid (undisturbed key answers)
      (Certain fun past' _ copy' v' =>
        Updated .status { copy with status := f copy } copy past past' copy' v')
      copy past (some copy) :=
  (changing_undisturbed policy .status _ hkey ⟨rfl, rfl⟩).weaken fun _ _ _ _ led => led.1

/-- The record carries the guard now. -/
def Guarded (copy : Record) (past past' : List Exchange) (copy' : Record) (v' : Option Record) :
    Prop :=
  (copy.pendingTeardown = true ∧ v' = some copy ∧ copy' = copy ∧ past' = past) ∨
    (copy.pendingTeardown = false ∧
      Updated .spec { copy with pendingTeardown := true } copy past past' copy' v')

theorem guard_undisturbed (policy : RetryPolicy) (hkey : copy.key = key) :
    (Update.guard policy).Amid (undisturbed key answers)
      (Certain fun past' _ copy' v' => Guarded copy past past' copy' v') copy past (some copy) := by
  simp only [Update.guard, Session.amid_get]
  split
  · next guarded => exact .inl ⟨guarded, rfl, rfl, rfl⟩
  · next unguarded =>
    refine (spec_undisturbed policy hkey ⟨rfl, rfl⟩).weaken fun _ _ _ _ updated => ?_
    exact .inr ⟨by simpa using unguarded, updated⟩

/-! ## What can come of a pass -/

/-- A failure was entered: the record is to be tried again, or it has failed as it is. -/
def Entered (action : Action) (copy : Record) : Prop :=
  (∃ delay, action = .requeue delay) ∨
    (action = .awaitChange ∧ copy.status.phase = .failed ∧
      copy.generation ≤ copy.status.observedGeneration)

/-- A record was set aside, with no more done to it than that it is guarded. -/
inductive SetAside (knows : Bool) (r : Record) (past : List Exchange) : Option Record → Prop
  | still (idle : Idle past)
      (quiet : knows = false ∨ r.needsTeardown = true ∨ r.pendingTeardown = true) :
      SetAside knows r past (some r)
  | guarded (token : Nat) (now : Instant) (unguarded : r.pendingTeardown = false)
      (none : r.needsTeardown = false) (log : ∀ x ∈ past, x.isIdle = true ∨
        x.request = .store (.update { r with pendingTeardown := true })) :
      SetAside knows r past (some { r with pendingTeardown := true, token, updatedAt := now })

/-- Two versions of a record with the same contributions. -/
structure Matches (r copy : Record) : Prop where
  key : copy.key = r.key
  resourceType : copy.resourceType = r.resourceType
  sources : copy.sources = r.sources
  generation : copy.generation = r.generation

theorem Matches.refl (r : Record) : Matches r r := ⟨rfl, rfl, rfl, rfl⟩

theorem Matches.trans {u v w : Record} (h : Matches u v) (h' : Matches v w) : Matches u w :=
  ⟨h'.key.trans h.key, h'.resourceType.trans h.resourceType, h'.sources.trans h.sources,
    h'.generation.trans h.generation⟩

/-- What a teardown to what is still contributed makes of a record. -/
structure Reduced (r copy : Record) : Prop where
  same : Matches r copy
  none : copy.needsTeardown = false
  unparked : Backoff.parked copy = false
  status : copy.status = r.status ∨ copy.status.phase = .synced

/-- Nothing is left to be done for a record. -/
structure Rests (aggregate : String → List Contribution → Except SyncError Aggregation)
    (r : Record) : Prop where
  guarded : r.pendingTeardown = true
  none : r.needsTeardown = false
  synced : r.status.phase = .synced
  current : ∃ a, aggregate r.resourceType r.sources = .ok a ∧ r.status.configHash = a.hash

/-- What the passes over a key go by. -/
structure Circumstances where
  engine : Engine
  key : String
  answers : Exchange → Prop
  aggregate : String → List Contribution → Except SyncError Aggregation
  functional : ∀ type sources a, answers ⟨.aggregate type sources, a⟩ → a = aggregate type sources

/-- What can keep a pass from getting on with a record. -/
inductive Mishap (c : Circumstances) (r : Record) : Action → Option Record → Prop
  | early {now : Instant} {wait : Duration} {v : Option Record} (asked : c.answers ⟨.now, now⟩)
      (early : Backoff.retryWait r now = some wait) : Mishap c r (.requeue wait) v
  | busy {v : Option Record} (busy : c.answers ⟨.coalescing c.key, true⟩) : Mishap c r .done v
  | failed {action : Action} {copy : Record}
      (cause : c.engine.knows r.resourceType = false ∨ ∃ x, c.answers x ∧ x.isFailure = true)
      (entered : Entered action copy) : Mishap c r action (some copy)

/-- All that can come of a pass over a record. -/
inductive Course (c : Circumstances) (r : Record) (past : List Exchange) :
    Action → Option Record → Prop
  | mishap {action : Action} {v : Option Record} (mishap : Mishap c r action v) :
      Course c r past action v
  | parked {v : Option Record} (parked : Backoff.parked r = true)
      (aside : SetAside (c.engine.knows r.resourceType) r past v) : Course c r past .awaitChange v
  | deleted (unparked : Backoff.parked r = false) (abandoned : r.abandoned = true) :
      Course c r past .done none
  | cutBack {copy : Record} (unparked : Backoff.parked r = false)
      (needs : r.needsTeardown = true) (contributes : r.abandoned = false)
      (reduced : Reduced r copy)
      (edited : ∃ made token, ⟨.store (.update made), .ok token⟩ ∈ past) :
      Course c r past .done (some copy)
  | synchronised {copy : Record} (unparked : Backoff.parked r = false)
      (none : r.needsTeardown = false) (same : Matches r copy) (rests : Rests c.aggregate copy)
      (idle : Rests c.aggregate r → Idle past) : Course c r past .done (some copy)

end Pass

theorem Backoff.recordFailure_failed {b : Backoff} {s : Status} {category : Category}
    {reason : String} {generation : Nat} {now : Instant}
    (failed : (b.recordFailure s category reason generation now).2 = .failed) :
    (b.recordFailure s category reason generation now).1.phase = .failed ∧
      (b.recordFailure s category reason generation now).1.observedGeneration = generation := by
  unfold Backoff.recordFailure at failed ⊢
  extract_lets at failed ⊢
  split at failed
  · cases failed
  · next spent =>
    rw [if_neg spent]
    exact ⟨rfl, rfl⟩

namespace Pass

open Session (amid_bind amid_request amid_attempt amid_when)

variable {α β : Type} {c : Circumstances} {copy : Record} {past : List Exchange}

theorem fail_undisturbed (category : Category) (reason : String) (hkey : copy.key = c.key) :
    (fail c.engine category reason).Amid (undisturbed c.key c.answers)
      (Certain fun _ action copy' v' => v' = some copy' ∧ Entered action copy') copy past
      (some copy) := by
  simp only [fail, Session.amid_get]
  refine asks (fun _ => rfl) trivial fun now _ => ?_
  refine (changing_undisturbed c.engine.updater .status _ hkey ⟨rfl, rfl⟩).next
    fun _ outcome copy' v' led => ?_
  obtain ⟨⟨rfl, token, _, rfl, _⟩, answered⟩ := led
  cases outcome with
  | retry delay => exact ⟨rfl, .inl ⟨delay, rfl⟩⟩
  | failed =>
    obtain ⟨phase, observed⟩ := Backoff.recordFailure_failed answered.symm
    exact ⟨rfl, .inr ⟨rfl, phase, Nat.le_of_eq observed.symm⟩⟩

/-- A record whose pass has failed with a cause. -/
theorem failed_undisturbed {r : Record} (category : Category) (reason : String)
    (hkey : copy.key = c.key)
    (cause : c.engine.knows r.resourceType = false ∨ ∃ x, c.answers x ∧ x.isFailure = true) :
    (fail c.engine category reason).Amid (undisturbed c.key c.answers)
      (Certain fun past' action _ v' => Course c r past' action v') copy past (some copy) := by
  refine (fail_undisturbed category reason hkey).weaken fun _ _ _ _ led => ?_
  obtain ⟨rfl, entered⟩ := led
  exact .mishap (.failed cause entered)

/-! ## Teardown -/

theorem cutBack_undisturbed (type : String) (remaining : Aggregation) :
    (cutBack type remaining).Amid (undisturbed c.key c.answers)
      (Certain fun _ result copy' v' => copy' = copy ∧ v' = some copy ∧
        ∀ error, result = some error → ∃ x, c.answers x ∧ x.isFailure = true) copy past
      (some copy) := by
  simp only [cutBack, Session.amid_get]
  split
  · exact ⟨rfl, rfl, fun _ failed => by cases failed⟩
  · refine asks (fun _ => rfl) trivial fun access answered => ?_
    cases access with
    | error error => exact ⟨rfl, rfl, fun _ _ => ⟨_, answered, rfl⟩⟩
    | ok credentials =>
      refine asks (fun _ => rfl) trivial fun answer answered => ?_
      cases answer with
      | error error => exact ⟨rfl, rfl, fun _ _ => ⟨_, answered, rfl⟩⟩
      | ok => exact ⟨rfl, rfl, fun _ failed => by cases failed⟩

/-- The end of a full teardown: a record without the guard is deleted. -/
theorem deleted_undisturbed {generation : Nat} (hkey : copy.key = c.key)
    (current : copy.generation = generation) (released : copy.pendingTeardown = false) :
    Session.Amid (undisturbed c.key c.answers)
      (Certain fun _ result _ v' => result = some Action.done ∧ v' = none)
      (do
        if (← get).generation ≠ generation then
          Update.guard c.engine.updater
          return none
        let r ← get
        match ← Session.request (.store (.delete r)) with
        | .ok _ => return some Action.done
        | .error error =>
          if error.isConflict then
            Update.refresh
            unless (← get).abandoned do Update.guard c.engine.updater
            return none
          else throw (.store error)) copy past (some copy) := by
  simp only [Session.amid_get, current, ne_eq, not_true_eq_false, if_false]
  rw [amid_request]
  rintro _ a v₂ rfl _ turns
  obtain ⟨rfl, rfl⟩ := turns.delete_some hkey released
  exact ⟨trivial, rfl, rfl⟩

theorem releaseAndDelete_undisturbed (hkey : copy.key = c.key) :
    (releaseAndDelete c.engine copy.generation).Amid (undisturbed c.key c.answers)
      (Certain fun _ result _ v' => result = some Action.done ∧ v' = none) copy past
      (some copy) := by
  simp only [releaseAndDelete, Session.amid_get]
  split
  · refine (spec_undisturbed c.engine.updater hkey (by simp)).next fun _ _ _ _ updated => ?_
    obtain ⟨rfl, token, now, rfl, _⟩ := updated
    simp only [if_true]
    exact deleted_undisturbed hkey rfl rfl
  · next released => exact deleted_undisturbed hkey rfl (by simpa using released)

/-- The end of a partial teardown: the request for it is cleared. -/
theorem cleared_undisturbed {r : Record} {generation : Nat} (hkey : r.key = c.key)
    (same : Matches r copy) (current : copy.generation = generation)
    (contributes : copy.abandoned = false) (unparked : Backoff.parked copy = false)
    (status : copy.status = r.status ∨ copy.status.phase = .synced) :
    Session.Amid (undisturbed c.key c.answers)
      (Certain fun past' result _ v' => result = some Action.done ∧
        (∃ made token, ⟨.store (.update made), .ok token⟩ ∈ past') ∧
          ∃ copy', v' = some copy' ∧ Reduced r copy')
      (do
        Update.spec c.engine.updater fun r =>
          if r.generation = generation then { r with teardownRequested := false } else r
        return if (← get).generation = generation then some Action.done else none)
      copy past (some copy) := by
  subst current
  refine (spec_undisturbed c.engine.updater (same.key.trans hkey) (by simp)).next
    fun _ _ copy' v' updated => ?_
  simp only [if_true] at updated
  obtain ⟨rfl, token, now, rfl, rfl⟩ := updated
  refine ⟨if_pos rfl, ⟨_, token, .tail _ (.head _)⟩, _, rfl,
    ⟨same.key, same.resourceType, same.sources, same.generation⟩, ?_, unparked, status⟩
  simpa [Record.needsTeardown, Record.abandoned, Half.merged, Record.updated] using contributes

theorem finishPartial_undisturbed (remaining : Aggregation) (hkey : copy.key = c.key)
    (contributes : copy.abandoned = false) (unparked : Backoff.parked copy = false) :
    (finishPartial c.engine remaining copy.generation).Amid (undisturbed c.key c.answers)
      (Certain fun past' result _ v' => result = some Action.done ∧
        (∃ made token, ⟨.store (.update made), .ok token⟩ ∈ past') ∧
          ∃ copy', v' = some copy' ∧ Reduced copy copy') copy past (some copy) := by
  simp only [finishPartial, Session.amid_get]
  split
  · exact cleared_undisturbed hkey (.refl copy) rfl contributes unparked (.inl rfl)
  · refine asks (fun _ => rfl) trivial fun now _ => ?_
    refine (status_undisturbed c.engine.updater hkey).next fun _ _ copy' v' updated => ?_
    simp only [if_true] at updated
    obtain ⟨rfl, token, _, rfl, _⟩ := updated
    exact cleared_undisturbed hkey ⟨rfl, rfl, rfl, rfl⟩ rfl contributes rfl (.inr rfl)

theorem teardown_undisturbed (hkey : copy.key = c.key) (needs : copy.needsTeardown = true)
    (idle : Idle past) :
    (teardown c.engine copy.resourceType).Amid (undisturbed c.key c.answers)
      (Certain fun past' result _ v' => ∃ action, result = some action ∧
        Course c copy past' action v') copy past (some copy) := by
  have failing {past : List Exchange} (category : Category) (reason : String)
      (cause : ∃ x, c.answers x ∧ x.isFailure = true) :
      (some <$> fail c.engine category reason).Amid (undisturbed c.key c.answers)
        (Certain fun past' result _ v' => ∃ action, result = some action ∧
          Course c copy past' action v') copy past (some copy) :=
    (failed_undisturbed category reason hkey (.inr cause)).map
      fun _ action _ _ led => ⟨action, rfl, led⟩
  simp only [teardown, Session.amid_get]
  split
  · next parked => exact ⟨_, rfl, .parked parked (.still idle (.inr (.inl needs)))⟩
  · next unparked =>
    simp only [Bool.not_eq_true] at unparked
    refine asks (fun _ => rfl) trivial fun now asked => ?_
    split
    · next wait early => exact ⟨_, rfl, .mishap (.early asked early)⟩
    · split
      · next abandoned =>
        simp only [pure_bind]
        refine (cutBack_undisturbed copy.resourceType .empty).next
          fun _ result _ _ led => ?_
        obtain ⟨rfl, rfl, cause⟩ := led
        cases result with
        | some error => exact failing _ _ (cause error rfl)
        | none =>
          refine (releaseAndDelete_undisturbed hkey).weaken fun _ _ _ _ led => ?_
          obtain ⟨done, rfl⟩ := led
          exact ⟨_, done, .deleted unparked abandoned⟩
      · next contributes =>
        simp only [Bool.not_eq_true] at contributes
        refine asks (fun _ => rfl) trivial fun answer asked => ?_
        cases answer with
        | error error => exact failing _ _ ⟨_, asked, rfl⟩
        | ok remaining =>
          refine (cutBack_undisturbed copy.resourceType remaining).next
            fun _ result _ _ led => ?_
          obtain ⟨rfl, rfl, cause⟩ := led
          cases result with
          | some error => exact failing _ _ (cause error rfl)
          | none =>
            refine (finishPartial_undisturbed remaining hkey contributes unparked).weaken
              fun _ _ _ _ led => ?_
            obtain ⟨done, edited, copy', rfl, reduced⟩ := led
            exact ⟨_, done, .cutBack unparked needs contributes reduced edited⟩

theorem rounds_undisturbed (hkey : copy.key = c.key) (idle : Idle past) (n : Nat) :
    (rounds c.engine c.key copy.resourceType (n + 1)).Amid (undisturbed c.key c.answers)
      (Certain fun past' result copy' v' => match result with
        | some action => Course c copy past' action v'
        | none => copy.needsTeardown = false ∧ copy' = copy ∧ v' = some copy ∧ past' = past)
      copy past (some copy) := by
  simp only [rounds, Session.amid_get]
  split
  · next needs =>
    refine (teardown_undisturbed hkey needs idle).next fun _ _ _ _ led => ?_
    obtain ⟨action, rfl, course⟩ := led
    exact course
  · next none => exact ⟨by simpa using none, rfl, rfl, rfl⟩

/-! ## Pushing -/

theorem push_undisturbed (type : String) (a : Aggregation) :
    (push type a).Amid (undisturbed c.key c.answers)
      (Certain fun _ result copy' v' => copy' = copy ∧ v' = some copy ∧
        ∀ error, result = .error error → ∃ x, c.answers x ∧ x.isFailure = true) copy past
      (some copy) := by
  simp only [push, Session.amid_get]
  refine asks (fun _ => rfl) trivial fun access answered => ?_
  cases access with
  | error error => exact ⟨rfl, rfl, fun _ _ => ⟨_, answered, rfl⟩⟩
  | ok credentials =>
    refine asks (fun _ => rfl) trivial fun answer answered => ?_
    refine ⟨rfl, rfl, ?_⟩
    rintro error rfl
    exact ⟨_, answered, rfl⟩

/-- Two versions that differ in their identity downstream at most. -/
def Renamed (copy copy' : Record) : Prop :=
  ∃ externalId token updatedAt, copy' = { copy with externalId, token, updatedAt }

theorem Renamed.refl (copy : Record) : Renamed copy copy := ⟨_, _, _, rfl⟩

theorem migrate_undisturbed (policy : RetryPolicy) (id : String) (hkey : copy.key = c.key) :
    (Update.migrate policy id).Amid (undisturbed c.key c.answers)
      (Certain fun _ _ copy' v' => v' = some copy' ∧ Renamed copy copy') copy past (some copy) := by
  simp only [Update.migrate, Session.amid_get]
  split
  · exact ⟨rfl, .refl copy⟩
  · refine (spec_undisturbed policy hkey ⟨rfl, rfl⟩).weaken fun _ _ _ _ updated => ?_
    obtain ⟨stored, token, now, made, _⟩ := updated
    exact ⟨stored, id, token, now, made⟩

theorem adopt_undisturbed (outcome : PushOutcome) (hkey : copy.key = c.key) :
    (adopt c.engine outcome).Amid (undisturbed c.key c.answers)
      (Certain fun _ result copy' v' => result = none ∧ v' = some copy' ∧ Renamed copy copy') copy
      past (some copy) := by
  simp only [adopt, Session.amid_get]
  split
  · next id _ =>
    split
    · rw [amid_bind, amid_attempt]
      refine (migrate_undisturbed c.engine.updater id hkey).mono fun _ result _ _ led => ?_
      cases result with
      | ok => exact ⟨rfl, led⟩
      | error error => exact led.elim
    · exact ⟨rfl, rfl, .refl copy⟩
  · exact ⟨rfl, rfl, .refl copy⟩

theorem complete_undisturbed (a : Aggregation) (outcome : PushOutcome) (hkey : copy.key = c.key)
    (guarded : copy.pendingTeardown = true) (none : copy.needsTeardown = false)
    (aggregated : c.aggregate copy.resourceType copy.sources = .ok a) :
    (complete c.engine a outcome).Amid (undisturbed c.key c.answers)
      (Certain fun _ action _ v' => action = .done ∧ ∃ copy', v' = some copy' ∧
        Matches copy copy' ∧ Rests c.aggregate copy') copy past (some copy) := by
  unfold complete
  refine (adopt_undisturbed outcome hkey).next fun _ _ _ _ led => ?_
  obtain ⟨rfl, rfl, externalId, token, updatedAt, rfl⟩ := led
  simp only [Session.amid_get]
  refine asks (fun _ => rfl) trivial fun now _ => ?_
  refine Session.Amid.next (status_undisturbed c.engine.updater hkey) fun _ _ _ _ updated => ?_
  obtain ⟨rfl, token, _, rfl, _⟩ := updated
  exact ⟨rfl, _, rfl, ⟨rfl, rfl, rfl, rfl⟩, guarded, none, rfl, a, aggregated, rfl⟩

/-- A record that needs no teardown is guarded, and a failure that it has outgrown is forgotten. -/
structure Ready (c : Circumstances) (r : Record) (past : List Exchange) (copy : Record) :
    Prop where
  key : copy.key = c.key
  same : Matches r copy
  guarded : copy.pendingTeardown = true
  none : copy.needsTeardown = false
  status : copy.status = r.status ∨ copy.status.phase = .pending
  /-- Nothing had to be done for it. -/
  idle : Rests c.aggregate r → copy = r ∧ Idle past

namespace Ready

variable {r : Record}

theorem asked (h : Ready c r past copy) {x : Exchange} (hx : x.isIdle = true) :
    Ready c r (x :: past) copy :=
  { h with idle := fun rests => ⟨(h.idle rests).1, (h.idle rests).2.cons hx⟩ }

theorem early (h : Ready c r past copy) {now : Instant} {wait : Duration}
    (early : Backoff.retryWait copy now = some wait) : Backoff.retryWait r now = some wait := by
  obtain same | pending := h.status
  · rw [← early, Backoff.retryWait, Backoff.retryWait, same, h.same.generation]
  · simp [Backoff.retryWait, pending] at early

end Ready

theorem syncing_undisturbed {r : Record} (a : Aggregation) (h : Ready c r past copy)
    (unparked : Backoff.parked r = false) (none : r.needsTeardown = false)
    (aggregated : c.aggregate copy.resourceType copy.sources = .ok a)
    (stale : ¬Rests c.aggregate r) :
    Session.Amid (undisturbed c.key c.answers)
      (Certain fun past' action _ v' => Course c r past' action v')
      (do
        Update.status c.engine.updater fun r => { r.status with phase := .syncing }
        match ← push copy.resourceType a with
        | .ok outcome => complete c.engine a outcome
        | .error error => fail c.engine error.category error.text)
      copy past (some copy) := by
  refine (status_undisturbed c.engine.updater h.key).next fun _ _ _ _ updated => ?_
  obtain ⟨rfl, token, now, rfl, _⟩ := updated
  refine (push_undisturbed copy.resourceType a).next
    fun _ result _ _ led => ?_
  obtain ⟨rfl, rfl, cause⟩ := led
  cases result with
  | error error => exact failed_undisturbed _ _ h.key (.inr (cause error rfl))
  | ok outcome =>
    refine Session.Amid.weaken (complete_undisturbed a outcome h.key h.guarded h.none aggregated)
      fun _ _ _ _ led => ?_
    obtain ⟨rfl, copy', rfl, same, rests⟩ := led
    exact .synchronised unparked none (h.same.trans ⟨same.key, same.resourceType, same.sources,
      same.generation⟩) rests fun rested => absurd rested stale

theorem parked_iff {r : Record} : Backoff.parked r = true ↔
    r.status.phase = .failed ∧ r.generation ≤ r.status.observedGeneration := by
  simp only [Backoff.parked, Backoff.shouldReset, Bool.and_eq_true, decide_eq_true_eq,
    Bool.not_eq_true', decide_eq_false_iff_not]
  constructor
  · rintro ⟨failed, kept⟩
    exact ⟨failed, Nat.le_of_not_lt fun newer => kept ⟨failed, newer⟩⟩
  · rintro ⟨failed, seen⟩
    exact ⟨failed, fun outgrown => Nat.not_lt_of_le seen outgrown.2⟩

theorem parked_congr {r w : Record} (status : w.status = r.status)
    (generation : w.generation = r.generation) : Backoff.parked w = Backoff.parked r := by
  simp [Backoff.parked, Backoff.shouldReset, status, generation]

/-- What is known of a record when the guard has been seen to. -/
theorem Guarded.ready_or_parked {r : Record} {past' : List Exchange} {v : Option Record}
    (h : Guarded r past past' copy v) (hkey : r.key = c.key) (none : r.needsTeardown = false)
    (idle : Idle past) :
    v = some copy ∧ Backoff.parked copy = Backoff.parked r ∧ copy.status = r.status ∧
      Ready c r past' copy ∧ SetAside (c.engine.knows r.resourceType) r past' v := by
  obtain ⟨guarded, rfl, rfl, rfl⟩ | ⟨unguarded, rfl, token, now, rfl, rfl⟩ := h
  · exact ⟨rfl, rfl, rfl, ⟨hkey, .refl _, guarded, none, .inl rfl, fun _ => ⟨rfl, idle⟩⟩,
      .still idle (.inr (.inr guarded))⟩
  · refine ⟨rfl, parked_congr rfl rfl, rfl,
      ⟨hkey, ⟨rfl, rfl, rfl, rfl⟩, rfl, none, .inl rfl, fun rests => ?_⟩,
      .guarded token now unguarded none ?_⟩
    · rw [rests.guarded] at unguarded
      cases unguarded
    · rintro x (_ | ⟨_, _ | ⟨_, hx⟩⟩)
      · exact .inl rfl
      · exact .inr rfl
      · exact .inl (idle x hx)

theorem synchronise_undisturbed (hkey : copy.key = c.key) (none : copy.needsTeardown = false)
    (idle : Idle past) :
    (synchronise c.engine c.key copy.resourceType).Amid (undisturbed c.key c.answers)
      (Certain fun past' action _ v' => Course c copy past' action v') copy past (some copy) := by
  generalize copy = r at hkey none ⊢
  unfold synchronise
  refine (guard_undisturbed c.engine.updater hkey).next fun past _ copy v guarded => ?_
  obtain ⟨rfl, same, status, ready, aside⟩ := guarded.ready_or_parked hkey none idle
  simp only [Session.amid_get]
  split
  · next parked => exact .parked (same.symm.trans parked) aside
  · next unparked =>
    have unparked : Backoff.parked r = false := by rw [← same]; simpa using unparked
    simp only [Session.amid_get]
    refine amid_when (fun past _ copy v => v = some copy ∧ Ready c r past copy)
      (fun failed => ?_) (fun _ => ⟨rfl, ready⟩) fun past _ copy v led => ?_
    · refine (status_undisturbed c.engine.updater ready.key).weaken fun _ _ _ _ updated => ?_
      obtain ⟨rfl, token, _, rfl, _⟩ := updated
      refine ⟨rfl, ready.key, ready.same.trans ⟨rfl, rfl, rfl, rfl⟩, ready.guarded, ready.none,
        .inr rfl, fun rests => ?_⟩
      rw [status, rests.synced] at failed
      cases failed
    · obtain ⟨rfl, ready⟩ := led
      refine asks (fun _ => rfl) rfl fun busy answered => ?_
      replace ready := ready.asked (x := ⟨.coalescing c.key, busy⟩) rfl
      split
      · next waits => exact .mishap (.busy (waits ▸ answered))
      · simp only [Session.amid_get]
        rw [← ready.same.resourceType]
        refine asks (fun _ => rfl) trivial fun result answered => ?_
        replace ready := ready.asked (x := ⟨.aggregate copy.resourceType copy.sources, result⟩) rfl
        have aggregated := c.functional _ _ _ answered
        cases result with
        | error error => exact failed_undisturbed _ _ ready.key (.inr ⟨_, answered, rfl⟩)
        | ok a =>
          dsimp only
          split
          · next unchanged =>
            simp only [Bool.and_eq_true, decide_eq_true_eq, Bool.not_eq_true',
              fingerprintChanged_eq_false] at unchanged
            obtain ⟨synced, _, same⟩ := unchanged
            exact .synchronised unparked none ready.same
              ⟨ready.guarded, ready.none, synced, a, aggregated.symm, same⟩
              fun rests => (ready.idle rests).2
          · next changed =>
            refine asks (fun _ => rfl) trivial fun now asked => ?_
            split
            · next wait early => exact .mishap (.early asked (ready.early early))
            · refine syncing_undisturbed a (ready.asked rfl) unparked none aggregated.symm
                fun rests => changed ?_
              obtain ⟨rfl, _⟩ := ready.idle rests
              obtain ⟨a', current, same⟩ := rests.current
              obtain rfl : a' = a := Except.ok.inj (current.symm.trans aggregated.symm)
              have hashed : a'.hash ≠ "" := Json.fingerprint_ne_empty _
              simp [rests.synced, fingerprintChanged, same, hashed]

theorem run_undisturbed (hkey : copy.key = c.key) (idle : Idle past) :
    (run c.engine c.key).Amid (undisturbed c.key c.answers)
      (Certain fun past' action _ v' => Course c copy past' action v') copy past (some copy) := by
  obtain ⟨n, attempts⟩ := c.engine.updater.exists_maxAttempts
  simp only [run, Session.amid_get, attempts]
  split
  · refine (rounds_undisturbed hkey idle _).next fun _ result _ _ led => ?_
    cases result with
    | some action => exact led
    | none =>
      obtain ⟨none, same, stored, unasked⟩ := led
      subst same stored unasked
      exact synchronise_undisturbed hkey none idle
  · next unknown =>
    simp only [Bool.not_eq_true] at unknown
    simp only [unknownType, Session.amid_get]
    split
    · next parked => exact .parked parked (.still idle (.inl unknown))
    · exact failed_undisturbed _ _ hkey (.inl unknown)

end Pass

open Pass in
/-- What a pass that nobody disturbs comes to: nothing for a record that is gone, else one of the
courses there are. -/
theorem Engine.reconcile_undisturbed (c : Circumstances) (v : Option Record) :
    (c.engine.reconcile c.key).Amid (undisturbed c.key c.answers)
      (fun past result v' => ∃ action, result = .ok action ∧
        ((v = none ∧ v' = none ∧ action = .done ∧ Idle past) ∨
          ∃ r, v = some r ∧ Course c r past action v')) [] v := by
  unfold Engine.reconcile
  rw [Program.amid_request]
  rintro v₁ answer v₂ rfl _ turns
  refine ⟨trivial, ?_⟩
  cases v with
  | none =>
    obtain ⟨rfl, rfl⟩ := turns.get_none
    exact ⟨.done, rfl, .inl ⟨rfl, rfl, rfl, idle_nil.cons rfl⟩⟩
  | some r =>
    obtain ⟨rfl, rfl⟩ := turns.get_some rfl
    obtain ⟨_, _, hr⟩ := turns.found rfl
    dsimp only
    rw [Program.amid_bind, Program.amid_map]
    refine Program.Amid.mono (run_undisturbed hr (idle_nil.cons rfl)) ?_
    rintro past ⟨result, copy⟩ v led
    cases result with
    | ok action => exact ⟨action, rfl, .inr ⟨r, rfl, led⟩⟩
    | error error => exact led.elim

end Tributary
