import Tributary.Pass
import Tributary.Proofs.Company

/-!
# What is never asked

Some parts of a pass are known by what they do not ask: to enter an outcome, nothing but the clock
and the record is needed. `Program.Asks` bounds the requests of a program whatever it is answered,
and `Program.Asks.amid` says what such a program cannot change.
-/

namespace Tributary

namespace Request

/-- The clock and the record, of which nothing but the status is written. -/
def enters : Request → Bool
  | .now | .sleep _ | .store (.get _) | .store (.updateStatus _) => true
  | _ => false

/-- The clock and the record. -/
def maintains : Request → Bool
  | .store (.update _) => true
  | q => q.enters

theorem maintains_of_enters {q : Request} (h : q.enters = true) : q.maintains = true := by
  unfold maintains
  split
  · rfl
  · exact h

end Request

namespace Program

variable {α β : Type} {allowed : Request → Prop}

/-- Whatever the program is answered, it makes only requests that are allowed. -/
def Asks (allowed : Request → Prop) : Program α → Prop
  | .done _ => True
  | .ask q next => allowed q ∧ ∀ a, (next a).Asks allowed

theorem Asks.bind {p : Program α} {f : α → Program β} (h : p.Asks allowed)
    (rest : ∀ a, (f a).Asks allowed) : (p >>= f).Asks allowed := by
  induction p with
  | done a => exact rest a
  | ask q next ih => exact ⟨h.1, fun a => ih a (h.2 a)⟩

theorem Asks.mono {allowed' : Request → Prop} {p : Program α} (h : p.Asks allowed)
    (more : ∀ q, allowed q → allowed' q) : p.Asks allowed' := by
  induction p with
  | done a => trivial
  | ask q next ih => exact ⟨more q h.1, fun a => ih a (h.2 a)⟩

/-- What the allowed requests preserve holds of all that has been done in the end. -/
theorem Asks.amid {s : Company} {good : List Exchange → Prop} {p : Program α}
    {past : List Exchange} {v : Option Record} (h : p.Asks allowed)
    (step : ∀ q a past, allowed q → good past → good (⟨q, a⟩ :: past))
    (keeps : ∀ q a past v, allowed q → s.keeps (⟨q, a⟩ :: past) v) (start : good past) :
    p.Amid s (fun past' _ _ => good past') past v := by
  induction p generalizing past v with
  | done a => exact start
  | ask q next ih =>
    intro v₁ a v₂ _ _ _
    exact ⟨keeps q a past v₂ h.1, ih a (h.2 a) (step q a past h.1 start)⟩

end Program

namespace Session

variable {α β : Type} {allowed : Request → Prop} {session : Session α}

/-- As `Program.Asks`, for a session on any copy. -/
def Asks (allowed : Request → Prop) (session : Session α) : Prop :=
  ∀ copy, (session.start copy).Asks allowed

theorem asks_pure (a : α) : (pure a : Session α).Asks allowed := fun _ => trivial

theorem asks_throw (e : SyncError) : (throw e : Session α).Asks allowed := fun _ => trivial

theorem asks_get : (get : Session Record).Asks allowed := fun _ => trivial

theorem asks_set (r : Record) : (set r : Session Unit).Asks allowed := fun _ => trivial

theorem asks_request {q : Request} (h : allowed q) : (request q).Asks allowed :=
  fun _ => ⟨h, fun _ => trivial⟩

theorem Asks.bind {f : α → Session β} (h : session.Asks allowed)
    (rest : ∀ a, (f a).Asks allowed) : (session >>= f).Asks allowed := by
  intro copy
  refine Program.Asks.bind (h copy) ?_
  rintro ⟨a | e, copy⟩
  · trivial
  · exact rest _ copy

theorem Asks.mono {allowed' : Request → Prop} (h : session.Asks allowed)
    (more : ∀ q, allowed q → allowed' q) : session.Asks allowed' :=
  fun copy => Program.Asks.mono (h copy) more

theorem Asks.map {f : α → β} (h : session.Asks allowed) : (f <$> session).Asks allowed := by
  rw [map_eq_pure_bind]
  exact h.bind fun _ => asks_pure _

theorem Asks.attempt (h : session.Asks allowed) : session.attempt.Asks allowed := by
  intro copy
  refine Program.Asks.bind (h copy) ?_
  rintro ⟨result, copy⟩
  trivial

end Session

/-! ## Updates -/

namespace Update

open Session

variable {β : Type} {allowed : Request → Prop}

theorem asks_refresh (reads : ∀ key, allowed (.store (.get key))) : refresh.Asks allowed := by
  unfold refresh Session.call
  refine asks_get.bind fun r => Asks.bind ?_ fun a => asks_set a
  refine (asks_request (reads _)).bind fun a => ?_
  cases a with
  | ok => exact asks_pure _
  | error e => exact asks_throw _

theorem asks_changing (policy : RetryPolicy) (half : Half) (change : Record → Record × β)
    (reads : ∀ key, allowed (.store (.get key))) (sleeps : ∀ time, allowed (.sleep time))
    (writes : ∀ r, allowed (.store (writing half r))) :
    (changing policy half change).Asks allowed := by
  have puts (copy : Record) : (liftM (put half copy) : Session _).Asks allowed := by
    cases half with
    | spec => exact asks_request (writes copy)
    | status => exact asks_request (writes copy)
  unfold changing
  generalize policy.maxAttempts = n
  induction n with
  | zero => exact asks_get.bind fun r => asks_throw _
  | succ n ih =>
    unfold tries
    refine asks_get.bind fun r => (asks_set _).bind fun _ => (puts _).bind fun a => ?_
    cases a with
    | ok => exact (asks_refresh reads).bind fun _ => asks_pure _
    | error e =>
      dsimp only
      split
      · exact (asks_request (sleeps _)).bind fun _ => (asks_refresh reads).bind fun _ => ih
      · exact asks_throw _

theorem asks_status (policy : RetryPolicy) (mark : Record → Status) :
    (status policy mark).Asks (·.enters = true) :=
  asks_changing policy .status _ (fun _ => rfl) (fun _ => rfl) fun _ => rfl

theorem asks_migrate (policy : RetryPolicy) (id : String) :
    (migrate policy id).Asks (·.maintains = true) := by
  unfold migrate
  refine asks_get.bind fun r => ?_
  split
  · exact asks_pure _
  · exact asks_changing policy .spec _ (fun _ => rfl) (fun _ => rfl) fun _ => rfl

end Update

/-! ## Outcomes -/

namespace Pass

open Session

variable (e : Engine)

theorem fail_asks (category : Category) (reason : String) :
    (fail e category reason).Asks (·.enters = true) := by
  unfold fail
  refine asks_get.bind fun r => ?_
  dsimp only
  refine Asks.bind (asks_request rfl) fun now => Asks.bind ?_ fun outcome => ?_
  · exact Update.asks_changing e.updater .status _ (fun _ => rfl) (fun _ => rfl) fun _ => rfl
  · cases outcome with
    | retry => exact asks_pure _
    | failed => exact asks_pure _

/-- What follows when an identity has been seen to. -/
theorem concluded_asks (a : Aggregation) (outcome : PushOutcome) :
    Session.Asks (·.enters = true) (do
      let generation := (← get).generation
      let now ← Session.request .now
      Update.status e.updater fun r =>
        { synced r.status a generation e.backoff.maxRetries now with
          resultData := outcome.summary }
      return Action.done) := by
  refine asks_get.bind fun r => ?_
  dsimp only
  exact Asks.bind (asks_request rfl) fun now =>
    (Update.asks_status e.updater _).bind fun _ => asks_pure _

theorem adopt_asks (outcome : PushOutcome) : (adopt e outcome).Asks (·.maintains = true) := by
  unfold adopt
  refine asks_get.bind fun r => ?_
  dsimp only
  split
  · next id _ =>
    split
    · refine (Update.asks_migrate e.updater id).attempt.bind fun result => ?_
      cases result with
      | ok => exact asks_pure _
      | error error =>
        dsimp only
        split
        · exact asks_throw _
        · exact ((fail_asks e _ _).mono fun _ => Request.maintains_of_enters).map
    · exact asks_pure _
  · exact asks_pure _

theorem complete_asks (a : Aggregation) (outcome : PushOutcome) :
    (complete e a outcome).Asks (·.maintains = true) := by
  unfold complete
  refine (adopt_asks e outcome).bind fun action => ?_
  cases action with
  | some action => exact asks_pure _
  | none => exact (concluded_asks e a outcome).mono fun _ => Request.maintains_of_enters

end Pass

end Tributary
