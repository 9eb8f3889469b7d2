import Tributary.Pass
import Tributary.Proofs.Courses

/-!
# What a pass costs

A pass repeats its teardown as long as the record changes, and each of its writes as long as there
are conflicts. A tariff says what each request costs. Whatever a pass is answered, it costs at most
`Tariff.pass` (`Engine.reconcile_within`), a sum that only the allowed attempts determine.
-/

namespace Tributary

/-- What a request costs. -/
structure Tariff where
  /-- A call of the store that is no deletion. -/
  store : Nat := 0
  delete : Nat := 0
  sleep : Nat := 0
  now : Nat := 0
  coalescing : Nat := 0
  aggregate : Nat := 0
  credentials : Nat := 0
  push : Nat := 0
  teardown : Nat := 0

/-- Whether a request calls the store. -/
def Request.isStore : Request → Bool
  | .store _ => true
  | _ => false

namespace Tariff

def price (t : Tariff) : Request → Nat
  | .store (.delete _) => t.delete
  | .store _ => t.store
  | .sleep _ => t.sleep
  | .now => t.now
  | .coalescing _ => t.coalescing
  | .aggregate .. => t.aggregate
  | .credentials _ => t.credentials
  | .push .. => t.push
  | .teardown .. => t.teardown

/-- What some exchanges have cost. -/
def spent (t : Tariff) : List Exchange → Nat
  | [] => 0
  | x :: past => t.price x.request + t.spent past

/-- What a write costs that may be tried so many times. -/
def update (t : Tariff) (attempts : Nat) : Nat := attempts * (2 * t.store + t.sleep)

/-- What a round of teardown costs. -/
def round (t : Tariff) (attempts : Nat) : Nat :=
  2 * t.now + t.aggregate + t.credentials + t.teardown + 2 * t.update attempts + t.store + t.delete

/-- What an attempt to synchronise costs. -/
def synchronisation (t : Tariff) (attempts : Nat) : Nat :=
  3 * t.now + t.coalescing + t.aggregate + t.credentials + t.push + 6 * t.update attempts

def pass (t : Tariff) (attempts : Nat) : Nat :=
  t.store + attempts * t.round attempts + t.synchronisation attempts

variable {t : Tariff}

theorem update_succ (n : Nat) : t.update (n + 1) = t.update n + (2 * t.store + t.sleep) :=
  Nat.succ_mul n _

theorem spent_eq_countP {counts : Exchange → Bool}
    (h : ∀ x : Exchange, t.price x.request = if counts x then 1 else 0) (past : List Exchange) :
    t.spent past = past.countP counts := by
  induction past with
  | nil => rfl
  | cons x past ih =>
    rw [List.countP_cons, ← ih, ← h]
    exact Nat.add_comm ..

end Tariff

namespace Program

variable {α β : Type} {t : Tariff} {m n : Nat} {p : Program α}

/-- Whatever a program is answered, it costs at most so much. -/
def Within (t : Tariff) : Program α → Nat → Prop
  | .done _, _ => True
  | .ask q next, limit => t.price q ≤ limit ∧ ∀ a, (next a).Within t (limit - t.price q)

theorem within_done {a : α} : (Program.done a).Within t n := trivial

theorem Within.mono (h : p.Within t m) (le : m ≤ n) : p.Within t n := by
  induction p generalizing m n with
  | done => trivial
  | ask q next ih =>
    exact ⟨Nat.le_trans h.1 le, fun a => ih a (h.2 a) (Nat.sub_le_sub_right le _)⟩

theorem Within.bind {f : α → Program β} (h : p.Within t m) (h' : ∀ a, (f a).Within t n) :
    (p >>= f).Within t (m + n) := by
  induction p generalizing m with
  | done a => exact (h' a).mono (Nat.le_add_left n m)
  | ask q next ih =>
    refine ⟨Nat.le_add_right_of_le h.1, fun a => ?_⟩
    rw [Nat.sub_add_comm h.1]
    exact ih a (h.2 a)

/-- What has been spent and what is left to spend are within the limit. -/
theorem Within.left {past : List Exchange} {rest : Program α} (l : p.Leaves past rest)
    (h : p.Within t n) : t.spent past ≤ n ∧ rest.Within t (n - t.spent past) := by
  induction l with
  | start => exact ⟨Nat.zero_le n, h⟩
  | @step past q next l a ih =>
    obtain ⟨spent, price, rest⟩ := ih
    have sum : t.spent (⟨q, a⟩ :: past) = t.price q + t.spent past := rfl
    rw [sum, Nat.add_comm, ← Nat.sub_sub]
    exact ⟨by omega, rest a⟩

/-- A program that costs nothing asks for nothing that costs. -/
theorem Within.free {past : List Exchange} {rest : Program α} (l : p.Leaves past rest)
    (h : p.Within t 0) {x : Exchange} (mem : x ∈ past) : t.price x.request = 0 := by
  induction l with
  | start => cases mem
  | step l _ ih =>
    cases mem with
    | head => simpa using (h.left l).2.1
    | tail _ mem => exact ih mem

end Program

namespace Session

variable {α β : Type} {t : Tariff} {m n : Nat} {s : Session α}

/-- As `Program.Within`, for a session on any copy. -/
def Within (t : Tariff) (s : Session α) (limit : Nat) : Prop :=
  ∀ copy, (s.start copy).Within t limit

theorem within_pure (a : α) : (pure a : Session α).Within t n := fun _ => trivial

theorem within_throw (e : SyncError) : (throw e : Session α).Within t n := fun _ => trivial

theorem Within.mono (h : s.Within t m) (le : m ≤ n) : s.Within t n := fun copy => (h copy).mono le

theorem Within.bind {f : α → Session β} (h : s.Within t m) (h' : ∀ a, (f a).Within t n) :
    (s >>= f).Within t (m + n) := by
  intro copy
  rw [start_bind]
  refine (h copy).bind fun result => ?_
  obtain ⟨a | e, copy⟩ := result
  · trivial
  · exact h' _ copy

theorem Within.map (h : s.Within t n) (g : α → β) : (g <$> s).Within t n := by
  rw [map_eq_pure_bind]
  exact h.bind (n := 0) fun a => within_pure (g a)

theorem Within.attempt (h : s.Within t n) : s.attempt.Within t n :=
  fun copy => (h copy).bind (n := 0) fun _ => trivial

theorem within_get {f : Record → Session β} (h : ∀ r, (f r).Within t n) :
    ((get : Session Record) >>= f).Within t n := fun copy => h copy copy

theorem within_set {r : Record} {f : Unit → Session β} (h : (f ()).Within t n) :
    ((set r : Session Unit) >>= f).Within t n := fun _ => h r

section

variable {c : Prop} [Decidable c] {s : Session Unit} {f : Unit → Session β}

/-- A session that begins with a part under a condition. -/
theorem within_when (step : s.Within t m) (rest : ∀ a, (f a).Within t n) :
    (if c then s >>= f else f ()).Within t (m + n) := by
  split
  · exact step.bind rest
  · exact (rest ()).mono (Nat.le_add_left n m)

theorem within_unless (step : s.Within t m) (rest : ∀ a, (f a).Within t n) :
    (if c then f () else s >>= f).Within t (m + n) := by
  split
  · exact (rest ()).mono (Nat.le_add_left n m)
  · exact step.bind rest

end

/-- A request and what follows it. -/
theorem within_request {q : Request} {f : q.Answer → Session β} (le : t.price q + m ≤ n)
    (h : ∀ a, (f a).Within t m) : (request q >>= f).Within t n :=
  fun copy => ⟨by omega, fun a => (h a copy).mono (by omega)⟩

end Session

namespace Update

open Session

variable {β : Type} {t : Tariff} {n : Nat} (policy : RetryPolicy)

theorem refresh_within : refresh.Within t t.store :=
  within_get fun r => within_request (m := 0) (Nat.le_refl _) fun a => by
    cases a with
    | ok r => exact fun _ => trivial
    | error e => exact within_throw (.store e)

theorem put_within (half : Half) (copy : Record) :
    (liftM (put half copy) : Session _).Within t t.store := by
  cases half <;> exact fun _ => ⟨Nat.le_refl _, fun _ => trivial⟩

theorem tries_within (half : Half) (change : Record → Record × β) (n : Nat) :
    (tries policy half change n).Within t (t.update n) := by
  induction n with
  | zero => exact within_get fun r => within_throw _
  | succ n ih =>
    refine within_get fun r => ?_
    refine within_set ?_
    refine ((put_within half _).bind (n := t.sleep + (t.store + t.update n)) fun a => ?_).mono ?_
    · cases a with
      | ok token => exact (refresh_within.bind (n := 0) fun _ => within_pure _).mono (by omega)
      | error e =>
        dsimp only
        split
        · exact within_request (Nat.le_refl _) fun _ => refresh_within.bind fun _ => ih
        · exact within_throw _
    · rw [Tariff.update_succ]
      omega

theorem changing_within (half : Half) (change : Record → Record × β) :
    (changing policy half change).Within t (t.update policy.maxAttempts) :=
  tries_within policy half change policy.maxAttempts

theorem spec_within (change : Record → Record) :
    (spec policy change).Within t (t.update policy.maxAttempts) := changing_within policy _ _

theorem status_within (change : Record → Status) :
    (status policy change).Within t (t.update policy.maxAttempts) := changing_within policy _ _

theorem guard_within : (guard policy).Within t (t.update policy.maxAttempts) := by
  refine within_get fun r => ?_
  split
  · exact within_pure ()
  · exact spec_within policy _

theorem migrate_within (id : String) :
    (migrate policy id).Within t (t.update policy.maxAttempts) := by
  refine within_get fun r => ?_
  split
  · exact within_pure ()
  · exact spec_within policy _

end Update

namespace Pass

open Session Update

variable {t : Tariff} (e : Engine)

theorem fail_within (category : Category) (reason : String) :
    (fail e category reason).Within t (t.now + t.update e.updater.maxAttempts) := by
  refine within_get fun r => within_request (Nat.le_refl _) fun now => ?_
  refine (changing_within e.updater _ _).bind (n := 0) fun outcome => ?_
  cases outcome <;> exact within_pure _

theorem cutBack_within (type : String) (remaining : Aggregation) :
    (cutBack type remaining).Within t (t.credentials + t.teardown) := by
  refine within_get fun r => ?_
  split
  · exact within_pure none
  · refine within_request (Nat.le_refl _) fun credentials => ?_
    cases credentials with
    | error error => exact within_pure _
    | ok credentials =>
      refine within_request (m := 0) (Nat.le_refl _) fun answer => ?_
      cases answer <;> exact within_pure _

theorem releaseAndDelete_within (generation : Nat) :
    (releaseAndDelete e generation).Within t
      (2 * t.update e.updater.maxAttempts + t.store + t.delete) := by
  have guarded : (do Update.guard e.updater; return none : Session (Option Action)).Within t
      (t.update e.updater.maxAttempts) :=
    (guard_within e.updater).bind (n := 0) fun _ => within_pure _
  rw [Nat.two_mul, Nat.add_assoc, Nat.add_assoc]
  refine within_get fun r => within_when (spec_within e.updater _) fun _ => ?_
  refine within_get fun r => ?_
  split
  · exact guarded.mono (by omega)
  · refine within_get fun r => ?_
    refine within_request (m := t.update e.updater.maxAttempts + t.store)
      (by dsimp only [Tariff.price]; omega) fun answer => ?_
    cases answer with
    | ok token => exact within_pure _
    | error error =>
      dsimp only
      split
      · rw [Nat.add_comm]
        refine refresh_within.bind fun _ => within_get fun r => ?_
        exact within_unless (n := 0) (guard_within e.updater) fun _ => within_pure _
      · exact within_throw _

theorem finishPartial_within (remaining : Aggregation) (generation : Nat) :
    (finishPartial e remaining generation).Within t
      (t.now + 2 * t.update e.updater.maxAttempts) := by
  have cleared : Session.Within t (do
      Update.spec e.updater fun r =>
        if r.generation = generation then { r with teardownRequested := false } else r
      return if (← get).generation = generation then some Action.done else none)
      (t.update e.updater.maxAttempts) :=
    (spec_within e.updater _).bind (n := 0) fun _ => within_get fun r => within_pure _
  refine within_get fun r => ?_
  split
  · exact cleared.mono (by omega)
  · refine within_request (m := 2 * t.update e.updater.maxAttempts) (Nat.le_refl _) fun now => ?_
    rw [Nat.two_mul]
    exact (status_within e.updater _).bind fun _ => cleared

/-- A round goes on with its end unless the downstream fails. -/
theorem cutDown_within (type : String) (remaining : Aggregation) {finish : Session (Option Action)}
    (h : finish.Within t (t.now + 2 * t.update e.updater.maxAttempts + t.store + t.delete)) :
    Session.Within t
      (do
        match ← cutBack type remaining with
        | some error => some <$> fail e error.category ("teardown failed: " ++ error.text)
        | none => finish)
      (t.now + t.credentials + t.teardown + 2 * t.update e.updater.maxAttempts + t.store +
        t.delete) := by
  refine ((cutBack_within type remaining).bind fun failure => ?_).mono (m := t.credentials +
    t.teardown + (t.now + 2 * t.update e.updater.maxAttempts + t.store + t.delete)) (by omega)
  cases failure with
  | some error => exact ((fail_within e _ _).map some).mono (by omega)
  | none => exact h

theorem teardown_within (type : String) :
    (teardown e type).Within t (t.round e.updater.maxAttempts) := by
  unfold Tariff.round
  refine within_get fun r => ?_
  split
  · exact within_pure _
  refine within_request (m := t.now + t.aggregate + t.credentials + t.teardown +
    2 * t.update e.updater.maxAttempts + t.store + t.delete) (by dsimp only [Tariff.price]; omega)
    fun now => ?_
  split
  · exact within_pure _
  dsimp only
  split
  · refine (cutDown_within e type .empty ?_).mono (by omega)
    exact (releaseAndDelete_within e r.generation).mono (by omega)
  · refine within_request (m := t.now + t.credentials + t.teardown +
      2 * t.update e.updater.maxAttempts + t.store + t.delete) (by dsimp only [Tariff.price]; omega)
      fun answer => ?_
    cases answer with
    | error error => exact ((fail_within e _ _).map some).mono (by omega)
    | ok remaining =>
      refine cutDown_within e type remaining ?_
      exact (finishPartial_within e remaining r.generation).mono (by omega)

theorem rounds_within (key type : String) (n : Nat) :
    (rounds e key type n).Within t (n * t.round e.updater.maxAttempts) := by
  induction n with
  | zero => exact within_throw _
  | succ n ih =>
    refine within_get fun r => ?_
    split
    · rw [Nat.succ_mul, Nat.add_comm]
      refine (teardown_within e type).bind fun outcome => ?_
      cases outcome with
      | some action => exact within_pure _
      | none => exact ih
    · exact within_pure _

theorem push_within (type : String) (a : Aggregation) :
    (push type a).Within t (t.credentials + t.push) := by
  refine within_get fun r => within_request (Nat.le_refl _) fun credentials => ?_
  cases credentials with
  | error error => exact within_pure _
  | ok credentials => exact fun copy => ⟨Nat.le_refl _, fun _ => trivial⟩

theorem adopt_within (outcome : PushOutcome) :
    (adopt e outcome).Within t (t.now + 2 * t.update e.updater.maxAttempts) := by
  refine within_get fun r => ?_
  split
  · next id _ =>
    split
    · refine ((migrate_within e.updater id).attempt.bind
        (n := t.now + t.update e.updater.maxAttempts) fun result => ?_).mono (by omega)
      cases result with
      | ok => exact within_pure none
      | error error =>
        dsimp only
        split
        · exact within_throw _
        · exact (fail_within e _ _).map some
    · exact within_pure none
  · exact within_pure none

theorem complete_within (a : Aggregation) (outcome : PushOutcome) :
    (complete e a outcome).Within t (2 * t.now + 3 * t.update e.updater.maxAttempts) := by
  refine ((adopt_within e outcome).bind (n := t.now + t.update e.updater.maxAttempts)
    fun action => ?_).mono (by omega)
  cases action with
  | some action => exact within_pure _
  | none =>
    refine within_get fun r => within_request (Nat.le_refl _) fun now => ?_
    exact (status_within e.updater _).bind (n := 0) fun _ => within_pure _

/-- What follows an aggregation. -/
theorem pushing_within (type : String) (a : Aggregation) :
    Session.Within t
      (do
        Update.status e.updater fun r => { r.status with phase := .syncing }
        match ← push type a with
        | .ok outcome => complete e a outcome
        | .error error => fail e error.category error.text)
      (2 * t.now + t.credentials + t.push + 4 * t.update e.updater.maxAttempts) := by
  refine ((status_within e.updater _).bind (n := t.credentials + t.push +
    (2 * t.now + 3 * t.update e.updater.maxAttempts)) fun _ => ?_).mono (by omega)
  refine (push_within type a).bind fun answer => ?_
  cases answer with
  | ok outcome => exact complete_within e a outcome
  | error error => exact (fail_within e _ _).mono (by omega)

theorem synchronise_within (key type : String) :
    (synchronise e key type).Within t (t.synchronisation e.updater.maxAttempts) := by
  unfold Tariff.synchronisation
  refine ((guard_within e.updater).bind (n := 3 * t.now + t.coalescing + t.aggregate +
    t.credentials + t.push + 5 * t.update e.updater.maxAttempts) fun _ => ?_).mono (by omega)
  refine within_get fun r => ?_
  split
  · exact within_pure _
  refine within_get fun r => ?_
  refine (within_when (status_within e.updater _) (n := 3 * t.now + t.coalescing + t.aggregate +
    t.credentials + t.push + 4 * t.update e.updater.maxAttempts) fun _ => ?_).mono (by omega)
  refine within_request (m := 3 * t.now + t.aggregate +
    t.credentials + t.push + 4 * t.update e.updater.maxAttempts)
    (by dsimp only [Tariff.price]; omega) fun waiting => ?_
  split
  · exact within_pure _
  refine within_get fun r => ?_
  refine within_request (m := 3 * t.now + t.credentials + t.push +
    4 * t.update e.updater.maxAttempts) (by dsimp only [Tariff.price]; omega) fun answer => ?_
  cases answer with
  | error error => exact (fail_within e _ _).mono (by omega)
  | ok a =>
    dsimp only
    split
    · exact within_pure _
    refine within_request (m := 2 * t.now + t.credentials + t.push +
      4 * t.update e.updater.maxAttempts) (by dsimp only [Tariff.price]; omega) fun now => ?_
    split
    · exact within_pure _
    · exact pushing_within e type a

theorem unknownType_within :
    (unknownType e).Within t (t.now + t.update e.updater.maxAttempts) := by
  refine within_get fun r => ?_
  split
  · exact within_pure _
  · exact fail_within e _ _

theorem run_within (key : String) : (run e key).Within t
    (e.updater.maxAttempts * t.round e.updater.maxAttempts +
      t.synchronisation e.updater.maxAttempts) := by
  refine within_get fun r => ?_
  split
  · refine (rounds_within e key r.resourceType _).bind fun outcome => ?_
    cases outcome with
    | some action => exact within_pure _
    | none => exact synchronise_within e key _
  · refine (unknownType_within e).mono ?_
    unfold Tariff.synchronisation
    omega

end Pass

namespace Engine

variable (e : Engine) (key : String)

/-- What is reported of a pass. -/
def report : Except SyncError Action → Except SyncError Action
  | .ok action => .ok action
  | .error error => if error.isNotFound then .ok .done else .error error

theorem reconcile_eq : e.reconcile key = .ask (.store (.get key)) fun
    | .ok r => (Pass.run e key).start r >>= fun result => .done (report result.1)
    | .error error => .done (report (.error (.store error))) := by
  refine congrArg (Program.ask _) (funext fun answer => ?_)
  cases answer with
  | error error => rfl
  | ok r =>
    refine (Program.bind_assoc _ _ _).trans (congrArg (Program.bind _) (funext fun result => ?_))
    obtain ⟨result, copy⟩ := result
    cases result <;> rfl

/-- What a pass costs at most, whatever it is answered. -/
theorem reconcile_within (t : Tariff) :
    (e.reconcile key).Within t (t.pass e.updater.maxAttempts) := by
  rw [reconcile_eq]
  unfold Tariff.pass
  refine ⟨Nat.le_add_right_of_le (Nat.le_add_right ..), fun answer => ?_⟩
  cases answer with
  | error error => trivial
  | ok r =>
    refine ((Pass.run_within e key r).bind (n := 0) fun result => Program.within_done).mono ?_
    dsimp only [Tariff.price]
    omega

end Engine

end Tributary
