import Tributary.Pass
import Tributary.Proofs.Protocol

/-!
# What a pass asks

A pass makes four edits of its record: it sets the guard, releases it, clears the request for
a teardown and enters an identity. What it gives back or clears it only gives back or clears
for the generation that it has torn down. `Pass.Edits`, `Pass.Marks` and `Pass.Deletes` say of
each write what the pass has done before it, and `Engine.reconcile_ensures` that there are no
other writes.
-/

namespace Tributary

/-- The identity that a push has reported. -/
def Exchange.reported? : Exchange → Option String
  | ⟨.push .., .ok outcome⟩ => outcome.externalId
  | _ => none

namespace Pass

/-- The pass has not got past its teardown: after that it asks whether the key is quiet. -/
def Early (past : List Exchange) : Prop := ∀ x ∈ past, x.kind ≠ .quiet

/-- The latest aggregation was one of the contributions of a version, with that answer. -/
def Aggregated (past : List Exchange) (v : Record) (a : Except SyncError Aggregation) : Prop :=
  heldAt .aggregation past = some v ∧
    ∃ type, latest .aggregation past = some ⟨.aggregate type v.sources, a⟩

/-- The latest push was accepted, and has reported an identity. -/
def Reported (past : List Exchange) (id : String) : Prop :=
  (latest .push past).bind (·.reported?) = some id

/-- A version held at a reading of the clock, nothing but upkeep later. -/
def Timed (past : List Exchange) (time : Instant) (v : Record) : Prop :=
  ∃ before, lastRead before = some v ∧ Upkeep (⟨.now, time⟩ :: before) past

/-- What a downstream answers if nothing is left to be cut back. -/
def Accepted : Except DownstreamError Unit → Prop
  | .ok () => True
  | .error error => error.isNotFound = true

/-- How a version comes to be cut back to what remains. -/
inductive CutBack (v : Record) (remaining : Aggregation) (before : List Exchange) :
    List Exchange → Prop
  /-- Nothing was ever created downstream. -/
  | absent (pending : v.isPending = true) : CutBack v remaining before before
  /-- There is no access to the downstream. -/
  | unresolved {error : DownstreamError} (missing : error.isNotFound = true)
      (real : v.isPending = false) :
      CutBack v remaining before (⟨.credentials v.credentialsRef, .error error⟩ :: before)
  | accepted {type : String} {credentials : Credentials} {answer : Except DownstreamError Unit}
      (accepted : Accepted answer) (real : v.isPending = false) :
      CutBack v remaining before (⟨.teardown type v.scopeIds credentials remaining, answer⟩ ::
        ⟨.credentials v.credentialsRef, .ok credentials⟩ :: before)

/-- A round in which an abandoned version was taken down. -/
def TakenDown (v : Record) (past : List Exchange) : Prop :=
  v.abandoned = true ∧ ∃ before time base, lastRead before = some v ∧
    CutBack v .empty (⟨.now, time⟩ :: before) base ∧ Upkeep base past

/-- What a pass makes of a version, except for its status. -/
inductive Edits (past : List Exchange) (v : Record) : Record → Prop
  | guard (early : Early past) : Edits past v { v with pendingTeardown := true }
  | release {c : Record} (early : Early past) (down : TakenDown c past) :
      Edits past v (if v.generation = c.generation then { v with pendingTeardown := false } else v)
  | clear {c : Record} (early : Early past) (aggregated : heldAt .aggregation past = some c) :
      Edits past v
        (if v.generation = c.generation then { v with teardownRequested := false } else v)
  | adopt (id : String) (late : ¬ Early past) (reported : Reported past id)
      (real : Pending.isPlaceholder id = false) : Edits past v { v with externalId := id }

/-- Which status a pass gives to a version. -/
inductive Marks (past : List Exchange) (v : Record) : Status → Prop
  | remaining {c : Record} {a : Aggregation} {budget : Nat} {now : Instant} (early : Early past)
      (aggregated : heldAt .aggregation past = some c) :
      Marks past v
        (if v.generation = c.generation then synced v.status a c.generation budget now
          else v.status)
  | reset : Marks past v (Backoff.resetFailed v.status)
  | syncing : Marks past v { v.status with phase := .syncing }
  | success {g h : Record} {a : Aggregation} {budget : Nat} {now : Instant}
      {summary : Table String} (late : ¬ Early past) (aggregated : Aggregated past g (.ok a))
      (timed : Timed past now h) :
      Marks past v
        { synced v.status a h.generation budget now with resultData := summary }
  | failure {h : Record} {b : Backoff} {category : Category} {reason : String} {now : Instant}
      (cause : ¬ Early past → ∃ g a, Aggregated past g a) (timed : Timed past now h) :
      Marks past v (b.recordFailure v.status category reason h.generation now).1

def Deletes (past : List Exchange) (r : Record) : Prop :=
  Early past ∧ ∃ v, v.generation = r.generation ∧ TakenDown v past

/-- What a pass asks of others than the store. -/
def Calls (past : List Exchange) : Request → Prop
  | .aggregate _ sources => ∃ v, lastRead past = some v ∧ sources = v.sources
  | .push _ _ _ a => ¬ Early past ∧ ∃ g, Aggregated past g (.ok a)
  | .teardown _ _ _ _ => Early past
  | _ => True

def protocol (key : String) : Protocol where
  key := key
  creates _ := False
  edits := Edits
  marks := Marks
  deletes := Deletes
  calls := Calls

/-! ## What is known along a pass -/

variable {key : String} {past base : List Exchange} {copy v : Record} {x : Exchange}

theorem Early.cons (h : Early past) (hx : x.kind ≠ .quiet) : Early (x :: past) := by
  intro y hy
  cases hy with
  | head => exact hx
  | tail _ hy => exact h y hy

theorem Early.suffix (h : Early past) (earlier : base <:+ past) : Early base :=
  fun x hx => h x (earlier.subset hx)

theorem Early.upkeep (h : Early base) (u : Upkeep base past) : Early past :=
  u.forall_mem (fun _ hx => by simp [hx]) h

theorem late_cons (key : String) (answer : Bool) (past : List Exchange) :
    ¬ Early (⟨.coalescing key, answer⟩ :: past) := by
  intro h
  exact h _ List.mem_cons_self rfl

theorem late_of_cons (h : ¬ Early past) : ¬ Early (x :: past) :=
  fun early => h fun y hy => early y (List.mem_cons_of_mem _ hy)

theorem late_upkeep (h : ¬ Early base) (u : Upkeep base past) : ¬ Early past := by
  induction u with
  | refl => exact h
  | step _ _ ih => exact late_of_cons ih

theorem aggregated_cons (type : String) (a : Except SyncError Aggregation)
    (read : lastRead past = some v) : Aggregated (⟨.aggregate type v.sources, a⟩ :: past) v a := by
  have held := heldAt_cons_of_eq (x := ⟨.aggregate type v.sources, a⟩) rfl past
  exact ⟨held.trans read, type, rfl⟩

theorem Aggregated.cons {a : Except SyncError Aggregation} (h : Aggregated past v a)
    (hx : x.kind ≠ .aggregation) : Aggregated (x :: past) v a := by
  constructor
  · rw [heldAt_cons_of_ne hx]
    exact h.1
  · rw [latest_cons_of_ne hx]
    exact h.2

theorem Aggregated.upkeep {a : Except SyncError Aggregation} (h : Aggregated base v a)
    (u : Upkeep base past) : Aggregated past v a := by
  constructor
  · rw [u.heldAt_eq (by decide)]
    exact h.1
  · rw [u.latest_eq (by decide)]
    exact h.2

theorem Reported.upkeep {id : String} (h : Reported base id) (u : Upkeep base past) :
    Reported past id := by
  unfold Reported
  rw [u.latest_eq (by decide)]
  exact h

theorem TakenDown.upkeep (h : TakenDown v base) (u : Upkeep base past) : TakenDown v past := by
  obtain ⟨abandoned, before, time, cut, read, cutBack, u'⟩ := h
  exact ⟨abandoned, before, time, cut, read, cutBack, u'.trans u⟩

/-! ## The parts of a pass -/

open Session
open Exchange (kind)

theorem guard_ensures (policy : RetryPolicy) (holds : (protocol key).Holds past copy)
    (early : Early past) :
    (Update.guard policy).Ensures (protocol key).Asks (Yields ((protocol key).Kept past)) copy
      past := by
  simp only [Update.guard, ensures_get]
  split
  · exact ⟨.refl, holds⟩
  · exact holds.spec_ensures policy (fun _ => ⟨rfl, rfl⟩) fun _ _ u _ => .guard (early.upkeep u)

variable (e : Engine)

theorem fail_ensures (category : Category) (reason : String)
    (tracks : (protocol key).Tracks past copy v)
    (cause : ¬ Early past → ∃ g a, Aggregated past g a) :
    (fail e category reason).Ensures (protocol key).Asks (Yields fun _ _ _ => True) copy past := by
  simp only [fail, ensures_get]
  refine (ensures_request _ _).2 ⟨⟨tracks.still, trivial⟩, fun now _ => ?_⟩
  have cause' (late : ¬ Early (⟨.now, now⟩ :: past)) :
      ∃ g a, Aggregated (⟨.now, now⟩ :: past) g a := by
    have before : ¬ Early past := fun early => late (early.cons (by simp [kind]))
    obtain ⟨g, a, aggregated⟩ := cause before
    exact ⟨g, a, aggregated.cons (by simp [kind])⟩
  refine Ensures.next (?_ : Session.Ensures _ (Yields fun _ _ _ => True) _ _ _) ?_
  · refine (tracks.other rfl rfl).ensures_marking _ (fun _ => ⟨rfl, rfl⟩) ?_ ?_ ?_
    · intro past' c w u tracks'
      have timed : Timed past' now v := ⟨past, tracks.read, u⟩
      rw [tracks.generation_eq, tracks'.status_eq]
      refine .failure (fun late => ?_) timed
      obtain ⟨g, a, aggregated⟩ := cause' fun early => late (early.upkeep u)
      exact ⟨g, a, aggregated.upkeep u⟩
    · intros
      trivial
    · intros
      trivial
  · intro _ outcome _ _
    cases outcome <;> trivial

/-- What a pass goes on with after a round: nothing, or the version read last. -/
def Resumes (key : String) (past : List Exchange) : Option Action → Record → Prop
  | none, copy => (protocol key).Holds past copy ∧ Early past
  | some _, _ => True

theorem failure_resumes (category : Category) (reason : String)
    (holds : (protocol key).Holds past copy) (early : Early past) :
    (some <$> fail e category reason).Ensures (protocol key).Asks (Yields (Resumes key)) copy
      past := by
  rw [ensures_map]
  refine (fail_ensures e category reason holds.tracks fun late => absurd early late).mono ?_
  intro _ result _ _
  cases result <;> trivial

theorem cutBack_ensures (type : String) (remaining : Aggregation)
    (holds : (protocol key).Holds past copy) (early : Early past) :
    (cutBack type remaining).Ensures (protocol key).Asks
      (Yields fun past' result copy' => (protocol key).Holds past' copy' ∧ Early past' ∧
        heldAt .aggregation past' = heldAt .aggregation past ∧
        (result = none → CutBack copy remaining past past')) copy past := by
  simp only [cutBack, ensures_get]
  split
  · next pending => exact ⟨holds, early, rfl, fun _ => .absent pending⟩
  · next real =>
    simp only [Bool.not_eq_true] at real
    refine (ensures_request _ _).2 ⟨⟨holds.still, trivial⟩, fun access _ => ?_⟩
    have holds' := holds.other (x := ⟨.credentials copy.credentialsRef, access⟩) rfl rfl
    have early' := early.cons (x := ⟨.credentials copy.credentialsRef, access⟩) (by simp [kind])
    cases access with
    | error error =>
      exact ⟨holds', early', rfl, fun passed => .unresolved (by simpa using passed) real⟩
    | ok credentials =>
      refine (ensures_request _ _).2 ⟨⟨holds'.still, early'⟩, fun answer _ => ?_⟩
      have holds'' := holds'.other
        (x := ⟨.teardown type copy.scopeIds credentials remaining, answer⟩) rfl rfl
      have early'' := early'.cons
        (x := ⟨.teardown type copy.scopeIds credentials remaining, answer⟩) (by simp [kind])
      cases answer with
      | ok =>
        exact ⟨holds'', early'', rfl, fun _ => .accepted trivial real⟩
      | error error =>
        refine ⟨holds'', early'', rfl, fun passed => .accepted ?_ real⟩
        simpa [Accepted] using passed

theorem releaseAndDelete_ensures (holds : (protocol key).Holds past copy) (early : Early past)
    (down : TakenDown v past) :
    (releaseAndDelete e v.generation).Ensures (protocol key).Asks (Yields (Resumes key)) copy
      past := by
  simp only [releaseAndDelete, ensures_get]
  refine ensures_when ((protocol key).Kept past) (fun _ => ?_)
    (fun _ => ⟨.refl, holds⟩) ?_
  · refine holds.spec_ensures e.updater (fun c => ?_) fun past' c u _ =>
      .release (early.upkeep u) (down.upkeep u)
    split <;> exact ⟨rfl, rfl⟩
  · rintro released _ copy ⟨u, holds⟩
    have early := early.upkeep u
    simp only [ensures_get]
    split
    · refine (guard_ensures e.updater holds early).next fun past' _ copy' kept => ?_
      exact ⟨kept.2, early.upkeep kept.1⟩
    · next same =>
      refine (ensures_request _ _).2 ⟨⟨holds.still, holds.read, holds.key, early, v,
        (Decidable.not_not.1 same).symm, down.upkeep u⟩, fun answer _ => ?_⟩
      cases answer with
      | ok => trivial
      | error error =>
        dsimp only
        split
        · have still := holds.still.cons (x := ⟨.store (.delete copy), .error error⟩) rfl
          have early := early.cons (x := ⟨.store (.delete copy), .error error⟩) (by simp [kind])
          refine (Update.ensures_refresh _).2 ⟨⟨still, holds.key⟩, ?_, fun _ => trivial⟩
          intro r hr
          rw [holds.key] at hr ⊢
          have again := still.got hr
          have early := early.cons (x := ⟨.store (.get (protocol key).key), .ok r⟩) (by simp [kind])
          simp only [ensures_get]
          refine ensures_unless _ (fun _ => guard_ensures e.updater again early)
            (fun _ => ⟨.refl, again⟩) ?_
          rintro past' _ copy' ⟨u', holds'⟩
          exact ⟨holds', early.upkeep u'⟩
        · trivial

/-- The end of a partial teardown: the request for it is cleared. -/
theorem clear_ensures (policy : RetryPolicy) (holds : (protocol key).Holds past copy)
    (early : Early past) (aggregated : heldAt .aggregation past = some v) :
    Session.Ensures (protocol key).Asks (Yields (Resumes key))
      (do
        Update.spec policy fun r =>
          if r.generation = v.generation then { r with teardownRequested := false } else r
        return if (← get).generation = v.generation then some Action.done else none)
      copy past := by
  refine Ensures.next (holds.spec_ensures policy (fun c => ?_) fun past' c u _ => ?_) ?_
  · split <;> exact ⟨rfl, rfl⟩
  · exact .clear (early.upkeep u) ((u.heldAt_eq (by decide)).trans aggregated)
  · rintro past' _ copy' ⟨u, holds'⟩
    simp only [ensures_get, ensures_pure]
    split
    · trivial
    · exact ⟨holds', early.upkeep u⟩

theorem finishPartial_ensures (remaining : Aggregation)
    (holds : (protocol key).Holds past copy) (early : Early past)
    (aggregated : heldAt .aggregation past = some v) :
    (finishPartial e remaining v.generation).Ensures (protocol key).Asks (Yields (Resumes key))
      copy past := by
  simp only [finishPartial, ensures_get]
  split
  · exact clear_ensures e.updater holds early aggregated
  · refine (ensures_request _ _).2 ⟨⟨holds.still, trivial⟩, fun now _ => ?_⟩
    have timed := holds.other (x := ⟨.now, now⟩) rfl rfl
    have early := early.cons (x := ⟨.now, now⟩) (by simp [kind])
    refine Ensures.next (timed.tracks.status_ensures e.updater fun past' c w u tracks => ?_) ?_
    · rw [tracks.status_eq, tracks.generation_eq]
      exact .remaining (early.upkeep u) ((u.heldAt_eq (by decide)).trans aggregated)
    · rintro past' _ copy' ⟨u, holds'⟩
      exact clear_ensures e.updater holds' (early.upkeep u)
        ((u.heldAt_eq (by decide)).trans aggregated)

theorem teardown_ensures (type : String) (holds : (protocol key).Holds past copy)
    (early : Early past) :
    (teardown e type).Ensures (protocol key).Asks (Yields (Resumes key)) copy past := by
  simp only [teardown, ensures_get]
  split
  · trivial
  · refine (ensures_request _ _).2 ⟨⟨holds.still, trivial⟩, fun now _ => ?_⟩
    have read := holds.read
    have holds := holds.other (x := ⟨.now, now⟩) rfl rfl
    have early := early.cons (x := ⟨.now, now⟩) (by simp [kind])
    split
    · trivial
    · split
      · next full =>
        simp only [pure_bind]
        refine (cutBack_ensures type .empty holds early).next ?_
        rintro past' result copy' ⟨holds', early', _, cut⟩
        cases result with
        | none =>
          exact releaseAndDelete_ensures e holds' early'
            ⟨full, past, now, past', read, cut rfl, .refl⟩
        | some error => exact failure_resumes e _ _ holds' early'
      · refine (ensures_request _ _).2 ⟨⟨holds.still, copy, holds.read, rfl⟩, fun result _ => ?_⟩
        have aggregated := aggregated_cons type result holds.read
        have holds := holds.other (x := ⟨.aggregate type copy.sources, result⟩) rfl rfl
        have early := early.cons (x := ⟨.aggregate type copy.sources, result⟩) (by simp [kind])
        cases result with
        | error error => exact failure_resumes e _ _ holds early
        | ok remaining =>
          refine (cutBack_ensures type remaining holds early).next ?_
          rintro past' result copy' ⟨holds', early', same, _⟩
          cases result with
          | none => exact finishPartial_ensures e remaining holds' early' (same.trans aggregated.1)
          | some error => exact failure_resumes e _ _ holds' early'

theorem rounds_ensures (type : String) (n : Nat) (holds : (protocol key).Holds past copy)
    (early : Early past) :
    (rounds e key type n).Ensures (protocol key).Asks (Yields (Resumes key)) copy past := by
  induction n generalizing past copy with
  | zero => trivial
  | succ n ih =>
    simp only [rounds, ensures_get]
    split
    · refine (teardown_ensures e type holds early).next fun past' action copy' resumes => ?_
      cases action with
      | some action => trivial
      | none => exact ih resumes.1 resumes.2
    · exact ⟨holds, early⟩

/-- The version that was read last, after an aggregation of `g` past the teardown. -/
structure Pushing (key : String) (g : Record) (a : Except SyncError Aggregation)
    (past : List Exchange) (copy : Record) : Prop where
  holds : (protocol key).Holds past copy
  late : ¬ Early past
  aggregated : Aggregated past g a

variable {g : Record} {a : Aggregation}

theorem Pushing.other {a : Except SyncError Aggregation} (h : Pushing key g a past copy)
    {x : Exchange} (unread : x.read? = none) (still : x.isRemoval = false)
    (hx : x.kind ≠ .aggregation) : Pushing key g a (x :: past) copy :=
  ⟨h.holds.other unread still, late_of_cons h.late, h.aggregated.cons hx⟩

theorem Pushing.kept {a : Except SyncError Aggregation} (h : Pushing key g a base copy)
    {copy' : Record} (kept : (protocol key).Kept base past () copy') :
    Pushing key g a past copy' :=
  ⟨kept.2, late_upkeep h.late kept.1, h.aggregated.upkeep kept.1⟩

theorem Pushing.fail_ensures {a : Except SyncError Aggregation} (category : Category)
    (reason : String) (h : Pushing key g a past copy) :
    (fail e category reason).Ensures (protocol key).Asks (Yields fun _ _ _ => True) copy past :=
  Pass.fail_ensures e category reason h.holds.tracks fun _ => ⟨g, a, h.aggregated⟩

theorem push_ensures (type : String) (h : Pushing key g (.ok a) past copy) :
    (push type a).Ensures (protocol key).Asks
      (Yields fun past' result copy' => Pushing key g (.ok a) past' copy' ∧
        ∀ outcome id, result = .ok outcome → outcome.externalId = some id → Reported past' id) copy
      past := by
  simp only [push, ensures_get]
  refine (ensures_request _ _).2 ⟨⟨h.holds.still, trivial⟩, fun access _ => ?_⟩
  have h := h.other (x := ⟨.credentials copy.credentialsRef, access⟩) rfl rfl (by simp [kind])
  cases access with
  | error error => exact ⟨h, fun _ _ pushed => by cases pushed⟩
  | ok credentials =>
    refine ⟨⟨h.holds.still, h.late, g, h.aggregated⟩, fun answer _ => ?_⟩
    refine ⟨h.other rfl rfl (by simp [kind]), ?_⟩
    rintro outcome id rfl named
    exact named

/-- A failed migration may leave a copy with an identity that is not stored. -/
theorem migrate_ensures (policy : RetryPolicy) (id : String)
    (holds : (protocol key).Holds past copy) (late : ¬ Early past) (reported : Reported past id)
    (real : Pending.isPlaceholder id = false) :
    (Update.migrate policy id).Ensures (protocol key).Asks
      (fun past' result copy' => Upkeep past past' ∧
        match result with
        | .ok _ => (protocol key).Holds past' copy'
        | .error _ => ∃ v, (protocol key).Tracks past' copy' v) copy past := by
  simp only [Update.migrate, ensures_get]
  split
  · exact ⟨.refl, holds⟩
  · refine holds.ensures_editing policy (fun _ => ⟨rfl, rfl⟩)
      (fun past' c u _ => .adopt id (late_upkeep late u) (reported.upkeep u) real) ?_ ?_
    · intro past' c token r u holds' hr
      exact holds'.still.refreshed u .spec _ token hr
    · rintro past' c copy' _ u holds' (rfl | rfl)
      · exact ⟨u, _, holds'.tracks⟩
      · exact ⟨u, c, holds'.read, holds'.key, holds'.still, rfl⟩

theorem adopt_ensures (outcome : PushOutcome) (h : Pushing key g (.ok a) past copy)
    (reported : ∀ id, outcome.externalId = some id → Reported past id) :
    (adopt e outcome).Ensures (protocol key).Asks
      (Yields fun past' action copy' => action = none → Pushing key g (.ok a) past' copy') copy
      past := by
  simp only [adopt, ensures_get]
  split
  · next id named =>
    split
    · next adopts =>
      simp only [Bool.and_eq_true, Bool.not_eq_true'] at adopts
      rw [ensures_bind, ensures_attempt]
      refine (migrate_ensures e.updater id h.holds h.late (reported id named) adopts.2).mono
        fun past' result copy' known => ?_
      obtain ⟨u, known⟩ := known
      cases result with
      | ok => exact fun _ => h.kept ⟨u, known⟩
      | error error =>
        obtain ⟨v, tracks⟩ := known
        simp only [continues_ok]
        split
        · trivial
        · rw [ensures_map]
          refine (Pass.fail_ensures e _ _ tracks fun _ => ⟨g, _, h.aggregated.upkeep u⟩).mono ?_
          intro _ result _ _
          cases result with
          | ok =>
            intro none
            cases none
          | error => trivial
    · exact fun _ => h
  · exact fun _ => h

theorem complete_ensures (outcome : PushOutcome) (h : Pushing key g (.ok a) past copy)
    (reported : ∀ id, outcome.externalId = some id → Reported past id) :
    (complete e a outcome).Ensures (protocol key).Asks (Yields fun _ _ _ => True) copy past := by
  unfold complete
  refine (adopt_ensures e outcome h reported).next fun past action copy adopted => ?_
  cases action with
  | some action => trivial
  | none =>
    have h := adopted rfl
    simp only [ensures_get]
    refine (ensures_request _ _).2 ⟨⟨h.holds.still, trivial⟩, fun now _ => ?_⟩
    have timed := h.other (x := ⟨.now, now⟩) rfl rfl (by simp [kind])
    refine Ensures.next (timed.holds.tracks.status_ensures e.updater ?_) fun _ _ _ _ => trivial
    intro past' c w u tracks
    rw [tracks.status_eq]
    exact .success (late_upkeep timed.late u) (timed.aggregated.upkeep u)
      ⟨past, h.holds.read, u⟩

theorem syncing_ensures (type : String) (h : Pushing key g (.ok a) past copy) :
    Session.Ensures (protocol key).Asks (Yields fun _ _ _ => True)
      (do
        Update.status e.updater fun r => { r.status with phase := .syncing }
        match ← push type a with
        | .ok outcome => complete e a outcome
        | .error error => fail e error.category error.text)
      copy past := by
  refine Ensures.next (h.holds.tracks.status_ensures e.updater ?_) ?_
  · intro past' c w _ tracks
    rw [tracks.status_eq]
    exact .syncing
  · intro past' _ copy' kept
    refine (push_ensures type (h.kept kept)).next fun past result copy pushed => ?_
    cases result with
    | ok outcome => exact complete_ensures e outcome pushed.1 fun id => pushed.2 outcome id rfl
    | error error => exact pushed.1.fail_ensures e _ _

theorem synchronise_ensures (type : String) (holds : (protocol key).Holds past copy)
    (early : Early past) :
    (synchronise e key type).Ensures (protocol key).Asks (Yields fun _ _ _ => True) copy past := by
  unfold synchronise
  refine (guard_ensures e.updater holds early).next fun past _ copy kept => ?_
  simp only [ensures_get]
  split
  · trivial
  · simp only [ensures_get]
    refine ensures_when ((protocol key).Kept past) (fun _ => ?_)
      (fun _ => ⟨.refl, kept.2⟩) ?_
    · refine kept.2.tracks.status_ensures e.updater fun past' c w _ tracks => ?_
      rw [tracks.status_eq]
      exact .reset
    · rintro past' _ copy ⟨_, holds⟩
      refine (ensures_request _ _).2 ⟨⟨holds.still, trivial⟩, fun busy _ => ?_⟩
      have late := late_cons key busy past'
      have holds := holds.other (x := ⟨.coalescing key, busy⟩) rfl rfl
      split
      · trivial
      · simp only [ensures_get]
        refine (ensures_request _ _).2 ⟨⟨holds.still, copy, holds.read, rfl⟩, fun result _ => ?_⟩
        have pushing : Pushing key copy result _ copy :=
          ⟨holds.other (x := ⟨.aggregate type copy.sources, result⟩) rfl rfl, late_of_cons late,
            aggregated_cons type result holds.read⟩
        cases result with
        | error error => exact pushing.fail_ensures e _ _
        | ok a =>
          dsimp only
          split
          · trivial
          · refine (ensures_request _ _).2 ⟨⟨pushing.holds.still, trivial⟩, fun now _ => ?_⟩
            have pushing := pushing.other (x := ⟨.now, now⟩) rfl rfl (by simp [kind])
            split
            · trivial
            · exact syncing_ensures e type pushing

theorem run_ensures (holds : (protocol key).Holds past copy) (early : Early past) :
    (run e key).Ensures (protocol key).Asks (Yields fun _ _ _ => True) copy past := by
  simp only [run, ensures_get]
  split
  · refine (rounds_ensures e _ _ holds early).next fun past' action copy' resumes => ?_
    cases action with
    | some action => trivial
    | none => exact synchronise_ensures e _ resumes.1 resumes.2
  · simp only [unknownType, ensures_get]
    split
    · trivial
    · exact fail_ensures e _ _ holds.tracks fun late => absurd early late

end Pass

/-- A pass keeps to its protocol, whatever it is answered. -/
theorem Engine.reconcile_ensures (e : Engine) (key : String) :
    (e.reconcile key).Ensures (Pass.protocol key).Asks (fun _ _ => True) [] := by
  unfold Engine.reconcile
  rw [Program.ensures_request]
  have still : Protocol.Open [] := fun _ h => by cases h
  have early : Pass.Early [] := fun _ h => by cases h
  refine ⟨⟨still, rfl⟩, fun a honest => ?_⟩
  cases a with
  | ok r =>
    dsimp only
    rw [Program.ensures_bind, Program.ensures_map]
    have early := early.cons (x := ⟨.store (.get key), .ok r⟩) (by simp [Exchange.kind])
    refine Program.Ensures.mono (Pass.run_ensures e (still.got honest) early) ?_
    rintro past ⟨result, _⟩ _
    cases result <;> trivial
  | error error => trivial

end Tributary
