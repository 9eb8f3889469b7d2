import Tributary.Proofs.Teardowns

/-!
# What an attempt goes by

A pass decides on versions that it has read, and acts later. It pushes because a version asked for
no teardown, and changes that version before it aggregates what it has read again
(`Pass.Screened`). It enters an identity because the version that it held at the push had a
placeholder, and the phase synchronised for one of the reasons of `Pass.Credible`. Of the versions
that it writes to it asks nothing any more. `Engine.reconcile_attempts` says so for every pass.
-/

namespace Tributary

namespace Pass

/-- The pass was done with its teardown because a version asked for none. Nothing but upkeep later
it held a version when it asked whether the key is quiet; unless the first one had no guard or had
failed, it is the same. -/
def Screened (past : List Exchange) (c g : Record) : Prop :=
  c.needsTeardown = false ∧ ∃ since key busy tested base,
    past = since ++ ⟨.coalescing key, busy⟩ :: tested ∧ Upkeep base tested ∧
    lastRead base = some c ∧ lastRead tested = some g ∧
    (c.pendingTeardown = true → c.status.phase ≠ .failed → tested = base)

/-- The latest push was accepted, but has reported no identity that could be entered. -/
def Unnamed (past : List Exchange) : Prop :=
  ∃ type scope credentials a outcome,
    latest .push past = some ⟨.push type scope credentials a, .ok outcome⟩ ∧
    ∀ id, outcome.externalId = some id → Pending.isPlaceholder id = true

/-- Since its latest push the pass has changed something but the status. -/
def EditedSince (past : List Exchange) : Prop :=
  ∃ since r token before, past = since ++ ⟨.store (.update r), .ok token⟩ :: before ∧
    heldAt .push before = heldAt .push past ∧ ¬ Early before

/-- Why a pass takes what is synchronised to have an identity. -/
inductive Credible (past : List Exchange) : Prop
  /-- It has cut something back that had one. -/
  | remaining {c : Record} (early : Early past) (held : heldAt .clock past = some c)
      (real : c.isPending = false)
  /-- It had one when it was pushed, or got one since, or none was reported. -/
  | pushed {c : Record} (late : ¬ Early past) (held : heldAt .push past = some c)
      (cause : c.isPending = false ∨ EditedSince past ∨ Unnamed past)

/-- What an attempt goes by when it writes or pushes. -/
def attempting (key : String) : Protocol where
  key := key
  creates _ := False
  edits past _ _ := ¬ Early past → ∃ c, heldAt .push past = some c ∧ c.isPending = true
  marks past v s := s.phase = .synced → s = v.status ∨ Credible past
  deletes _ _ := True
  calls past
    | .push _ _ _ a => ∃ c g, Screened past c g ∧ Aggregated past g (.ok a)
    | _ => True

section

variable {past base : List Exchange} {x : Exchange} {c g : Record}

theorem Screened.cons (h : Screened past c g) (x : Exchange) : Screened (x :: past) c g := by
  obtain ⟨needless, since, key, busy, tested, base, rfl, path⟩ := h
  exact ⟨needless, x :: since, key, busy, tested, base, rfl, path⟩

/-- A version that has its guard and has not failed needs no upkeep. -/
theorem Screened.same (h : Screened past c g) (guarded : c.pendingTeardown = true)
    (fine : c.status.phase ≠ .failed) : g = c := by
  obtain ⟨_, _, _, _, _, _, _, _, readC, readG, same⟩ := h
  exact Option.some.inj (readG.symm.trans (same guarded fine ▸ readC))

theorem Screened.upkeep (h : Screened base c g) (u : Upkeep base past) : Screened past c g := by
  induction u with
  | refl => exact h
  | step _ _ ih => exact ih.cons _

theorem Unnamed.cons (h : Unnamed past) (hx : x.kind ≠ .push) : Unnamed (x :: past) := by
  obtain ⟨type, scope, credentials, a, outcome, pushed, unnamed⟩ := h
  exact ⟨type, scope, credentials, a, outcome, (latest_cons_of_ne hx _).trans pushed, unnamed⟩

theorem EditedSince.cons (h : EditedSince past) (hx : x.kind ≠ .push) :
    EditedSince (x :: past) := by
  obtain ⟨since, r, token, before, rfl, held, late⟩ := h
  exact ⟨x :: since, r, token, before, rfl, held.trans (heldAt_cons_of_ne hx _).symm, late⟩

theorem Credible.cons (h : Credible past) (pushless : x.kind ≠ .push)
    (early : Early past → x.kind = .upkeep) : Credible (x :: past) := by
  cases h with
  | remaining still held real =>
    have hx := early still
    refine .remaining (still.cons (by simp [hx])) ?_ real
    exact (heldAt_cons_of_ne (by simp [hx]) past).trans held
  | pushed late held cause =>
    refine .pushed (late_of_cons late) ((heldAt_cons_of_ne pushless past).trans held) ?_
    obtain real | entered | unnamed := cause
    · exact .inl real
    · exact .inr (.inl (entered.cons pushless))
    · exact .inr (.inr (unnamed.cons pushless))

theorem Credible.upkeep (h : Credible base) (u : Upkeep base past) : Credible past := by
  induction u with
  | refl => exact h
  | step _ hx ih => exact ih.cons (by simp [hx]) fun _ => hx

end

/-! ## The parts of a pass -/

open Session
open Exchange (kind)

variable {key : String} {past base : List Exchange} {copy v : Record} (e : Engine)

theorem editing_of_early {r : Record} (early : Early past) : (attempting key).edits past v r :=
  fun late => absurd early late

theorem guard_attempts (policy : RetryPolicy) (holds : (attempting key).Holds past copy)
    (early : Early past) :
    (Update.guard policy).Ensures (attempting key).Asks
      (Yields fun past' u copy' => (attempting key).Kept past past' u copy' ∧
        (copy.pendingTeardown = true → past' = past)) copy past := by
  simp only [Update.guard, ensures_get]
  split
  · exact ⟨⟨.refl, holds⟩, fun _ => rfl⟩
  · next unguarded =>
    refine (holds.spec_ensures policy (f := fun r => { r with pendingTeardown := true })
      (fun _ => ⟨rfl, rfl⟩) fun _ _ u _ => editing_of_early (early.upkeep u)).mono
      fun past' result copy' kept => ?_
    cases result with
    | ok => exact ⟨kept, fun guarded => absurd guarded unguarded⟩
    | error => trivial

theorem fail_attempts (category : Category) (reason : String)
    (tracks : (attempting key).Tracks past copy v) :
    (fail e category reason).Ensures (attempting key).Asks (Yields fun _ _ _ => True) copy
      past := by
  simp only [fail, ensures_get]
  refine (ensures_request _ _).2 ⟨⟨tracks.still, trivial⟩, fun now _ => ?_⟩
  refine Ensures.next (?_ : Session.Ensures _ (Yields fun _ _ _ => True) _ _ _) ?_
  · refine (tracks.other rfl rfl).ensures_marking _ (fun _ => ⟨rfl, rfl⟩) ?_ ?_ ?_
    · intro past' c w _ _ synced
      obtain e | e := Backoff.phase_recordFailure _ _ _ _ _ _
      · cases e.symm.trans synced
      · cases e.symm.trans synced
    · intros
      trivial
    · intros
      trivial
  · intro _ outcome _ _
    cases outcome <;> trivial

/-- What a pass goes on with after a round: nothing, or the version read last. -/
def Continuing (key : String) (past : List Exchange) : Option Action → Record → Prop
  | none, copy => (attempting key).Holds past copy ∧ Early past
  | some _, _ => True

theorem failure_attempts (category : Category) (reason : String)
    (holds : (attempting key).Holds past copy) :
    (some <$> fail e category reason).Ensures (attempting key).Asks (Yields (Continuing key)) copy
      past := by
  rw [ensures_map]
  refine (fail_attempts e category reason holds.tracks).mono ?_
  intro _ result _ _
  cases result <;> trivial

theorem cutBack_attempts (type : String) (remaining : Aggregation)
    (holds : (attempting key).Holds past copy) (early : Early past) :
    (cutBack type remaining).Ensures (attempting key).Asks
      (Yields fun past' _ copy' => (attempting key).Holds past' copy' ∧ Early past') copy past := by
  simp only [cutBack, ensures_get]
  split
  · exact ⟨holds, early⟩
  · refine (ensures_request _ _).2 ⟨⟨holds.still, trivial⟩, fun access _ => ?_⟩
    have holds := holds.other (x := ⟨.credentials copy.credentialsRef, access⟩) rfl rfl
    have early := early.cons (x := ⟨.credentials copy.credentialsRef, access⟩) (by simp [kind])
    cases access with
    | error error => exact ⟨holds, early⟩
    | ok credentials =>
      refine (ensures_request _ _).2 ⟨⟨holds.still, trivial⟩, fun answer _ => ?_⟩
      have holds := holds.other
        (x := ⟨.teardown type copy.scopeIds credentials remaining, answer⟩) rfl rfl
      have early := early.cons
        (x := ⟨.teardown type copy.scopeIds credentials remaining, answer⟩) (by simp [kind])
      cases answer <;> exact ⟨holds, early⟩

theorem releaseAndDelete_attempts (generation : Nat) (holds : (attempting key).Holds past copy)
    (early : Early past) :
    (releaseAndDelete e generation).Ensures (attempting key).Asks (Yields (Continuing key)) copy
      past := by
  simp only [releaseAndDelete, ensures_get]
  refine ensures_when ((attempting key).Kept past) (fun _ => ?_) (fun _ => ⟨.refl, holds⟩) ?_
  · refine holds.spec_ensures e.updater (fun c => ?_)
      fun _ _ u _ => editing_of_early (early.upkeep u)
    split <;> exact ⟨rfl, rfl⟩
  · rintro released _ copy ⟨u, holds⟩
    have early := early.upkeep u
    simp only [ensures_get]
    split
    · refine (guard_attempts e.updater holds early).next fun past' _ copy' kept => ?_
      exact ⟨kept.1.2, early.upkeep kept.1.1⟩
    · refine (ensures_request _ _).2 ⟨⟨holds.still, holds.read, holds.key, trivial⟩,
        fun answer _ => ?_⟩
      cases answer with
      | ok => trivial
      | error error =>
        dsimp only
        split
        · have still := holds.still.cons (x := ⟨.store (.delete copy), .error error⟩) rfl
          have early := early.cons (x := ⟨.store (.delete copy), .error error⟩) (by simp [kind])
          refine (Update.ensures_refresh _).2 ⟨⟨still, holds.key⟩, ?_, fun _ => trivial⟩
          intro r hr
          rw [holds.key] at hr ⊢
          have again := still.got hr
          have early := early.cons (x := ⟨.store (.get (attempting key).key), .ok r⟩)
            (by simp [kind])
          simp only [ensures_get]
          refine ensures_unless ((attempting key).Kept _) (fun _ => ?_) (fun _ => ⟨.refl, again⟩) ?_
          · refine (guard_attempts e.updater again early).mono fun past' result copy' kept => ?_
            cases result with
            | ok => exact kept.1
            | error => trivial
          · rintro past' _ copy' ⟨u', holds'⟩
            exact ⟨holds', early.upkeep u'⟩
        · trivial

/-- The end of a partial teardown: the request for it is cleared. -/
theorem clear_attempts (policy : RetryPolicy) (generation : Nat)
    (holds : (attempting key).Holds past copy) (early : Early past) :
    Session.Ensures (attempting key).Asks (Yields (Continuing key))
      (do
        Update.spec policy fun r =>
          if r.generation = generation then { r with teardownRequested := false } else r
        return if (← get).generation = generation then some Action.done else none)
      copy past := by
  refine Ensures.next (holds.spec_ensures policy (fun c => ?_)
    fun _ _ u _ => editing_of_early (early.upkeep u)) ?_
  · split <;> exact ⟨rfl, rfl⟩
  · rintro past' _ copy' ⟨u, holds'⟩
    simp only [ensures_get, ensures_pure]
    split
    · trivial
    · exact ⟨holds', early.upkeep u⟩

theorem finishPartial_attempts (remaining : Aggregation) (generation : Nat)
    (holds : (attempting key).Holds past copy) (early : Early past) :
    (finishPartial e remaining generation).Ensures (attempting key).Asks
      (Yields (Continuing key)) copy past := by
  simp only [finishPartial, ensures_get]
  split
  · exact clear_attempts e.updater generation holds early
  · next real =>
    simp only [Bool.not_eq_true] at real
    refine (ensures_request _ _).2 ⟨⟨holds.still, trivial⟩, fun now _ => ?_⟩
    have held : heldAt .clock (⟨.now, now⟩ :: past) = some copy :=
      (heldAt_cons_of_eq (x := ⟨.now, now⟩) rfl past).trans holds.read
    have timed := holds.other (x := ⟨.now, now⟩) rfl rfl
    have early := early.cons (x := ⟨.now, now⟩) (by simp [kind])
    refine Ensures.next
      (timed.tracks.status_ensures e.updater fun past' c w u tracks synced => ?_) ?_
    · exact .inr (Credible.upkeep (.remaining early held real) u)
    · rintro past' _ copy' ⟨u, holds'⟩
      exact clear_attempts e.updater generation holds' (early.upkeep u)

theorem teardown_attempts (type : String) (holds : (attempting key).Holds past copy)
    (early : Early past) :
    (teardown e type).Ensures (attempting key).Asks (Yields (Continuing key)) copy past := by
  simp only [teardown, ensures_get]
  split
  · trivial
  · refine (ensures_request _ _).2 ⟨⟨holds.still, trivial⟩, fun now _ => ?_⟩
    have holds := holds.other (x := ⟨.now, now⟩) rfl rfl
    have early := early.cons (x := ⟨.now, now⟩) (by simp [kind])
    split
    · trivial
    · split
      · simp only [pure_bind]
        refine (cutBack_attempts type .empty holds early).next ?_
        rintro past' result copy' ⟨holds', early'⟩
        cases result with
        | none => exact releaseAndDelete_attempts e _ holds' early'
        | some error => exact failure_attempts e _ _ holds'
      · refine (ensures_request _ _).2 ⟨⟨holds.still, trivial⟩, fun result _ => ?_⟩
        have holds := holds.other (x := ⟨.aggregate type copy.sources, result⟩) rfl rfl
        have early := early.cons (x := ⟨.aggregate type copy.sources, result⟩) (by simp [kind])
        cases result with
        | error error => exact failure_attempts e _ _ holds
        | ok remaining =>
          refine (cutBack_attempts type remaining holds early).next ?_
          rintro past' result copy' ⟨holds', early'⟩
          cases result with
          | none => exact finishPartial_attempts e remaining _ holds' early'
          | some error => exact failure_attempts e _ _ holds'

/-- After the last round the version that was read last asks for no teardown. -/
theorem rounds_attempts (type : String) (n : Nat) (holds : (attempting key).Holds past copy)
    (early : Early past) :
    (rounds e key type n).Ensures (attempting key).Asks
      (Yields fun past' action copy' => action = none →
        (attempting key).Holds past' copy' ∧ Early past' ∧ copy'.needsTeardown = false) copy
      past := by
  induction n generalizing past copy with
  | zero => trivial
  | succ n ih =>
    simp only [rounds, ensures_get]
    split
    · refine (teardown_attempts e type holds early).next fun past' action copy' continuing => ?_
      cases action with
      | some action =>
        intro none
        cases none
      | none => exact ih continuing.1 continuing.2
    · next needless => exact fun _ => ⟨holds, early, by simpa using needless⟩

/-! ## Push -/

/-- The version that was read last, after an aggregation of `g` past the teardown. -/
structure Attempting (key : String) (c g : Record) (a : Except SyncError Aggregation)
    (past : List Exchange) (copy : Record) : Prop where
  holds : (attempting key).Holds past copy
  late : ¬ Early past
  screened : Screened past c g
  aggregated : Aggregated past g a

variable {c g : Record} {a : Aggregation}

namespace Attempting

variable {result : Except SyncError Aggregation} {copy' : Record}

theorem other (h : Attempting key c g result past copy) {x : Exchange} (unread : x.read? = none)
    (still : x.isRemoval = false) (hx : x.kind ≠ .aggregation) :
    Attempting key c g result (x :: past) copy :=
  ⟨h.holds.other unread still, late_of_cons h.late, h.screened.cons x, h.aggregated.cons hx⟩

theorem kept (h : Attempting key c g result base copy)
    (kept : (attempting key).Kept base past () copy') : Attempting key c g result past copy' :=
  ⟨kept.2, late_upkeep h.late kept.1, h.screened.upkeep kept.1, h.aggregated.upkeep kept.1⟩

end Attempting

/-- A push that was just answered, with the version that was held then. -/
structure Pushed (past : List Exchange) (copy : Record) (outcome : PushOutcome) : Prop where
  late : ¬ Early past
  held : heldAt .push past = some copy
  answered : ∃ type scope credentials a,
    latest .push past = some ⟨.push type scope credentials a, .ok outcome⟩

theorem push_attempts (type : String) (h : Attempting key c g (.ok a) past copy) :
    (push type a).Ensures (attempting key).Asks
      (Yields fun past' result copy' => (attempting key).Holds past' copy' ∧
        ∀ outcome, result = .ok outcome → Pushed past' copy' outcome) copy past := by
  simp only [push, ensures_get]
  refine (ensures_request _ _).2 ⟨⟨h.holds.still, trivial⟩, fun access _ => ?_⟩
  have h := h.other (x := ⟨.credentials copy.credentialsRef, access⟩) rfl rfl (by simp [kind])
  cases access with
  | error error => exact ⟨h.holds, fun _ pushed => by cases pushed⟩
  | ok credentials =>
    refine ⟨⟨h.holds.still, c, g, h.screened, h.aggregated⟩, fun answer _ => ?_⟩
    have h' := h.other (x := ⟨.push type copy.scopeIds credentials a, answer⟩) rfl rfl
      (by simp [kind])
    refine ⟨h'.holds, ?_⟩
    rintro outcome rfl
    refine ⟨h'.late, ?_, type, copy.scopeIds, credentials, a, rfl⟩
    exact (heldAt_cons_of_eq
      (x := ⟨.push type copy.scopeIds credentials a, .ok outcome⟩) rfl _).trans
      h.holds.read

theorem migrate_attempts (policy : RetryPolicy) (id : String)
    (holds : (attempting key).Holds past copy) (late : ¬ Early past)
    (held : heldAt .push past = some copy) (pending : copy.isPending = true)
    (real : Pending.isPlaceholder id = false) :
    (Update.migrate policy id).Ensures (attempting key).Asks
      (fun past' result copy' => match result with
        | .ok _ => (attempting key).Holds past' copy' ∧ ¬ Early past' ∧
            heldAt .push past' = some copy ∧ EditedSince past'
        | .error _ => ∃ v, (attempting key).Tracks past' copy' v) copy past := by
  have pushed {past' : List Exchange} (u : Upkeep past past') :
      heldAt .push past' = some copy := (u.heldAt_eq (by decide)).trans held
  simp only [Update.migrate, ensures_get]
  split
  · next same =>
    rw [← same] at real
    cases real.symm.trans pending
  · refine holds.ensures_editing policy (fun _ => ⟨rfl, rfl⟩)
      (fun past' c u _ _ => ⟨copy, pushed u, pending⟩) ?_ ?_
    · intro past' c token r u holds' hr
      have kept := holds'.still.refreshed u .spec { c with externalId := id } token hr
      refine ⟨kept.2, late_upkeep late kept.1, pushed kept.1, [_], _, token, past', rfl, ?_,
        late_upkeep late u⟩
      exact (pushed u).trans (pushed kept.1).symm
    · rintro past' c copy' _ u holds' (rfl | rfl)
      · exact ⟨_, holds'.tracks⟩
      · exact ⟨c, holds'.read, holds'.key, holds'.still, rfl⟩

theorem adopt_attempts (outcome : PushOutcome) (holds : (attempting key).Holds past copy)
    (pushed : Pushed past copy outcome) :
    (adopt e outcome).Ensures (attempting key).Asks
      (Yields fun past' action copy' => action = none →
        (attempting key).Holds past' copy' ∧ ¬ Early past' ∧ Credible past') copy past := by
  have unnamed (none : ∀ id, outcome.externalId = some id → Pending.isPlaceholder id = true) :
      Unnamed past := by
    obtain ⟨type, scope, credentials, a, answered⟩ := pushed.answered
    exact ⟨type, scope, credentials, a, outcome, answered, none⟩
  simp only [adopt, ensures_get]
  split
  · next id named =>
    split
    · next adopts =>
      simp only [Bool.and_eq_true, Bool.not_eq_true'] at adopts
      rw [ensures_bind, ensures_attempt]
      refine (migrate_attempts e.updater id holds pushed.late pushed.held adopts.1 adopts.2).mono
        fun past' result copy' known => ?_
      cases result with
      | ok =>
        obtain ⟨holds', late, held, entered⟩ := known
        exact fun _ => ⟨holds', late, .pushed late held (.inr (.inl entered))⟩
      | error error =>
        obtain ⟨v, tracks⟩ := known
        simp only [continues_ok]
        split
        · trivial
        · rw [ensures_map]
          refine (fail_attempts e _ _ tracks).mono ?_
          intro _ result _ _
          cases result with
          | ok =>
            intro none
            cases none
          | error => trivial
    · next keeps =>
      refine fun _ => ⟨holds, pushed.late, .pushed pushed.late pushed.held ?_⟩
      cases pending : copy.isPending with
      | false => exact .inl rfl
      | true =>
        refine .inr (.inr (unnamed fun id' named' => ?_))
        obtain rfl := Option.some.inj (named.symm.trans named')
        simpa [pending] using keeps
  · next none =>
    refine fun _ => ⟨holds, pushed.late, .pushed pushed.late pushed.held ?_⟩
    refine .inr (.inr (unnamed ?_))
    intro id named
    cases none.symm.trans named

theorem complete_attempts (outcome : PushOutcome) (holds : (attempting key).Holds past copy)
    (pushed : Pushed past copy outcome) :
    (complete e a outcome).Ensures (attempting key).Asks (Yields fun _ _ _ => True) copy past := by
  unfold complete
  refine (adopt_attempts e outcome holds pushed).next fun past action copy adopted => ?_
  cases action with
  | some action => trivial
  | none =>
    obtain ⟨holds, late, credible⟩ := adopted rfl
    simp only [ensures_get]
    refine (ensures_request _ _).2 ⟨⟨holds.still, trivial⟩, fun now _ => ?_⟩
    have timed := holds.other (x := ⟨.now, now⟩) rfl rfl
    have credible := credible.cons (x := ⟨.now, now⟩) (by simp [kind])
      fun early => absurd early late
    refine Ensures.next (timed.tracks.status_ensures e.updater ?_) fun _ _ _ _ => trivial
    intro past' _ _ u _ _
    exact .inr (credible.upkeep u)

theorem syncing_attempts (type : String) (h : Attempting key c g (.ok a) past copy) :
    Session.Ensures (attempting key).Asks (Yields fun _ _ _ => True)
      (do
        Update.status e.updater fun r => { r.status with phase := .syncing }
        match ← push type a with
        | .ok outcome => complete e a outcome
        | .error error => fail e error.category error.text)
      copy past := by
  refine Ensures.next (h.holds.tracks.status_ensures e.updater ?_) ?_
  · intro _ _ _ _ _ synced
    cases synced
  · intro past' _ copy' kept
    refine (push_attempts type (h.kept kept)).next fun past result copy pushed => ?_
    cases result with
    | ok outcome => exact complete_attempts e outcome pushed.1 (pushed.2 outcome rfl)
    | error error => exact fail_attempts e _ _ pushed.1.tracks

theorem synchronise_attempts (type : String) (holds : (attempting key).Holds past copy)
    (early : Early past) (needless : copy.needsTeardown = false) :
    (synchronise e key type).Ensures (attempting key).Asks (Yields fun _ _ _ => True) copy
      past := by
  have tested := holds.read
  unfold synchronise
  refine (guard_attempts e.updater holds early).next fun guarded _ copy' led => ?_
  obtain ⟨⟨u, holds'⟩, spared⟩ := led
  have spared (guards : copy.pendingTeardown = true) : guarded = past ∧ copy' = copy := by
    obtain rfl := spared guards
    exact ⟨rfl, Option.some.inj (holds'.read.symm.trans tested)⟩
  simp only [ensures_get]
  split
  · trivial
  · simp only [ensures_get]
    refine ensures_when (fun past' u' copy'' => (attempting key).Kept past past' u' copy'' ∧
      (copy.pendingTeardown = true → copy.status.phase ≠ .failed → past' = past)) (fun failed => ?_)
      (fun _ => ⟨⟨u, holds'⟩, fun guards _ => (spared guards).1⟩) ?_
    · refine (holds'.tracks.status_ensures e.updater fun _ _ _ _ _ synced => ?_).mono
        fun past' result copy'' kept => ?_
      · cases synced
      · cases result with
        | ok =>
          refine ⟨⟨u.trans kept.1, kept.2⟩, fun guards other => ?_⟩
          rw [(spared guards).2] at failed
          exact absurd failed other
        | error => trivial
    · rintro past' _ copy'' ⟨⟨u, holds⟩, same⟩
      refine (ensures_request _ _).2 ⟨⟨holds.still, trivial⟩, fun busy _ => ?_⟩
      have late := late_cons key busy past'
      have screened : Screened (⟨.coalescing key, busy⟩ :: past') copy copy'' :=
        ⟨needless, [], key, busy, past', past, rfl, u, tested, holds.read, same⟩
      have holds := holds.other (x := ⟨.coalescing key, busy⟩) rfl rfl
      split
      · trivial
      · simp only [ensures_get]
        refine (ensures_request _ _).2 ⟨⟨holds.still, trivial⟩, fun result _ => ?_⟩
        have attempting : Attempting key copy copy'' result _ copy'' :=
          ⟨holds.other (x := ⟨.aggregate type copy''.sources, result⟩) rfl rfl, late_of_cons late,
            screened.cons _, aggregated_cons type result holds.read⟩
        cases result with
        | error error => exact fail_attempts e _ _ attempting.holds.tracks
        | ok a =>
          dsimp only
          split
          · trivial
          · refine (ensures_request _ _).2 ⟨⟨attempting.holds.still, trivial⟩, fun now _ => ?_⟩
            have attempting := attempting.other (x := ⟨.now, now⟩) rfl rfl (by simp [kind])
            split
            · trivial
            · exact syncing_attempts e type attempting

theorem run_attempts (holds : (attempting key).Holds past copy) (early : Early past) :
    (run e key).Ensures (attempting key).Asks (Yields fun _ _ _ => True) copy past := by
  simp only [run, ensures_get]
  split
  · refine (rounds_attempts e _ _ holds early).next fun past' action copy' rounded => ?_
    cases action with
    | some action => trivial
    | none =>
      obtain ⟨holds', early', needless⟩ := rounded rfl
      exact synchronise_attempts e _ holds' early' needless
  · simp only [unknownType, ensures_get]
    split
    · trivial
    · exact fail_attempts e _ _ holds.tracks

end Pass

/-- What a pass writes or pushes goes by the versions that it has held. -/
theorem Engine.reconcile_attempts (e : Engine) (key : String) :
    (e.reconcile key).Ensures (Pass.attempting key).Asks (fun _ _ => True) [] := by
  unfold Engine.reconcile
  rw [Program.ensures_request]
  have still : Protocol.Open [] := fun _ h => by cases h
  have early : Pass.Early [] := fun _ h => by cases h
  refine ⟨⟨still, rfl⟩, fun a honest => ?_⟩
  cases a with
  | ok r =>
    dsimp only
    rw [Program.ensures_bind, Program.ensures_map]
    have early := early.cons (x := ⟨.store (.get key), .ok r⟩) (by simp [Exchange.kind])
    refine Program.Ensures.mono (Pass.run_attempts e (still.got honest) early) ?_
    rintro past ⟨result, _⟩ _
    cases result <;> trivial
  | error error => trivial

theorem Job.attempts {j : Job} {key : String} (pass : j.passes key = true) :
    j.program.Ensures (Pass.attempting key).Asks (fun _ _ => True) [] := by
  cases j with
  | reconcile e k =>
    obtain rfl : k = key := of_decide_eq_true pass
    exact e.reconcile_attempts k
  | register | unregister | requestDeletion => cases pass

theorem Run.attempted {faulty : StoreError → Prop} {jobs : Nat → Job} {start m : Memory}
    {earlier : List Move} {mv : Move} {key : String}
    (run : Run faulty (Job.crew jobs) start (mv :: earlier) m) (h : start.Sound)
    (pass : (jobs mv.member).passes key = true) :
    (Pass.attempting key).Allows (own mv.member earlier) mv.exchange.request :=
  (run.asked h rfl (Job.attempts pass)).2

end Tributary
