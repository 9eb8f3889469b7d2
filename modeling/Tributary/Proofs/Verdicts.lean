import Tributary.Proofs.Recording

/-!
# What a pass says about failures

As long as the store can be relied on, a pass enters whatever has failed into the record, and says
what the record says (`Engine.reconcile_records`). Along the way it is seen that a pass that began
with the guard gives it up for nothing but a deletion: only a version that was read because the
deletion was refused may be without it.
-/

namespace Tributary

namespace Pass

open Exchange (kind)
open Session (Becomes amid_bind amid_request amid_attempt amid_when amid_unless amid_get)
open Update (written)

variable {faulty : StoreError → Prop} {key : String} {attempts : Nat} {began : Prop} {b : Backoff}
  {past : List Exchange} {copy : Record} {v w : Option Record} {category : Category}
  {reason : String} {x : Exchange} (e : Engine)

/-! ## Teardown -/

/-- Nothing has failed so far, and the pass has not got past its teardown. If it began with the
guard, only a version that is to be deleted has lost it. -/
structure Begun (attempts : Nat) (key : String) (began : Prop) (past : List Exchange)
    (copy : Record) (v : Option Record) : Prop where
  current : Current key past copy v
  early : Early past
  undefeated : Undefeated attempts past
  guarded : began → copy.pendingTeardown = !rereadForRemoval past
  abandoned : began → rereadForRemoval past = true → copy.abandoned = true

theorem Begun.others (h : Begun attempts key began past copy v) (others : Others v w) :
    Begun attempts key began past copy w :=
  { h with current := h.current.others others }

/-- The rule for requests that leave the record alone and do not fail. -/
theorem Begun.asked (h : Begun attempts key began past copy v) (unread : x.read? = none)
    (uncommitted : x.isCommit = false) (quiet : x.kind ≠ .quiet)
    (fine : ∀ category reason, ¬ Setback attempts (x :: past) category reason) :
    Begun attempts key began (x :: past) copy v where
  current := h.current.asked unread uncommitted
  early := h.early.cons quiet
  undefeated := h.undefeated.cons fine
  guarded := by
    rw [reread_of_unread unread]
    exact h.guarded
  abandoned := by
    rw [reread_of_unread unread]
    exact h.abandoned

/-- The last exchange is all that has failed. -/
theorem Begun.failing (h : Begun attempts key began past copy v) (unread : x.read? = none)
    (uncommitted : x.isCommit = false)
    (only : ∀ c r, Setback attempts (x :: past) c r → c = category ∧ r = reason) :
    Current key (x :: past) copy v ∧
      Attributed attempts began (x :: past) category reason copy.status v := by
  have current := h.current.asked unread uncommitted
  refine ⟨current, current.attributed h.undefeated (fun began _ => ?_) only⟩
  rw [reread_of_unread unread]
  exact h.guarded began

/-- A version that was read again with the guard. -/
theorem Changed.begun {base : List Exchange} (h : Changed attempts key base past copy v)
    (early : Early base) (guarded : began → copy.pendingTeardown = true) :
    Begun attempts key began past copy v where
  current := h.current
  early := early.upkeep h.upkeep
  undefeated := h.undefeated
  guarded := by
    rw [h.reread]
    exact guarded
  abandoned _ reread := by
    rw [h.reread] at reread
    cases reread

theorem guard_records (began : Prop) (early : Early past) (current : Current key past copy v)
    (undefeated : Undefeated e.updater.maxAttempts past)
    (guarded : began → copy.pendingTeardown = true → rereadForRemoval past = false) :
    (Update.guard e.updater).Amid (beside faulty key)
      (Becomes (Quits e.updater.maxAttempts) fun past' _ copy' v' =>
        Begun e.updater.maxAttempts key began past' copy' v') copy past v := by
  simp only [Update.guard, amid_get]
  split
  · next guards =>
    refine ⟨current, early, undefeated, fun began => ?_, fun began reread => ?_⟩
    · simp [guarded began guards, guards]
    · simp [guarded began guards] at reread
  · refine (current.changing (P := fun _ => True) (Q := (·.pendingTeardown = true)) e.updater .spec
      _ (fun _ => ⟨rfl, rfl⟩) (.inl early) (fun _ _ _ _ => trivial)
      (fun c w guards grows => grows.guard.trans guards) (fun _ _ _ _ => rfl) undefeated
      trivial).weaken fun past' _ copy' v' changed => ?_
    exact changed.1.begun early fun _ => changed.2

/-- What is known after a round of teardown: the failure was entered or there was none, or the pass
goes on. -/
def Rounded (attempts : Nat) (b : Backoff) (key : String) (began : Prop) (past : List Exchange) :
    Option Action → Record → Option Record → Prop
  | some action, _, v => Met attempts b began past action v
  | none, copy, v => Begun attempts key began past copy v

/-- A failure that was just met in a round of teardown. -/
theorem failed_records (category : Category) (reason : String) (current : Current key past copy v)
    (attributed : Attributed e.updater.maxAttempts began past category reason copy.status v) :
    (some <$> fail e category reason).Amid (beside faulty key)
      (Becomes (Quits e.updater.maxAttempts)
        (Rounded e.updater.maxAttempts e.backoff key began)) copy past v := by
  exact (fail_records e category reason current.key attributed).map fun _ _ _ _ met => met

theorem cutBack_records (type : String) (remaining : Aggregation)
    (h : Begun attempts key began past copy v) :
    (cutBack type remaining).Amid (beside faulty key)
      (Becomes (Quits attempts) fun past' result copy' v' => copy' = copy ∧ match result with
        | none => Begun attempts key began past' copy v'
        | some error => Current key past' copy v' ∧ Attributed attempts began past' error.category
            ("teardown failed: " ++ error.text) copy.status v') copy past v := by
  simp only [cutBack, amid_get]
  split
  · exact ⟨rfl, h⟩
  · refine request_beside (fun _ => rfl) fun access v others => ?_
    have h := h.others others
    cases access with
    | error error =>
      cases missing : error.isNotFound with
      | true =>
        simp only [missing, if_true]
        refine ⟨rfl, h.asked rfl rfl (by simp [kind]) fun _ _ setback => ?_⟩
        cases setback with
        | access late => exact late h.early
        | teardownAccess _ found => cases missing.symm.trans found
      | false =>
        simp only [missing, Bool.false_eq_true, if_false]
        refine ⟨rfl, h.failing rfl rfl fun _ _ setback => ?_⟩
        cases setback with
        | access late => exact absurd h.early late
        | teardownAccess => exact ⟨rfl, rfl⟩
    | ok credentials =>
      have h := h.asked (x := ⟨.credentials copy.credentialsRef, .ok credentials⟩) rfl rfl
        (by simp [kind]) fun _ _ setback => by cases setback
      dsimp only
      refine request_beside (fun _ => rfl) fun answer v others => ?_
      have h := h.others others
      cases answer with
      | ok =>
        exact ⟨rfl, h.asked rfl rfl (by simp [kind]) fun _ _ setback => by cases setback⟩
      | error error =>
        cases missing : error.isNotFound with
        | true =>
          simp only [missing, if_true]
          refine ⟨rfl, h.asked rfl rfl (by simp [kind]) fun _ _ setback => ?_⟩
          cases setback with
          | teardown found => cases missing.symm.trans found
        | false =>
          simp only [missing, Bool.false_eq_true, if_false]
          refine ⟨rfl, h.failing rfl rfl fun _ _ setback => ?_⟩
          cases setback
          exact ⟨rfl, rfl⟩

/-- A version that was given back for its deletion, unless its generation has risen since. -/
structure Released (generation : Nat) (c : Record) : Prop where
  older : generation ≤ c.generation
  released : c.generation = generation → c.pendingTeardown = false

theorem Released.grown {generation : Nat} {c w : Record} (h : Released generation c)
    (grows : c.GrowsInto w) : Released generation w := by
  have older := h.older
  have later := grows.older
  refine ⟨by omega, fun same => ?_⟩
  rw [grows.guard]
  exact h.released (by omega)

theorem releaseAndDelete_records (h : Begun e.updater.maxAttempts key began past copy v) :
    (releaseAndDelete e copy.generation).Amid (beside faulty key)
      (Becomes (Quits e.updater.maxAttempts)
        (Rounded e.updater.maxAttempts e.backoff key began)) copy past v := by
  simp only [releaseAndDelete, amid_get]
  refine amid_when (fun past' _ copy' v' => Early past' ∧ Current key past' copy' v' ∧
    Undefeated e.updater.maxAttempts past' ∧ Released copy.generation copy' ∧
      (copy'.generation ≠ copy.generation → rereadForRemoval past' = false)) (fun _ => ?_)
    (fun unguarded => ⟨h.early, h.current, h.undefeated,
      ⟨Nat.le_refl _, fun _ => by simpa using unguarded⟩, fun other => absurd rfl other⟩) ?_
  · refine (h.current.changing (P := (copy.generation ≤ ·.generation))
      (Q := Released copy.generation) e.updater .spec _ (fun c => ?_) (.inl h.early)
      (fun c w older grows => Nat.le_trans older grows.older) (fun _ _ => Released.grown)
      (fun c token now older => ?_) h.undefeated (Nat.le_refl _)).weaken
      fun past' _ copy' v' led => ?_
    · dsimp only
      split <;> exact ⟨rfl, rfl⟩
    · dsimp only
      split
      · exact ⟨older, fun _ => rfl⟩
      · next other => exact ⟨older, fun same => absurd same other⟩
    · obtain ⟨changed, released⟩ := led
      exact ⟨h.early.upkeep changed.upkeep, changed.current, changed.undefeated, released,
        fun _ => changed.reread⟩
  · rintro past' _ copy' v' ⟨early, current, undefeated, released, unread⟩
    simp only [amid_get]
    split
    · next other =>
      exact (guard_records e began early current undefeated fun _ _ => unread other).next
        fun _ _ _ _ begun => begun
    · next same =>
      have unguarded := released.released (Decidable.not_not.1 same)
      simp only [amid_get]
      rw [amid_request]
      intro v₁ answer v₂ others _ turns
      refine ⟨trivial, ?_⟩
      have fine (answer : Except StoreError Unit) :=
        undefeated.cons (x := ⟨.store (.delete copy'), answer⟩) fun _ _ setback => by cases setback
      cases answer with
      | ok => exact (fine (.ok ())).met
      | error error =>
        obtain rfl := turns.same rfl
        have current := (current.others others).asked
          (x := ⟨.store (.delete copy'), .error error⟩) rfl rfl
        have early := early.cons (x := ⟨.store (.delete copy'), .error error⟩) (by simp [kind])
        dsimp only
        split
        · refine refresh_beside current.key (fun r hr moved => ?_)
            fun error v steady => absurd steady (unreliable_of_unread key error _)
          obtain ⟨w, rfl, grows⟩ := current.stored
          have again := early.cons (x := ⟨.store (.get key), .ok r⟩) (by simp [kind])
          have undefeated := (fine (.error error)).cons (x := ⟨.store (.get key), .ok r⟩)
            fun _ _ setback => by cases setback
          cases moved with
          | grown grows' =>
            have unguarded : r.pendingTeardown = false :=
              (grows'.guard.trans grows.guard).trans unguarded
            simp only [amid_get]
            refine amid_unless (fun past' _ copy' v' =>
              Begun e.updater.maxAttempts key began past' copy' v') (fun _ => ?_)
              (fun abandoned => ?_) fun _ _ _ _ begun => begun
            · refine guard_records e began again (.got hr _) undefeated fun _ guarded => ?_
              cases unguarded.symm.trans guarded
            · exact ⟨.got hr _, again, undefeated, fun _ => unguarded, fun _ _ => abandoned⟩
        · exact fun _ => fine (.error error)

/-- The rule for updates that leave the guard alone. -/
theorem Begun.changing {β : Type} (half : Half) (change : Record → Record × β)
    (keeps : ∀ c, (change c).1.key = c.key ∧ (change c).1.token = c.token)
    (spares : ∀ c token now,
      (half.merged (change c).1 c token now).pendingTeardown = c.pendingTeardown)
    (h : Begun e.updater.maxAttempts key began past copy v)
    (unread : began → rereadForRemoval past = false) :
    (Update.changing e.updater half change).Amid (beside faulty key)
      (Becomes (Quits e.updater.maxAttempts) fun past' _ copy' v' =>
        Begun e.updater.maxAttempts key began past' copy' v' ∧ rereadForRemoval past' = false)
      copy past v := by
  have start (hb : began) : copy.pendingTeardown = true := by
    rw [h.guarded hb, unread hb]
    rfl
  have grown (c w : Record) (guarded : began → c.pendingTeardown = true) (grows : c.GrowsInto w)
      (hb : began) : w.pendingTeardown = true :=
    grows.guard.trans (guarded hb)
  refine (h.current.changing e.updater half change keeps (.inl h.early) grown grown
    (fun c token now guarded hb => (spares c token now).trans (guarded hb)) h.undefeated
    start).weaken fun past' _ copy' v' led => ?_
  exact ⟨led.1.begun h.early led.2, led.1.reread⟩

/-- The end of a partial teardown: the request for it is cleared. -/
theorem cleared_records (generation : Nat) (h : Begun e.updater.maxAttempts key began past copy v)
    (unread : began → rereadForRemoval past = false) :
    Session.Amid (beside faulty key) (Becomes (Quits e.updater.maxAttempts)
        (Rounded e.updater.maxAttempts e.backoff key began))
      (do
        Update.spec e.updater fun r =>
          if r.generation = generation then { r with teardownRequested := false } else r
        return if (← get).generation = generation then some Action.done else none)
      copy past v := by
  refine (h.changing e .spec _ (fun c => ?_) (fun c token now => ?_) unread).next
    fun past' _ copy' v' led => ?_
  · dsimp only
    split <;> exact ⟨rfl, rfl⟩
  · dsimp only
    split <;> rfl
  · simp only [amid_get]
    split
    · exact led.1.undefeated.met
    · exact led.1

theorem finishPartial_records (remaining : Aggregation) (generation : Nat)
    (h : Begun e.updater.maxAttempts key began past copy v)
    (contributes : copy.abandoned = false) :
    (finishPartial e remaining generation).Amid (beside faulty key)
      (Becomes (Quits e.updater.maxAttempts)
        (Rounded e.updater.maxAttempts e.backoff key began)) copy past v := by
  have unread (hb : began) : rereadForRemoval past = false := by
    cases reread : rereadForRemoval past with
    | false => rfl
    | true => cases contributes.symm.trans (h.abandoned hb reread)
  simp only [finishPartial, amid_get]
  split
  · exact cleared_records e generation h unread
  · refine request_beside (fun _ => rfl) fun now v others => ?_
    have h := (h.others others).asked (x := ⟨.now, now⟩) rfl rfl (by simp [kind])
      fun _ _ setback => by cases setback
    refine (h.changing e .status _ (fun _ => ⟨rfl, rfl⟩) (fun _ _ _ => rfl)
      fun hb => (reread_of_unread rfl).trans (unread hb)).next fun past' _ copy' v' led => ?_
    exact cleared_records e generation led.1 fun _ => led.2

theorem teardown_records (type : String) (h : Begun e.updater.maxAttempts key began past copy v) :
    (teardown e type).Amid (beside faulty key)
      (Becomes (Quits e.updater.maxAttempts)
        (Rounded e.updater.maxAttempts e.backoff key began)) copy past v := by
  simp only [teardown, amid_get]
  split
  · exact h.undefeated.met
  · refine request_beside (fun _ => rfl) fun now v others => ?_
    have h := (h.others others).asked (x := ⟨.now, now⟩) rfl rfl (by simp [kind])
      fun _ _ setback => by cases setback
    split
    · exact h.undefeated.met
    · split
      · simp only [pure_bind]
        refine (cutBack_records type .empty h).next fun past' result copy' v' cut => ?_
        obtain ⟨rfl, cut⟩ := cut
        cases result with
        | none => exact releaseAndDelete_records e cut
        | some error => exact failed_records e _ _ cut.1 cut.2
      · next contributes =>
        simp only [Bool.not_eq_true] at contributes
        refine request_beside (fun _ => rfl) fun result v others => ?_
        have h := h.others others
        cases result with
        | error error =>
          have failing := h.failing (x := ⟨.aggregate type copy.sources, .error error⟩) rfl rfl
            fun _ _ setback => by
              cases setback
              exact ⟨rfl, rfl⟩
          exact failed_records e _ _ failing.1 failing.2
        | ok remaining =>
          have h := h.asked (x := ⟨.aggregate type copy.sources, .ok remaining⟩) rfl rfl
            (by simp [kind]) fun _ _ setback => by cases setback
          refine (cutBack_records type remaining h).next fun past' result copy' v' cut => ?_
          obtain ⟨rfl, cut⟩ := cut
          cases result with
          | none => exact finishPartial_records e remaining _ cut contributes
          | some error => exact failed_records e _ _ cut.1 cut.2

theorem rounds_records (type : String) (n : Nat)
    (h : Begun e.updater.maxAttempts key began past copy v) :
    (rounds e key type n).Amid (beside faulty key)
      (Becomes (Quits e.updater.maxAttempts)
        (Rounded e.updater.maxAttempts e.backoff key began)) copy past v := by
  induction n generalizing past copy v with
  | zero => exact fun _ => h.undefeated
  | succ n ih =>
    simp only [rounds, amid_get]
    split
    · refine (teardown_records e type h).next fun past' action copy' v' rounded => ?_
      cases action with
      | some action => exact rounded
      | none => exact ih rounded
    · exact h

/-! ## Pushing -/

/-- Nothing has failed so far, and the pass has got past its teardown. -/
structure Onward (attempts : Nat) (key : String) (past : List Exchange) (copy : Record)
    (v : Option Record) : Prop where
  current : Current key past copy v
  late : ¬ Early past
  undefeated : Undefeated attempts past

theorem Onward.others (h : Onward attempts key past copy v) (others : Others v w) :
    Onward attempts key past copy w :=
  { h with current := h.current.others others }

theorem Onward.asked (h : Onward attempts key past copy v) (unread : x.read? = none)
    (uncommitted : x.isCommit = false)
    (fine : ∀ category reason, ¬ Setback attempts (x :: past) category reason) :
    Onward attempts key (x :: past) copy v :=
  ⟨h.current.asked unread uncommitted, late_of_cons h.late, h.undefeated.cons fine⟩

theorem Onward.failing (began : Prop) (h : Onward attempts key past copy v)
    (unread : x.read? = none) (uncommitted : x.isCommit = false)
    (only : ∀ c r, Setback attempts (x :: past) c r → c = category ∧ r = reason) :
    Current key (x :: past) copy v ∧
      Attributed attempts began (x :: past) category reason copy.status v := by
  have current := h.current.asked unread uncommitted
  refine ⟨current, current.attributed h.undefeated (fun _ early => ?_) only⟩
  exact absurd early (late_of_cons h.late)

theorem Onward.changed {base : List Exchange} (h : Changed attempts key base past copy v)
    (late : ¬ Early base) : Onward attempts key past copy v :=
  ⟨h.current, late_upkeep late h.upkeep, h.undefeated⟩

theorem push_records (began : Prop) (type : String) (a : Aggregation)
    (h : Onward attempts key past copy v) :
    (push type a).Amid (beside faulty key)
      (Becomes (Quits attempts) fun past' result copy' v' => match result with
        | .ok _ => Onward attempts key past' copy' v' ∧ refusals .spec past' = 0
        | .error error => Current key past' copy' v' ∧
            Attributed attempts began past' error.category error.text copy'.status v')
      copy past v := by
  simp only [push, amid_get]
  refine request_beside (fun _ => rfl) fun access v others => ?_
  have h := h.others others
  cases access with
  | error error =>
    refine h.failing began rfl rfl fun _ _ setback => ?_
    cases setback with
    | access => exact ⟨rfl, rfl⟩
    | teardownAccess early => exact absurd early h.late
  | ok credentials =>
    have h := h.asked (x := ⟨.credentials copy.credentialsRef, .ok credentials⟩) rfl rfl
      fun _ _ setback => by cases setback
    intro v₁ answer v₂ others _ turns
    obtain rfl := turns.same rfl
    refine ⟨trivial, ?_⟩
    have h := h.others others
    cases answer with
    | ok outcome =>
      refine ⟨h.asked rfl rfl fun _ _ setback => ?_, refusals_of_ne (by simp [kind])⟩
      cases setback
    | error error =>
      refine h.failing began rfl rfl fun _ _ setback => ?_
      cases setback
      exact ⟨rfl, rfl⟩

/-- What is known when an identity could not be entered. The record being gone is no failure; the
copy has the new identity in that case, too. -/
structure Unadopted (attempts : Nat) (key : String) (began : Prop) (past : List Exchange)
    (error : SyncError) (copy : Record) (v : Option Record) : Prop where
  key : copy.key = key
  gone : error.isNotFound = true → reliable attempts past = true → Undefeated attempts past
  attributed : error.isNotFound = false → Attributed attempts began past .transient
    ("identity migration failed: " ++ error.message) copy.status v

/-- An identity is being entered, with so many tries left. A refused try has failed if it was the
last one, and for that reason. -/
structure Adopting (attempts : Nat) (key : String) (began : Prop) (past : List Exchange) (n : Nat)
    (copy : Record) (v : Option Record) : Prop where
  current : Current key past copy v
  late : ¬ Early past
  left : refusals .spec past + n = attempts
  undefeated : 0 < n → Undefeated attempts past
  spent : n = 0 → Attributed attempts began past .transient ("identity migration failed: " ++
    (SyncError.retriesExhausted key attempts).message) copy.status v

namespace Adopting

variable {n : Nat} {r : Record} {error : StoreError}

theorem others (h : Adopting attempts key began past n copy v) (others : Others v w) :
    Adopting attempts key began past n copy w :=
  { h with current := h.current.others others, spent := fun none => (h.spent none).others others }

/-- The last exchange is all that has failed. -/
theorem attributed (h : Adopting attempts key began past (n + 1) copy v) (id : String)
    (only : ∀ c r, Setback attempts
      (written .spec { copy with externalId := id } (.error error) :: past) c r →
        c = category ∧ r = reason) :
    Attributed attempts began (written .spec { copy with externalId := id } (.error error) :: past)
      category reason copy.status v :=
  Current.attributed (h.current.asked rfl rfl) (h.undefeated n.succ_pos)
    (fun _ early => absurd early (late_of_cons h.late)) only

/-- After a conflict the record is read again. -/
theorem again (h : Adopting attempts key began past (n + 1) copy v)
    (conflict : error.isConflict = true) (id : String) (delay : Duration) (hr : r.key = key)
    (others : Others v (some r)) :
    Adopting attempts key began (⟨.store (.get key), .ok r⟩ :: ⟨.sleep delay, ()⟩ ::
      written .spec { copy with externalId := id } (.error error) :: past) n r (some r) where
  current := .got hr _
  late := late_of_cons (late_of_cons (late_of_cons h.late))
  left := by
    have left := h.left
    simp only [refusals_get, refusals_sleep, refusals_refused]
    omega
  undefeated := by
    intro more
    have left := h.left
    have wrote := (h.undefeated n.succ_pos).cons
      (x := written .spec { copy with externalId := id } (.error error)) fun _ _ setback => by
        cases setback with
        | migration _ _ other => cases conflict.symm.trans other
        | conflicts _ _ spent => omega
    have slept := wrote.cons (x := ⟨.sleep delay, ()⟩) fun _ _ setback => by cases setback
    exact slept.cons fun _ _ setback => by cases setback
  spent := by
    intro last
    have wrote : Attributed attempts began
        (written .spec { copy with externalId := id } (.error error) :: past) .transient
        ("identity migration failed: " ++ (SyncError.retriesExhausted key attempts).message)
        copy.status v :=
      h.attributed id fun _ _ setback => by
        cases setback with
        | migration _ _ other => cases conflict.symm.trans other
        | conflicts => exact ⟨rfl, by rw [← h.current.key]⟩
    have slept := wrote.cons (x := ⟨.sleep delay, ()⟩) fun _ _ setback => by cases setback
    have read := slept.cons (x := ⟨.store (.get key), .ok r⟩) fun _ _ setback => by cases setback
    exact (read.others others).reread

/-- After another refusal the identity cannot be entered. -/
theorem refused (h : Adopting attempts key began past (n + 1) copy v)
    (other : error.isConflict = false) (id : String) :
    Unadopted attempts key began
      (written .spec { copy with externalId := id } (.error error) :: past) (.store error)
      { copy with externalId := id } v where
  key := h.current.key
  gone := by
    intro gone _
    refine (h.undefeated n.succ_pos).cons fun _ _ setback => ?_
    cases setback with
    | migration _ present => cases gone.symm.trans present
    | conflicts _ conflict => cases conflict.symm.trans other
  attributed := by
    intro _
    refine h.attributed id fun _ _ setback => ?_
    cases setback with
    | migration => exact ⟨rfl, rfl⟩
    | conflicts _ conflict => cases conflict.symm.trans other

end Adopting

theorem migrate_records (began : Prop) (policy : RetryPolicy) (id : String)
    (h : Onward policy.maxAttempts key past copy v) (first : refusals .spec past = 0) :
    (Update.migrate policy id).Amid (beside faulty key)
      (Becomes (Unadopted policy.maxAttempts key began) fun past' _ copy' v' =>
        Onward policy.maxAttempts key past' copy' v') copy past v := by
  simp only [Update.migrate, amid_get]
  split
  · exact h
  · have positive := policy.maxAttempts_pos
    have start : Adopting policy.maxAttempts key began past policy.maxAttempts copy v :=
      ⟨h.current, h.late, by rw [first, Nat.zero_add], fun _ => h.undefeated, fun none => by omega⟩
    refine tries_beside policy .spec _ (Adopting policy.maxAttempts key began)
      (fun _ _ _ _ _ adopting => adopting.others) (fun _ _ _ _ adopting => adopting.current.key)
      ?_ (fun _ _ _ _ _ _ adopting conflict => adopting.again conflict id _)
      (fun _ _ _ _ _ adopting other => adopting.refused other id) ?_ ?_ _ List.suffix_rfl start
    · rintro past' n c w token now r adopting _ hr _
      have wrote := (adopting.undefeated n.succ_pos).cons
        (x := written .spec { c with externalId := id } (.ok token)) fun _ _ setback => by
          cases setback
      have read := wrote.cons (x := ⟨.store (.get key), .ok r⟩) fun _ _ setback => by cases setback
      exact ⟨.got hr _, late_of_cons (late_of_cons adopting.late), read⟩
    · intro past' error c v since hkey
      exact ⟨hkey, fun _ steady => absurd steady (unreliable_of_unread key error past'),
        fun _ => h.undefeated.unread h.late since key error⟩
    · intro past' c v adopting
      refine ⟨adopting.current.key, fun gone => (by cases gone), fun _ => ?_⟩
      rw [adopting.current.key]
      exact adopting.spent rfl

theorem adopt_records (began : Prop) (outcome : PushOutcome)
    (h : Onward e.updater.maxAttempts key past copy v) (first : refusals .spec past = 0) :
    (adopt e outcome).Amid (beside faulty key)
      (Becomes (Quits e.updater.maxAttempts) fun past' action copy' v' => match action with
        | some action => Met e.updater.maxAttempts e.backoff began past' action v'
        | none => Onward e.updater.maxAttempts key past' copy' v') copy past v := by
  simp only [adopt, amid_get]
  split
  · next id _ =>
    split
    · rw [amid_bind, amid_attempt]
      refine (migrate_records began e.updater id h first).mono
        fun past' result copy' v' led => ?_
      cases result with
      | ok => exact led
      | error error =>
        dsimp only [Session.GoesOn]
        split
        · next gone => exact led.gone gone
        · next present =>
          have attributed := led.attributed (by simpa using present)
          exact (fail_records e _ _ led.key attributed).map fun _ _ _ _ met => met
    · exact h
  · exact h

theorem complete_records (a : Aggregation) (outcome : PushOutcome)
    (h : Onward e.updater.maxAttempts key past copy v) (first : refusals .spec past = 0) :
    (complete e a outcome).Amid (beside faulty key) (Meets e began) copy past v := by
  unfold complete
  refine (adopt_records e began outcome h first).next
    fun past action copy v adopted => ?_
  cases action with
  | some action => exact adopted
  | none =>
    simp only [amid_get]
    refine request_beside (fun _ => rfl) fun now v others => ?_
    have h := (adopted.others others).asked (x := ⟨.now, now⟩) rfl rfl
      fun _ _ setback => by cases setback
    exact (h.current.marking e.updater _ h.undefeated).next
      fun past' _ copy' v' changed => changed.undefeated.met

theorem syncing_records (type : String) (a : Aggregation)
    (h : Onward e.updater.maxAttempts key past copy v) :
    Session.Amid (beside faulty key) (Meets e began)
      (do
        Update.status e.updater fun r => { r.status with phase := .syncing }
        match ← push type a with
        | .ok outcome => complete e a outcome
        | .error error => fail e error.category error.text)
      copy past v := by
  refine (h.current.marking e.updater _ h.undefeated).next fun past' _ copy' v' changed => ?_
  refine (push_records began type a (.changed changed h.late)).next
    fun past result copy v pushed => ?_
  cases result with
  | ok outcome => exact complete_records e a outcome pushed.1 pushed.2
  | error error => exact fail_records e _ _ pushed.1.key pushed.2

theorem synchronise_records (type : String)
    (h : Begun e.updater.maxAttempts key began past copy v) :
    (synchronise e key type).Amid (beside faulty key) (Meets e began) copy past v := by
  unfold synchronise
  refine (guard_records e began h.early h.current h.undefeated fun hb guards => ?_).next
    fun past _ copy v h => ?_
  · simpa [guards] using h.guarded hb
  simp only [amid_get]
  split
  · exact h.undefeated.met
  · simp only [amid_get]
    refine amid_when (fun past' _ copy' v' => Current key past' copy' v' ∧
      Undefeated e.updater.maxAttempts past') (fun _ => ?_)
      (fun _ => ⟨h.current, h.undefeated⟩) fun past' _ copy' v' led => ?_
    · exact (h.current.marking e.updater _ h.undefeated).weaken
        fun _ _ _ _ changed => ⟨changed.current, changed.undefeated⟩
    · refine request_beside (fun _ => rfl) fun busy v others => ?_
      have onward : Onward e.updater.maxAttempts key (⟨.coalescing key, busy⟩ :: past') copy' v :=
        ⟨(led.1.others others).asked rfl rfl, late_cons key busy past',
          led.2.cons fun _ _ setback => by cases setback⟩
      split
      · exact onward.undefeated.met
      · simp only [amid_get]
        refine request_beside (fun _ => rfl) fun result v others => ?_
        have onward := onward.others others
        cases result with
        | error error =>
          have failing := onward.failing began
            (x := ⟨.aggregate type copy'.sources, .error error⟩) rfl rfl fun _ _ setback => by
              cases setback
              exact ⟨rfl, rfl⟩
          exact fail_records e _ _ failing.1.key failing.2
        | ok a =>
          have onward := onward.asked (x := ⟨.aggregate type copy'.sources, .ok a⟩) rfl rfl
            fun _ _ setback => by cases setback
          dsimp only
          split
          · exact onward.undefeated.met
          · refine request_beside (fun _ => rfl) fun now v others => ?_
            have onward := (onward.others others).asked (x := ⟨.now, now⟩) rfl rfl
              fun _ _ setback => by cases setback
            split
            · exact onward.undefeated.met
            · exact syncing_records e type a onward

theorem run_records (h : Begun e.updater.maxAttempts key began past copy v) :
    (run e key).Amid (beside faulty key) (Meets e began) copy past v := by
  simp only [run, amid_get]
  split
  · refine (rounds_records e _ _ h).next fun past' action copy' v' rounded => ?_
    cases action with
    | some action => exact rounded
    | none => exact synchronise_records e _ rounded
  · simp only [unknownType, amid_get]
    split
    · exact h.undefeated.met
    · exact fail_records e _ _ h.current.key h.undefeated.attributed

end Pass

/-- The version that was read first had the guard. -/
def Pass.StartsGuarded (past : List Exchange) : Prop :=
  ∃ first ∈ firstRead past, first.pendingTeardown = true

/-- There is something left to do. -/
def Pass.Unfinished (result : Except SyncError Action) : Prop :=
  ∃ action, result = .ok action ∧ action ≠ .done

/-- A pass that could rely on the store has entered whatever has failed, into the status that the
attempt was made with, and has not reported it. So has any other pass whose teardown has failed and
that leaves something to do. -/
def Pass.Discloses (e : Engine) (past : List Exchange) (result : Except SyncError Action)
    (v : Option Record) : Prop :=
  ∀ failed category reason, failed <:+ past →
    Setback e.updater.maxAttempts failed category reason →
      reliable e.updater.maxAttempts past = true ∨ (Early failed ∧ Unfinished result) →
        ∃ action held w, result = .ok action ∧ HeldThen (StartsGuarded past) failed held ∧
          v = some w ∧ Recorded e.backoff held category reason action w

open Pass in
theorem Engine.reconcile_records {faulty : StoreError → Prop} {key : String} {v : Option Record}
    (e : Engine) :
    (e.reconcile key).Amid (beside faulty key) (Discloses e) [] v := by
  unfold Engine.reconcile
  rw [Program.amid_request]
  intro v₁ answer v₂ others _ turns
  refine ⟨trivial, ?_⟩
  cases answer with
  | error error =>
    have undefeated : Undefeated e.updater.maxAttempts [⟨.store (.get key), .error error⟩] :=
      undefeated_nil.cons fun _ _ setback => by cases setback
    exact fun failed c reason earlier setback => absurd setback (undefeated failed c reason earlier)
  | ok r =>
    obtain ⟨rfl, rfl, hr⟩ := turns.found rfl
    have none : Early [] := fun _ h => by cases h
    have undefeated : Undefeated e.updater.maxAttempts [⟨.store (.get key), .ok r⟩] :=
      undefeated_nil.cons fun _ _ setback => by cases setback
    have begun : Begun e.updater.maxAttempts key (r.pendingTeardown = true)
        [⟨.store (.get key), .ok r⟩] r (some r) := by
      refine ⟨.got hr [], none.cons (by simp [Exchange.kind]), undefeated, fun guarded => guarded,
        fun _ reread => ?_⟩
      cases reread
    dsimp only
    rw [Program.amid_bind, Program.amid_map]
    refine Program.Amid.mono (Program.Amid.suffix (run_records e begun)) ?_
    rintro past ⟨result, copy⟩ v ⟨⟨since, rfl⟩, led⟩
    have first : firstRead (since ++ [⟨.store (.get key), .ok r⟩]) = some r := by
      simp [firstRead, Exchange.read?]
    cases result with
    | ok action =>
      intro failed c reason earlier setback evident
      obtain ⟨held, w, before, stored, recorded⟩ :=
        led failed c reason earlier setback (evident.imp_right (·.1))
      refine ⟨action, held, w, rfl, ⟨before.known, ?_⟩, stored, recorded⟩
      rintro ⟨_, same, guarded⟩
      obtain rfl := Option.some.inj (first.symm.trans same)
      exact before.guarded guarded
    | error error =>
      rintro failed c reason earlier setback (steady | ⟨_, action, told, unfinished⟩)
      · exact absurd setback (led steady failed c reason earlier)
      · split at told
        · exact absurd (Except.ok.inj told).symm unfinished
        · cases told

end Tributary
