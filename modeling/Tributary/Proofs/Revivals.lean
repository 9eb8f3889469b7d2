import Tributary.Proofs.Coherence
import Tributary.Proofs.Errands
import Tributary.Proofs.HeldBack

/-!
# Records that are taken up again

A record that has failed is attempted again once its generation has moved on. A push begins with
a clean status then: the failure was forgotten before, and a new one is the first. A teardown has
the same condition but forgets nothing, and counts on from where the record had failed
(`Run.revival_counted`, `aftershock_failed`).
-/

namespace Tributary

namespace Pass

open Exchange (kind)
open Session (Becomes amid_bind amid_request amid_attempt amid_when amid_unless amid_get)
open Update (written)

/-- A status was to be written. -/
def Marked (past : List Exchange) : Prop := ∃ x ∈ past, x.isMark = true

/-- The status with which a pass attempts something, if it began with another one: it was cleared,
or it is what there was. -/
inductive Starts (first : Status) (past : List Exchange) (s : Status) : Prop
  | cleared (marked : Marked past) (clean : s.Clean)
  | leftover (early : Early past) (same : s = first)

/-- Whatever has failed so far was attempted with such a status. -/
def Fine (attempts : Nat) (first : Status) (past : List Exchange) : Prop :=
  ∀ failed category reason held, failed <:+ past → Setback attempts failed category reason →
    known failed = some held → Starts first failed held.status

/-- The copy is stored with such a status, and so it was in every attempt. -/
structure Level (attempts : Nat) (key : String) (first : Status) (past : List Exchange)
    (copy : Record) (v : Option Record) : Prop where
  current : Current key past copy v
  starts : Starts first past copy.status
  fine : Fine attempts first past

variable {faulty : StoreError → Prop} {key : String} {attempts : Nat} {first s : Status}
  {past base : List Exchange} {copy : Record} {v w : Option Record} {x : Exchange} {β : Type}

theorem Marked.cons (h : Marked past) (x : Exchange) : Marked (x :: past) := by
  obtain ⟨y, hy, mark⟩ := h
  exact ⟨y, List.mem_cons_of_mem x hy, mark⟩

theorem marked_written (r : Record) (answer : Except StoreError Nat) (past : List Exchange) :
    Marked (written .status r answer :: past) :=
  ⟨_, List.mem_cons_self, rfl⟩

namespace Starts

theorem cons (h : Starts first past s) (hx : x.kind ≠ .quiet) : Starts first (x :: past) s := by
  cases h with
  | cleared marked clean => exact .cleared (marked.cons x) clean
  | leftover early same => exact .leftover (early.cons hx) same

/-- A pass that gets past its teardown has not left the record as it had failed. -/
theorem quieted (h : Starts first past s) (failed : first.phase = .failed)
    (other : s.phase ≠ .failed) (x : Exchange) : Starts first (x :: past) s := by
  cases h with
  | cleared marked clean => exact .cleared (marked.cons x) clean
  | leftover early same => exact absurd (same ▸ failed) other

theorem clean (h : Starts first past s) (late : ¬ Early past) : s.Clean := by
  cases h with
  | cleared marked clean => exact clean
  | leftover early same => exact absurd early late

end Starts

namespace Fine

theorem cons (h : Fine attempts first past)
    (next : ∀ held, known (x :: past) = some held → Starts first (x :: past) held.status) :
    Fine attempts first (x :: past) := by
  intro failed category reason held earlier setback knows
  obtain rfl | earlier := List.suffix_cons_iff.1 earlier
  · exact next held knows
  · exact h failed category reason held earlier setback knows

/-- As far as the pass knows nothing is stored after a write. -/
theorem wrote (h : Fine attempts first past) (half : Half) (r : Record) (token : Nat) :
    Fine attempts first (written half r (.ok token) :: past) ∧
      known (written half r (.ok token) :: past) = none := by
  have unknown : known (written half r (.ok token) :: past) = none := by cases half <;> rfl
  refine ⟨h.cons fun held knows => ?_, unknown⟩
  cases unknown.symm.trans knows

/-- What enters an outcome is no attempt. -/
theorem entered {q : Request} (h : Fine attempts first past) (enters : q.enters = true)
    (a : q.Answer) : Fine attempts first (⟨q, a⟩ :: past) := by
  intro failed category reason held earlier setback knows
  obtain rfl | earlier := List.suffix_cons_iff.1 earlier
  · cases setback <;> cases enters
  · exact h failed category reason held earlier setback knows

end Fine

namespace Level

theorem others (h : Level attempts key first past copy v) (others : Others v w) :
    Level attempts key first past copy w :=
  { h with current := h.current.others others }

/-- The rule for exchanges that leave the record alone. -/
theorem asked (h : Level attempts key first past copy v) (unread : x.read? = none)
    (uncommitted : x.isCommit = false) (starts : Starts first (x :: past) copy.status) :
    Level attempts key first (x :: past) copy v where
  current := h.current.asked unread uncommitted
  starts := starts
  fine := by
    refine h.fine.cons fun held knows => ?_
    rw [known_of_other unread uncommitted, h.current.known] at knows
    cases knows
    exact starts

/-- The same before the end of the teardown is known. -/
theorem other (h : Level attempts key first past copy v) (unread : x.read? = none)
    (uncommitted : x.isCommit = false) (hx : x.kind ≠ .quiet) :
    Level attempts key first (x :: past) copy v :=
  h.asked unread uncommitted (h.starts.cons hx)

/-- After a write the record is read again. -/
theorem got {r : Record} (fine : Fine attempts first past) (starts : Starts first past r.status)
    (hr : r.key = key) :
    Level attempts key first (⟨.store (.get key), .ok r⟩ :: past) r (some r) where
  current := .got hr past
  starts := starts.cons (by simp [kind])
  fine := by
    refine fine.cons fun held knows => ?_
    cases knows
    exact starts.cons (by simp [kind])

end Level

/-- What has failed so far is all that is known when a pass gives up. -/
abbrev Fares (attempts : Nat) (first : Status)
    (leads : List Exchange → β → Record → Option Record → Prop) :
    List Exchange → Except SyncError β → Record → Option Record → Prop :=
  Becomes (fun past _ _ _ => Fine attempts first past) leads

/-- The same however a pass ends. -/
abbrev Fared (attempts : Nat) (first : Status) :
    List Exchange → Except SyncError β → Record → Option Record → Prop :=
  Fares attempts first fun past _ _ _ => Fine attempts first past

/-! ## Updates -/

/-- The rule for updates, with what the status is known to be afterwards. -/
theorem Level.changing {Q : Status → Prop} (policy : RetryPolicy) (half : Half)
    (change : Record → Record × β)
    (keeps : ∀ c, (change c).1.key = c.key ∧ (change c).1.token = c.token)
    (commit : ∀ past' c token now, Upkeep past past' → Starts first past' c.status →
      Starts first (written half (change c).1 (.ok token) :: past')
        (half.merged (change c).1 c token now).status ∧
      Q (half.merged (change c).1 c token now).status)
    (h : Level attempts key first past copy v) :
    (Update.changing policy half change).Amid (beside faulty key)
      (Fares attempts first fun past' _ copy' v' => Upkeep past past' ∧
        Level attempts key first past' copy' v' ∧ Q copy'.status) copy past v := by
  have refused {past' : List Exchange} {c : Record} {v : Option Record}
      (h : Level attempts key first past' c v) (error : StoreError) :
      Level attempts key first (written half (change c).1 (.error error) :: past') c v :=
    h.other (by simp) (by simp [Except.isOk, Except.toBool]) (by simp)
  have slept {past' : List Exchange} {c : Record} {v : Option Record}
      (h : Level attempts key first past' c v) :
      Level attempts key first (⟨.sleep policy.conflictDelay, ()⟩ :: past') c v :=
    h.other rfl rfl (by simp [kind])
  refine tries_through policy half change
    (fun past' _ c v => Upkeep past past' ∧ Level attempts key first past' c v)
    (fun _ _ _ _ _ h moved => ⟨h.1, h.2.others moved⟩)
    (fun _ _ c _ h => (keeps c).1.trans h.2.current.key) ?_ ?_ ?_ ?_ ?_ ?_ _ ⟨.refl, h⟩
  · rintro past' _ c w token now r ⟨u, level⟩ carried hr grows
    obtain ⟨_, ⟨⟩, grown⟩ := level.current.stored
    obtain rfl := grown.same (carried.symm.trans (keeps c).2)
    obtain ⟨starts, after⟩ := commit past' w token now u level.starts
    rw [← grows.status] at starts after
    exact ⟨(u.step (Update.kind_written half _ _)).step rfl,
      .got (level.fine.wrote half _ token).1 starts hr, after⟩
  · rintro past' _ c v error r ⟨u, level⟩ _ hr moved
    obtain ⟨w, rfl, grown⟩ := level.current.stored
    have slept := slept (refused level error)
    cases moved with
    | grown grows =>
      have same : r.status = c.status := grows.status.trans grown.status
      exact ⟨((u.step (Update.kind_written half _ _)).step rfl).step rfl,
        .got slept.fine (same ▸ slept.starts) hr⟩
  · rintro past' _ c v error ⟨_, level⟩ _
    exact (refused level error).fine
  · rintro past' _ c w token error v ⟨_, level⟩
    obtain ⟨fine, unknown⟩ := level.fine.wrote half (change c).1 token
    refine fine.cons fun held knows => ?_
    rw [known_of_other rfl rfl, unknown] at knows
    cases knows
  · rintro past' _ c v error lost w ⟨_, level⟩
    exact ((slept (refused level error)).other rfl rfl (by simp [kind])).fine
  · rintro past' c v ⟨_, level⟩
    exact level.fine

/-- What is known after a part of a pass that makes no difference to the status. -/
abbrev Levels (attempts : Nat) (key : String) (first : Status) (base : List Exchange) :
    List Exchange → Except SyncError Unit → Record → Option Record → Prop :=
  Fares attempts first fun past _ copy v =>
    Upkeep base past ∧ Level attempts key first past copy v

theorem Level.editing (policy : RetryPolicy) (change : Record → Record)
    (keeps : ∀ c, (change c).key = c.key ∧ (change c).token = c.token)
    (h : Level attempts key first past copy v) :
    (Update.spec policy change).Amid (beside faulty key) (Levels attempts key first past) copy
      past v := by
  refine (h.changing (Q := fun _ => True) policy .spec _ keeps
    fun past' c token now u starts => ⟨?_, trivial⟩).weaken fun _ _ _ _ led => ⟨led.1, led.2.1⟩
  exact starts.cons (by simp)

theorem Level.marking {Q : Status → Prop} (policy : RetryPolicy) (mark : Record → Status)
    (clears : ∀ past' c, Upkeep past past' → Starts first past' c.status →
      (mark c).Clean ∨ mark c = c.status)
    (after : ∀ c, Q (mark c)) (h : Level attempts key first past copy v) :
    (Update.status policy mark).Amid (beside faulty key)
      (Fares attempts first fun past' _ copy' v' => Upkeep past past' ∧
        Level attempts key first past' copy' v' ∧ Q copy'.status) copy past v := by
  refine h.changing policy .status _ (fun _ => ⟨rfl, rfl⟩)
    fun past' c token now u starts => ⟨?_, after c⟩
  show Starts first _ (mark c)
  obtain clean | same := clears past' c u starts
  · exact .cleared (marked_written _ _ _) clean
  · rw [same]
    exact starts.cons (by simp)

theorem guard_fares (policy : RetryPolicy) (h : Level attempts key first past copy v) :
    (Update.guard policy).Amid (beside faulty key) (Levels attempts key first past) copy past
      v := by
  simp only [Update.guard, amid_get]
  split
  · exact ⟨.refl, h⟩
  · exact h.editing policy _ fun _ => ⟨rfl, rfl⟩

variable (e : Engine)

/-- Entering a failure is no attempt. -/
theorem fail_fares (category : Category) (reason : String) (fine : Fine attempts first past) :
    (fail e category reason).Amid (beside faulty key) (Fared attempts first) copy past v := by
  have amid : (fail e category reason).Amid (beside faulty key)
      (fun past' _ _ _ => Fine attempts first past') copy past v :=
    (fail_asks e category reason copy).amid (fun q a past enters fine => fine.entered enters a)
      (fun _ _ _ _ _ => trivial) fine
  refine amid.mono fun past' result copy' v' fine => ?_
  cases result <;> exact fine

/-! ## Teardown -/

/-- What is known after a round of teardown. -/
def Resumed (attempts : Nat) (key : String) (first : Status) (past : List Exchange) :
    Option Action → Record → Option Record → Prop
  | some _, _, _ => Fine attempts first past
  | none, copy, v => Level attempts key first past copy v

theorem failed_fares (category : Category) (reason : String) (fine : Fine attempts first past) :
    (some <$> fail e category reason).Amid (beside faulty key)
      (Fares attempts first (Resumed attempts key first)) copy past v :=
  (fail_fares e category reason fine).map fun _ _ _ _ fine => fine

theorem cutBack_fares (type : String) (remaining : Aggregation)
    (h : Level attempts key first past copy v) :
    (cutBack type remaining).Amid (beside faulty key)
      (Fares attempts first fun past' _ copy' v' => Level attempts key first past' copy' v') copy
      past v := by
  simp only [cutBack, amid_get]
  split
  · exact h
  · refine request_beside (fun _ => rfl) fun access v others => ?_
    have h := (h.others others).other (x := ⟨.credentials copy.credentialsRef, access⟩) rfl rfl
      (by simp [kind])
    cases access with
    | error error => exact h
    | ok credentials =>
      refine request_beside (fun _ => rfl) fun answer v others => ?_
      have h := (h.others others).other
        (x := ⟨.teardown type copy.scopeIds credentials remaining, answer⟩) rfl rfl (by simp [kind])
      cases answer with
      | ok => exact h
      | error error => exact h

theorem releaseAndDelete_fares (generation : Nat) (h : Level attempts key first past copy v) :
    (releaseAndDelete e generation).Amid (beside faulty key)
      (Fares attempts first (Resumed attempts key first)) copy past v := by
  simp only [releaseAndDelete, amid_get]
  refine amid_when (fun past' _ copy' v' => Upkeep past past' ∧
    Level attempts key first past' copy' v') (fun _ => ?_) (fun _ => ⟨.refl, h⟩) ?_
  · refine h.editing e.updater _ fun c => ?_
    split <;> exact ⟨rfl, rfl⟩
  · rintro past' _ copy' v' ⟨_, h⟩
    simp only [amid_get]
    split
    · exact (guard_fares e.updater h).next fun _ _ _ _ led => led.2
    · simp only [amid_get]
      rw [amid_request]
      intro v₁ answer v₂ others _ turns
      refine ⟨trivial, ?_⟩
      cases answer with
      | ok =>
        refine h.fine.cons fun held knows => ?_
        cases knows
      | error error =>
        obtain rfl := turns.same rfl
        have h := (h.others others).other (x := ⟨.store (.delete copy'), .error error⟩) rfl rfl
          (by simp [kind])
        dsimp only
        split
        · refine refresh_beside h.current.key (fun r hr moved => ?_) fun error v => ?_
          · obtain ⟨w, rfl, grows⟩ := h.current.stored
            cases moved with
            | grown grows' =>
              have same : r.status = copy'.status := grows'.status.trans grows.status
              have read : Level attempts key first _ r (some r) :=
                .got h.fine (same ▸ h.starts) hr
              simp only [amid_get]
              refine amid_unless (fun past' _ copy' v' => Level attempts key first past' copy' v')
                (fun _ => ?_) (fun _ => read) fun _ _ _ _ h => h
              exact (guard_fares e.updater read).weaken fun _ _ _ _ led => led.2
          · exact (h.other (x := ⟨.store (.get key), .error error⟩) rfl rfl (by simp [kind])).fine
        · exact h.fine

/-- The end of a partial teardown: the request for it is cleared. -/
theorem cleared_fares (generation : Nat) (h : Level attempts key first past copy v) :
    Session.Amid (beside faulty key) (Fares attempts first (Resumed attempts key first))
      (do
        Update.spec e.updater fun r =>
          if r.generation = generation then { r with teardownRequested := false } else r
        return if (← get).generation = generation then some Action.done else none)
      copy past v := by
  refine (h.editing e.updater _ fun c => ?_).next fun past' _ copy' v' led => ?_
  · split <;> exact ⟨rfl, rfl⟩
  · simp only [amid_get]
    split
    · exact led.2.fine
    · exact led.2

theorem finishPartial_fares (remaining : Aggregation) (generation : Nat)
    (h : Level attempts key first past copy v) :
    (finishPartial e remaining generation).Amid (beside faulty key)
      (Fares attempts first (Resumed attempts key first)) copy past v := by
  simp only [finishPartial, amid_get]
  split
  · exact cleared_fares e generation h
  · refine request_beside (fun _ => rfl) fun now v others => ?_
    have h := (h.others others).other (x := ⟨.now, now⟩) rfl rfl (by simp [kind])
    refine (h.marking (Q := fun _ => True) e.updater _ (fun past' c _ _ => ?_)
      fun _ => trivial).next fun _ _ _ _ led => cleared_fares e generation led.2.1
    split
    · exact .inl ⟨rfl, rfl, rfl, rfl, rfl⟩
    · exact .inr rfl

theorem teardown_fares (type : String) (h : Level attempts key first past copy v) :
    (teardown e type).Amid (beside faulty key)
      (Fares attempts first (Resumed attempts key first)) copy past v := by
  simp only [teardown, amid_get]
  split
  · exact h.fine
  · refine request_beside (fun _ => rfl) fun now v others => ?_
    have h := (h.others others).other (x := ⟨.now, now⟩) rfl rfl (by simp [kind])
    split
    · exact h.fine
    · split
      · simp only [pure_bind]
        refine (cutBack_fares type .empty h).next fun past' result copy' v' h => ?_
        cases result with
        | none => exact releaseAndDelete_fares e _ h
        | some error => exact failed_fares e _ _ h.fine
      · refine request_beside (fun _ => rfl) fun result v others => ?_
        have h := (h.others others).other (x := ⟨.aggregate type copy.sources, result⟩) rfl rfl
          (by simp [kind])
        cases result with
        | error error => exact failed_fares e _ _ h.fine
        | ok remaining =>
          refine (cutBack_fares type remaining h).next fun past' result copy' v' h => ?_
          cases result with
          | none => exact finishPartial_fares e remaining _ h
          | some error => exact failed_fares e _ _ h.fine

theorem rounds_fares (type : String) (n : Nat) (h : Level attempts key first past copy v) :
    (rounds e key type n).Amid (beside faulty key)
      (Fares attempts first (Resumed attempts key first)) copy past v := by
  induction n generalizing past copy v with
  | zero => exact h.fine
  | succ n ih =>
    simp only [rounds, amid_get]
    split
    · refine (teardown_fares e type h).next fun past' action copy' v' resumed => ?_
      cases action with
      | some action => exact resumed
      | none => exact ih resumed
    · exact h

/-! ## Pushing -/

theorem push_fares (type : String) (a : Aggregation) (h : Level attempts key first past copy v) :
    (push type a).Amid (beside faulty key)
      (Fares attempts first fun past' _ copy' v' => Level attempts key first past' copy' v') copy
      past v := by
  simp only [push, amid_get]
  refine request_beside (fun _ => rfl) fun access v others => ?_
  have h := (h.others others).other (x := ⟨.credentials copy.credentialsRef, access⟩) rfl rfl
    (by simp [kind])
  cases access with
  | error error => exact h
  | ok credentials =>
    intro v₁ answer v₂ others _ turns
    obtain rfl := turns.same rfl
    exact ⟨trivial, (h.others others).other rfl rfl (by simp [kind])⟩

theorem migrate_fares (policy : RetryPolicy) (id : String)
    (h : Level attempts key first past copy v) :
    (Update.migrate policy id).Amid (beside faulty key)
      (Fares attempts first fun past' _ copy' v' => Level attempts key first past' copy' v') copy
      past v := by
  simp only [Update.migrate, amid_get]
  split
  · exact h
  · refine (h.editing policy ({ · with externalId := id }) fun _ => ⟨rfl, rfl⟩).weaken
      fun _ _ _ _ led => ?_
    exact led.2

theorem adopt_fares (outcome : PushOutcome) (h : Level attempts key first past copy v) :
    (adopt e outcome).Amid (beside faulty key)
      (Fares attempts first (Resumed attempts key first)) copy past v := by
  simp only [adopt, amid_get]
  split
  · next id _ =>
    split
    · rw [amid_bind, amid_attempt]
      refine (migrate_fares e.updater id h).mono fun past' result copy' v' led => ?_
      cases result with
      | ok => exact led
      | error error =>
        dsimp only [Session.GoesOn]
        split
        · exact led
        · exact failed_fares e _ _ led
    · exact h
  · exact h

theorem complete_fares (a : Aggregation) (outcome : PushOutcome)
    (h : Level attempts key first past copy v) :
    (complete e a outcome).Amid (beside faulty key) (Fared attempts first) copy past v := by
  unfold complete
  refine (adopt_fares e outcome h).next fun past action copy v resumed => ?_
  cases action with
  | some action => exact resumed
  | none =>
    simp only [amid_get]
    refine request_beside (fun _ => rfl) fun now v others => ?_
    have h := (resumed.others others).other (x := ⟨.now, now⟩) rfl rfl (by simp [kind])
    exact (h.marking (Q := fun _ => True) e.updater _
      (fun _ _ _ _ => .inl ⟨rfl, rfl, rfl, rfl, rfl⟩) fun _ => trivial).next
      fun _ _ _ _ led => led.2.1.fine

theorem syncing_fares (type : String) (a : Aggregation) (h : Level attempts key first past copy v)
    (late : ¬ Early past) :
    Session.Amid (beside faulty key) (Fared attempts first)
      (do
        Update.status e.updater fun r => { r.status with phase := .syncing }
        match ← push type a with
        | .ok outcome => complete e a outcome
        | .error error => fail e error.category error.text)
      copy past v := by
  refine (h.marking (Q := fun _ => True) e.updater _ (fun past' c u starts => .inl ?_)
    fun _ => trivial).next fun past' _ copy' v' led => ?_
  · obtain ⟨count, reason, category, failedAt, next⟩ := starts.clean (late_upkeep late u)
    exact ⟨count, reason, category, failedAt, next⟩
  · refine (push_fares type a led.2.1).next fun past result copy v h => ?_
    cases result with
    | ok outcome => exact complete_fares e a outcome h
    | error error => exact fail_fares e _ _ h.fine

theorem synchronise_fares (type : String) (failed : first.phase = .failed)
    (h : Level attempts key first past copy v) :
    (synchronise e key type).Amid (beside faulty key) (Fared attempts first) copy past v := by
  unfold synchronise
  refine (guard_fares e.updater h).next fun past _ copy v led => ?_
  simp only [amid_get]
  split
  · exact led.2.fine
  · simp only [amid_get]
    refine amid_when (fun past' _ copy' v' => Level attempts key first past' copy' v' ∧
      copy'.status.phase ≠ .failed) (fun _ => ?_) (fun other => ⟨led.2, other⟩)
      fun past' _ copy' v' led => ?_
    · refine (led.2.marking (Q := (·.phase ≠ .failed)) e.updater _
        (fun _ _ _ _ => .inl ⟨rfl, rfl, rfl, rfl, rfl⟩) fun _ => ?_).weaken
        fun _ _ _ _ led => led.2
      simp [Backoff.resetFailed, Status.clearFailure]
    · refine request_beside (fun _ => rfl) fun busy v others => ?_
      -- From here on the status is a clean one: the record is no longer marked as failed, so it
      -- is not as it was when the pass began.
      have starts := led.1.starts.quieted failed led.2 ⟨.coalescing key, busy⟩
      have h := (led.1.others others).asked (x := ⟨.coalescing key, busy⟩) rfl rfl starts
      have late := late_cons key busy past'
      split
      · exact h.fine
      · simp only [amid_get]
        refine request_beside (fun _ => rfl) fun result v others => ?_
        have h := (h.others others).other (x := ⟨.aggregate type copy'.sources, result⟩) rfl rfl
          (by simp [kind])
        have late := late_of_cons (x := ⟨.aggregate type copy'.sources, result⟩) late
        cases result with
        | error error => exact fail_fares e _ _ h.fine
        | ok a =>
          dsimp only
          split
          · exact h.fine
          · refine request_beside (fun _ => rfl) fun now v others => ?_
            have h := (h.others others).other (x := ⟨.now, now⟩) rfl rfl (by simp [kind])
            split
            · exact h.fine
            · exact syncing_fares e type a h (late_of_cons late)

theorem run_fares (failed : first.phase = .failed) (h : Level attempts key first past copy v) :
    (run e key).Amid (beside faulty key) (Fared attempts first) copy past v := by
  simp only [run, amid_get]
  split
  · refine (rounds_fares e _ _ h).next fun past' action copy' v' resumed => ?_
    cases action with
    | some action => exact resumed
    | none => exact synchronise_fares e _ failed resumed
  · simp only [unknownType, amid_get]
    split
    · exact h.fine
    · exact fail_fares e _ _ h.fine

/-- If a record had failed when a pass began, whatever has failed since was attempted with the
status that it had then, or with a clean one. -/
def Revives (attempts : Nat) (past : List Exchange) : Prop :=
  ∀ r, firstRead past = some r → r.status.phase = .failed → Fine attempts r.status past

theorem amid_beside {α : Type} (p : Program α) :
    p.Amid (beside faulty key) (fun _ _ _ => True) past v := by
  induction p generalizing past v with
  | done a => trivial
  | ask q next ih => exact fun v₁ a v₂ _ _ _ => ⟨trivial, ih a⟩

end Pass

open Pass in
theorem Engine.reconcile_revives {faulty : StoreError → Prop} {key : String} {v : Option Record}
    (e : Engine) (attempts : Nat) :
    (e.reconcile key).Amid (beside faulty key) (fun past _ _ => Revives attempts past) [] v := by
  unfold Engine.reconcile
  rw [Program.amid_request]
  intro v₁ answer v₂ others _ turns
  refine ⟨trivial, ?_⟩
  cases answer with
  | error error => exact fun r read => by cases read
  | ok r =>
    obtain ⟨rfl, rfl, hr⟩ := turns.found rfl
    have read (since : List Exchange) :
        firstRead (since ++ [⟨.store (.get key), .ok r⟩]) = some r := by
      simp [firstRead, Exchange.read?]
    have fares : ((run e key).start r).Amid (beside faulty key)
        (fun past _ _ => r.status.phase = .failed → Fine attempts r.status past)
        [⟨.store (.get key), .ok r⟩] (some r) := by
      by_cases failed : r.status.phase = .failed
      · have none : Fine attempts r.status [⟨.store (.get key), .ok r⟩] := by
          intro failed category reason held earlier setback
          obtain rfl | earlier := List.suffix_cons_iff.1 earlier
          · cases setback
          · obtain rfl := List.suffix_nil.1 earlier
            cases setback
        have early : Early [⟨.store (.get key), .ok r⟩] := by simp [Early, Exchange.kind]
        have level : Level attempts key r.status [⟨.store (.get key), .ok r⟩] r (some r) :=
          ⟨.got hr [], .leftover early rfl, none⟩
        refine Program.Amid.mono (run_fares e failed level) fun past result v fine _ => ?_
        obtain ⟨result | error, copy⟩ := result <;> exact fine
      · -- Nothing is said of other records.
        exact Program.Amid.mono (amid_beside _) fun _ _ _ _ failed' => absurd failed' failed
    dsimp only
    rw [Program.amid_bind, Program.amid_map]
    refine Program.Amid.mono (Program.Amid.suffix fares) ?_
    rintro past ⟨result, copy⟩ v ⟨⟨since, rfl⟩, fine⟩
    have revives : Revives attempts (since ++ [⟨.store (.get key), .ok r⟩]) := by
      intro r' first failed
      obtain rfl := Option.some.inj ((read since).symm.trans first)
      exact fine failed
    cases result with
    | ok => exact revives
    | error error =>
      dsimp only
      split <;> exact revives

/-! ## What becomes of a failure -/

/-- A failure was entered as the first one. -/
structure Status.FirstFailure (b : Backoff) (action : Action) (t : Status) : Prop where
  phase : t.phase = .error
  count : t.retryCount = 1
  failedAt : t.failedAt = none
  told : action = .requeue (.ofSecs (min b.baseDelaySecs b.maxDelaySecs))

/-- A failure that may pass was entered as one more than a status has had. -/
structure Status.CountsOn (b : Backoff) (action : Action) (s t : Status) : Prop where
  count : t.retryCount = min (s.retryCount + 1) Backoff.maxCount
  told : (t.retryCount < b.maxRetries ∧ t.phase = .error ∧ t.failedAt = s.failedAt ∧
      action = .requeue (b.delay t.retryCount)) ∨
    (b.maxRetries ≤ t.retryCount ∧ t.phase = .failed ∧ action = .awaitChange)

theorem Backoff.recordFailure_countsOn (b : Backoff) (s : Status) (reason : String)
    (generation : Nat) (now : Instant) :
    s.CountsOn b (b.recordFailure s .transient reason generation now).2.action
      (b.recordFailure s .transient reason generation now).1 := by
  unfold recordFailure
  extract_lets entered secs
  split
  · next again => exact ⟨rfl, .inl ⟨again.2, rfl, rfl, rfl⟩⟩
  · next none_left =>
    have spent : b.maxRetries ≤ entered.retryCount :=
      Nat.le_of_not_lt fun left => none_left ⟨by decide, left⟩
    exact ⟨rfl, .inr ⟨spent, rfl, rfl⟩⟩

theorem Backoff.delay_one {b : Backoff} (word : b.baseDelaySecs ≤ maxWord) :
    b.delay 1 = .ofSecs (min b.baseDelaySecs b.maxDelaySecs) := by
  have doubled : b.baseDelaySecs * Nat.pow 2 (min (1 - 1) 32) = b.baseDelaySecs := Nat.mul_one _
  rw [delay, delaySecs, doubled, Nat.min_eq_right word, Nat.min_comm]

/-- Counted on from nothing. -/
theorem Status.CountsOn.first {b : Backoff} {s t : Status} {action : Action}
    (h : s.CountsOn b action t) (clean : s.Clean) (retries : 1 < b.maxRetries)
    (word : b.baseDelaySecs ≤ Backoff.maxWord) : t.FirstFailure b action := by
  have count : t.retryCount = 1 := by
    rw [h.count, clean.retryCount]
    rfl
  obtain ⟨_, phase, failedAt, told⟩ | ⟨spent, _⟩ := h.told
  · rw [count, Backoff.delay_one word] at told
    exact ⟨phase, count, failedAt.trans clean.failedAt, told⟩
  · omega

namespace Job

/-- What a job over a record that had failed has attempted. -/
def Revives : (j : Job) → List Exchange → j.Result → Option Record → Prop
  | .reconcile e _ => fun past _ _ => Pass.Revives e.updater.maxAttempts past
  | .register .. | .unregister .. | .requestDeletion .. => fun _ _ _ => True

theorem revives {j : Job} {faulty : StoreError → Prop} {key : String} {v : Option Record}
    (pass : j.passes key = true) :
    j.program.Amid (Pass.beside faulty key) j.Revives [] v := by
  cases j with
  | reconcile e k =>
    obtain rfl : k = key := of_decide_eq_true pass
    exact e.reconcile_revives _
  | register | unregister | requestDeletion => cases pass

end Job

theorem Run.revives {faulty : StoreError → Prop} {jobs : Nat → Job} {start m : Memory}
    {history : List Move} {key : String} (run : Run faulty (Job.crew jobs) start history m)
    (h : start.Sound) (alone : OnePassAtATime jobs key history) {i : Nat}
    (latest : latestPass jobs key history = some i) (result : (jobs i).Result)
    (left : (jobs i).program.Leaves (own i history) (.done result)) :
    (jobs i).Revives (own i history) result (m.records.get? key) := by
  refine latest_amid (fun i past result v w revives _ => ?_) (fun _ _ pass => Job.revives pass)
    run h alone latest _ left
  generalize jobs i = j at result revives
  cases j <;> exact revives

open Pass (Setback Unfinished Marked Early)

/-- A record had failed when a pass began, and an attempt of the pass has failed for a reason that
may pass. If something was to be pushed, the attempt was made with a clean status, and the failure
is the first one. A teardown may have been made with the status that there was, and always has been
if no other was written before: then its failure is counted on from there. -/
theorem Run.revival_counted {faulty : StoreError → Prop} {jobs : Nat → Job} {start m : Memory}
    {later earlier : List Move} {mv : Move}
    (run : Run faulty (Job.crew jobs) start (later ++ mv :: earlier) m) (h : start.Sound)
    (key : String) (alone : OnePassAtATime jobs key (later ++ mv :: earlier)) {e : Engine}
    (pass : jobs mv.member = .reconcile e key)
    (latest : latestPass jobs key (later ++ mv :: earlier) = some mv.member)
    {result : Except SyncError Action}
    (ended : (e.reconcile key).Leaves (own mv.member (later ++ mv :: earlier)) (.done result))
    {r : Record} (first : firstRead (own mv.member (later ++ mv :: earlier)) = some r)
    (failed : r.status.phase = .failed) {reason : String}
    (setback : Setback e.updater.maxAttempts (own mv.member (mv :: earlier)) .transient reason)
    (evident : reliable e.updater.maxAttempts (own mv.member (later ++ mv :: earlier)) = true ∨
      (Early (own mv.member (mv :: earlier)) ∧ Unfinished result))
    (retries : 1 < e.backoff.maxRetries) (word : e.backoff.baseDelaySecs ≤ Backoff.maxWord) :
    ∃ action u w, result = .ok action ∧ mv.after.records.get? key = some u ∧
      m.records.get? key = some w ∧ w.status.failureReason = some reason ∧
      ((Marked (own mv.member (mv :: earlier)) ∧ u.status.Clean ∧
          w.status.FirstFailure e.backoff action) ∨
        (Early (own mv.member (mv :: earlier)) ∧ u.status = r.status ∧
          r.status.CountsOn e.backoff action w.status)) := by
  obtain ⟨action, held, w, told, before, stored, recorded⟩ :=
    run.recorded h alone pass latest ended setback evident
  have passes : (jobs mv.member).passes key = true := by simp [pass, Job.passes]
  obtain ⟨u, stored', grows⟩ := run.upto_move.stored_of_known h alone.upto
    (latestPass_cons mv passes earlier) before.known
  have revives := run.revives h alone latest
  rw [pass] at revives
  have fine : Pass.Revives _ _ := revives _ ended
  have attempted : Pass.Starts r.status (own mv.member (mv :: earlier)) held.status := by
    refine fine r first failed _ _ reason held ?_ setback before.known
    rw [own_append]
    exact List.suffix_append ..
  obtain ⟨generation, now, entered, answered⟩ := recorded.entered
  have counted : held.status.CountsOn e.backoff action w.status := by
    rw [entered, answered]
    exact e.backoff.recordFailure_countsOn held.status reason generation now
  refine ⟨action, u, w, told, stored', stored, recorded.fails.named, ?_⟩
  rw [grows.status]
  cases attempted with
  | cleared marked clean => exact .inl ⟨marked, clean, counted.first clean retries word⟩
  | leftover early same => exact .inr ⟨early, same, same ▸ counted⟩

/-- What the downstream has reported when a push or a teardown has failed. -/
def Exchange.downstreamError? : Exchange → Option DownstreamError
  | ⟨.push .., .error error⟩ => some error
  | ⟨.teardown .., .error error⟩ => some error
  | _ => none

theorem Pass.Setback.of_downstreamError? {attempts : Nat} {x : Exchange} {error : DownstreamError}
    (reported : x.downstreamError? = some error) (found : error.isNotFound = false)
    (past : List Exchange) : ∃ reason, Setback attempts (x :: past) error.category reason := by
  unfold Exchange.downstreamError? at reported
  split at reported
  · cases reported
    exact ⟨_, .push⟩
  · cases reported
    exact ⟨_, .teardown found⟩
  · cases reported

/-- A pass that tries twice what may succeed later, and once what it knows nothing about. -/
def Job.hurries : Job :=
  .reconcile { knows := fun _ => true, backoff := { maxRetries := 2, unknownMaxRetries := 1 } } "r"

def returners : Nat → Job := Job.roster [.joins "a", .joins "b", .leaves "b", .hurries, .hurries]

/-- The push fails for a reason that nobody knows. -/
def puzzle (order : List Nat) : Scene (Job.crew returners) :=
  (Scene.opening (Job.crew returners) {}).play { push := .error ⟨.other, "strange answer"⟩ } order

def badGateway : DownstreamError := ⟨.http 502, "bad gateway"⟩

def unreachable : Surroundings := { push := .error badGateway, teardown := .error badGateway }

/-- `b` registers after that, and the next push fails, too. -/
def encore : Scene (Job.crew returners) :=
  (puzzle ([0, 0, 0] ++ List.replicate 13 3)).play unreachable ([1, 1, 1] ++ List.replicate 13 4)

theorem encore_counted :
    ∃ r w, firstRead (own 4 encore.history) = some r ∧ r.status.retryCount = 1 ∧
      encore.memory.records.get? "r" = some w ∧ w.status.phase = .error ∧
      w.status.retryCount = 1 ∧ w.status.failedAt = none := by
  have real : Scene.Real (fun _ => False) {} encore := (Scene.real_play _).play _
  have ended : encore.left 4 = .done (.ok (.requeue (.ofSecs 10))) :=
    Pass.eq_done_of_answer? (by decide +kernel)
  have alone : OnePassAtATime returners "r" encore.history :=
    onePassAtATime_of_sorted (by decide +kernel)
  have latest : latestPass returners "r" encore.history = some 4 := by decide +kernel
  have steady : reliable 5 (own 4 encore.history) = true := by decide +kernel
  have found : (firstRead (own 4 encore.history)).isSome = true := by decide +kernel
  obtain ⟨r, first⟩ := Option.isSome_iff_exists.mp found
  have before : ∀ r ∈ firstRead (own 4 encore.history),
      r.status.phase = .failed ∧ r.status.retryCount = 1 := by decide +kernel
  obtain ⟨failed, count⟩ := before r first
  have pushed : encore.history.any (fun mv => mv.member = 4 ∧ mv.exchange.kind = .push ∧
      mv.exchange.downstreamError? = some badGateway) = true := by decide +kernel
  obtain ⟨mv, hmv, reported⟩ := List.any_eq_true.1 pushed
  obtain ⟨member, push, reported⟩ := of_decide_eq_true reported
  obtain ⟨later, earlier, split⟩ := List.append_of_mem hmv
  have run := real.run
  have left := real.left 4
  refine ⟨r, ?_⟩
  rw [split] at run latest steady left alone first
  rw [ended] at left
  obtain ⟨i, x, old, new⟩ := mv
  obtain rfl : i = 4 := member
  obtain ⟨reason, setback⟩ : ∃ reason, Setback 5 (x :: own 4 earlier) .transient reason :=
    Setback.of_downstreamError? reported rfl _
  rw [← own_cons_self ⟨4, x, old, new⟩ earlier] at setback
  have late : ¬ Early (own 4 (⟨4, x, old, new⟩ :: earlier)) := by
    have asked : (Pass.protocol "r").Allows (own 4 earlier) x.request :=
      (run.upto_move.allowed Memory.sound_empty).2
    rw [own_cons_self ⟨4, x, old, new⟩ earlier]
    refine Pass.late_of_cons ?_
    obtain ⟨q, a⟩ := x
    cases q with
    | push => exact asked.1
    | store c => cases c <;> cases push
    | _ => cases push
  obtain ⟨_, _, w, _, _, stored, _, ⟨_, _, counted⟩ | ⟨early, _⟩⟩ :=
    run.revival_counted Memory.sound_empty "r" alone rfl latest left first failed setback
      (.inl steady) (by decide) (by decide)
  · exact ⟨w, split ▸ first, count, stored, counted.phase, counted.count, counted.failedAt⟩
  · exact absurd early late

/-- Before that `b` has registered, and now it leaves. What is left cannot be torn down. -/
def aftershock : Scene (Job.crew returners) :=
  (puzzle ([0, 0, 0, 1, 1, 1] ++ List.replicate 13 3)).play unreachable
    ([2, 2, 2] ++ List.replicate 8 4)

/-- The record has failed again at once, since its first failure is counted. -/
theorem aftershock_failed :
    Run (fun _ => False) (Job.crew returners) {} aftershock.history aftershock.memory ∧
      OnePassAtATime returners "r" aftershock.history ∧
      reliable 5 (own 4 aftershock.history) = true ∧
      (∃ r, firstRead (own 4 aftershock.history) = some r ∧ r.status.phase = .failed ∧
        r.status.observedGeneration < r.generation) ∧
      (∃ mv ∈ aftershock.history, mv.member = 4 ∧ mv.exchange.kind = .teardown ∧
        mv.exchange.downstreamError? = some badGateway) ∧
      aftershock.left 4 = .done (.ok .awaitChange) ∧
      ∃ w, aftershock.memory.records.get? "r" = some w ∧ w.status.phase = .failed ∧
        w.status.errorCategory = some .transient ∧ w.status.retryCount = 2 := by
  have found : (firstRead (own 4 aftershock.history)).isSome = true := by decide +kernel
  obtain ⟨r, first⟩ := Option.isSome_iff_exists.mp found
  have before : ∀ r ∈ firstRead (own 4 aftershock.history), r.status.phase = .failed ∧
      r.status.observedGeneration < r.generation := by decide +kernel
  have left : (aftershock.memory.records.get? "r").isSome = true := by decide +kernel
  obtain ⟨w, stored⟩ := Option.isSome_iff_exists.mp left
  have after : ∀ w ∈ aftershock.memory.records.get? "r", w.status.phase = .failed ∧
      w.status.errorCategory = some .transient ∧ w.status.retryCount = 2 := by decide +kernel
  exact ⟨((Scene.real_play _).play _).run, onePassAtATime_of_sorted (by decide +kernel),
    by decide +kernel, ⟨r, first, before r first⟩, by decide +kernel,
    Pass.eq_done_of_answer? (by decide +kernel), w, stored, after w stored⟩

end Tributary
