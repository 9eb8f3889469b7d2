import Tributary.Proofs.Setbacks
import Tributary.Proofs.Undisturbed
import Tributary.Proofs.Vouching

/-!
# Entering failures

A failure is entered into the status that the attempt was made with, however often the writing of
the status is refused (`Pass.fail_records`): others may register and withdraw meanwhile, but they
leave the status alone. The rules for the requests and the updates of a pass in their company come
first.
-/

namespace Tributary

/-- What whoever ran a pass is told about a failure. -/
def Backoff.Outcome.action : Backoff.Outcome → Action
  | .retry delay => .requeue delay
  | .failed => .awaitChange

namespace Pass

open Exchange (kind)
open Session (Becomes amid_request amid_get amid_set)
open Update (written kind_written)

/-- A pass over the record of a key, among others that register and withdraw. -/
def beside (faulty : StoreError → Prop) (key : String) : Company where
  key := key
  faulty := faulty
  others := Others
  answers _ := True
  keeps _ _ := True
  keeps_others _ _ := trivial
  keeps_upkeep _ _ := trivial

/-- The copy is stored, but for what others have made of it. -/
structure Current (key : String) (past : List Exchange) (copy : Record) (v : Option Record) :
    Prop where
  known : known past = some copy
  key : copy.key = key
  stored : ∃ w, v = some w ∧ copy.GrowsInto w

/-- When a pass gives up, nothing has failed if it could rely on the store. -/
def Quits (attempts : Nat) (past : List Exchange) (_ : SyncError) (_ : Record)
    (_ : Option Record) : Prop :=
  reliable attempts past = true → Undefeated attempts past

/-- The version that was held when an attempt failed. If the pass began with the guard, the version
has it, unless it was read because a deletion was refused. -/
structure HeldThen (began : Prop) (failed : List Exchange) (held : Record) : Prop where
  known : known failed = some held
  guarded : began → Early failed → held.pendingTeardown = !rereadForRemoval failed

/-- What has failed can be told: for another reason than that the store could not be read. No other
entry than that of an identity can fail for this reason. -/
def Evident (attempts : Nat) (past failed : List Exchange) : Prop :=
  reliable attempts past = true ∨ Early failed

/-- Whatever has failed so far is to be entered for one reason into a status: the one that the
attempt was made with, which is still stored. -/
def Attributed (attempts : Nat) (began : Prop) (past : List Exchange) (category : Category)
    (reason : String) (status : Status) (v : Option Record) : Prop :=
  ∀ failed c r, failed <:+ past → Setback attempts failed c r → Evident attempts past failed →
    c = category ∧ r = reason ∧ ∃ held w, HeldThen began failed held ∧ v = some w ∧
      held.status = status ∧ w.status = status ∧ w.pendingTeardown = held.pendingTeardown ∧
        w.externalId = held.externalId

/-- A failure was entered into the status of the version that was held. -/
structure Recorded (b : Backoff) (held : Record) (category : Category) (reason : String)
    (action : Action) (w : Record) : Prop where
  entered : ∃ generation now,
    w.status = (b.recordFailure held.status category reason generation now).1 ∧
      action = (b.recordFailure held.status category reason generation now).2.action
  guard : w.pendingTeardown = held.pendingTeardown
  identity : w.externalId = held.externalId

/-- Whatever has failed was entered. -/
def Met (attempts : Nat) (b : Backoff) (began : Prop) (past : List Exchange) (action : Action)
    (v : Option Record) : Prop :=
  ∀ failed c r, failed <:+ past → Setback attempts failed c r → Evident attempts past failed →
    ∃ held w, HeldThen began failed held ∧ v = some w ∧ Recorded b held c r action w

variable {faulty : StoreError → Prop} {key : String} {attempts : Nat} {began : Prop} {b : Backoff}
  {past base : List Exchange} {copy : Record} {v w : Option Record} {category : Category}
  {reason : String} {status : Status} {action : Action} {x : Exchange} {β : Type}

theorem Evident.tail {failed : List Exchange} (h : Evident attempts (x :: past) failed) :
    Evident attempts past failed :=
  h.imp_left reliable_tail

theorem Undefeated.met (h : Undefeated attempts past) : Met attempts b began past action v :=
  fun failed c r earlier setback => absurd setback (h failed c r earlier)

theorem Undefeated.attributed (h : Undefeated attempts past) :
    Attributed attempts began past category reason status v :=
  fun failed c r earlier setback => absurd setback (h failed c r earlier)

/-- After the teardown nothing can be told of a store that could not be read. -/
theorem Undefeated.unread (h : Undefeated attempts base) (late : ¬ Early base)
    (since : base <:+ past) (key : String) (error : StoreError) :
    Attributed attempts began (⟨.store (.get key), .error error⟩ :: past) category reason status
      v := by
  rintro failed c r earlier setback (steady | early)
  · exact absurd steady (unreliable_of_unread key error past)
  · have since := since.trans (List.suffix_cons ⟨.store (.get key), .error error⟩ past)
    obtain sooner | later := List.suffix_or_suffix_of_suffix earlier since
    · exact absurd setback (h failed c r sooner)
    · exact absurd (early.suffix later) late

/-- After an update the copy is current again, and it was not read for a deletion. -/
structure Changed (attempts : Nat) (key : String) (base past : List Exchange) (copy : Record)
    (v : Option Record) : Prop where
  upkeep : Upkeep base past
  undefeated : Undefeated attempts past
  reread : rereadForRemoval past = false
  current : Current key past copy v

namespace Current

theorem others (h : Current key past copy v) (others : Others v w) : Current key past copy w := by
  obtain ⟨u, rfl, grows⟩ := h.stored
  cases others with
  | grown grows' => exact ⟨h.known, h.key, _, rfl, grows.trans grows'⟩

theorem asked (h : Current key past copy v) (unread : x.read? = none)
    (uncommitted : x.isCommit = false) : Current key (x :: past) copy v :=
  ⟨(known_of_other unread uncommitted).trans h.known, h.key, h.stored⟩

theorem got {r : Record} (hr : r.key = key) (past : List Exchange) :
    Current key (⟨.store (.get key), .ok r⟩ :: past) r (some r) :=
  ⟨known_of_read rfl, hr, r, rfl, .refl r⟩

end Current

/-- The rule for requests that leave the record alone. -/
theorem request_beside
    {ends : List Exchange → Except SyncError β → Record → Option Record → Prop} {q : Request}
    {f : q.Answer → Session β} (uncommitted : ∀ a, Exchange.isCommit ⟨q, a⟩ = false)
    (rest : ∀ a w, Others v w → (f a).Amid (beside faulty key) ends copy (⟨q, a⟩ :: past) w) :
    (Session.request q >>= f).Amid (beside faulty key) ends copy past v := by
  rw [amid_request]
  intro v₁ a v₂ others _ turns
  obtain rfl := turns.same (uncommitted a)
  exact ⟨trivial, rest a v₂ others⟩

theorem Attributed.others (h : Attributed attempts began past category reason status v)
    (others : Others v w) : Attributed attempts began past category reason status w := by
  intro failed c r earlier setback evident
  obtain ⟨hc, hr, held, u, known, rfl, same, stored, guard, identity⟩ :=
    h failed c r earlier setback evident
  cases others with
  | @grown _ w grows =>
    exact ⟨hc, hr, held, w, known, rfl, same, grows.status.trans stored, grows.guard.trans guard,
      grows.externalId.trans identity⟩

/-- The status can be read again. -/
theorem Attributed.reread {r : Record}
    (h : Attributed attempts began past category reason status (some r)) :
    Attributed attempts began past category reason r.status (some r) := by
  intro failed c reason earlier setback evident
  obtain ⟨hc, hr, held, _, known, ⟨⟩, same, stored, rest⟩ :=
    h failed c reason earlier setback evident
  exact ⟨hc, hr, held, r, known, rfl, same.trans stored.symm, rfl, rest⟩

theorem Attributed.cons (h : Attributed attempts began past category reason status v)
    (fine : ∀ category reason, ¬ Setback attempts (x :: past) category reason) :
    Attributed attempts began (x :: past) category reason status v := by
  intro failed c r earlier setback evident
  obtain rfl | earlier := List.suffix_cons_iff.1 earlier
  · exact absurd setback (fine c r)
  · exact h failed c r earlier setback evident.tail

/-- The last exchange is all that has failed. -/
theorem Current.attributed (h : Current key (x :: past) copy v)
    (undefeated : Undefeated attempts past)
    (guarded : began → Early (x :: past) → copy.pendingTeardown = !rereadForRemoval (x :: past))
    (only : ∀ c r, Setback attempts (x :: past) c r → c = category ∧ r = reason) :
    Attributed attempts began (x :: past) category reason copy.status v := by
  intro failed c r earlier setback _
  obtain rfl | earlier := List.suffix_cons_iff.1 earlier
  · obtain ⟨hc, hr⟩ := only c r setback
    obtain ⟨w, rfl, grows⟩ := h.stored
    exact ⟨hc, hr, copy, w, ⟨h.known, guarded⟩, rfl, rfl, grows.status, grows.guard,
      grows.externalId⟩
  · exact absurd setback (undefeated failed c r earlier)

/-! ## Updates -/

theorem refresh_beside {ends : List Exchange → Except SyncError β → Record → Option Record → Prop}
    {f : Unit → Session β} (hkey : copy.key = key)
    (got : ∀ r, r.key = key → Others v (some r) →
      (f ()).Amid (beside faulty key) ends r (⟨.store (.get key), .ok r⟩ :: past) (some r))
    (unread : ∀ error v, ends (⟨.store (.get key), .error error⟩ :: past) (.error (.store error))
      copy v) :
    (Update.refresh >>= f).Amid (beside faulty key) ends copy past v := by
  subst hkey
  intro v₁ a v₂ others _ turns
  refine ⟨trivial, ?_⟩
  cases a with
  | ok r =>
    obtain ⟨rfl, rfl, hr⟩ := turns.found rfl
    exact got r hr others
  | error error => exact unread error v₂

/-- The rule for updates. `inv` holds before every try, with the number of tries that are left.
The record may have to be read again after it was written (`unread`) or before it is written once
more (`cut`), and that may fail. -/
theorem tries_through
    {ends : List Exchange → Except SyncError β → Record → Option Record → Prop}
    (policy : RetryPolicy) (half : Half) (change : Record → Record × β)
    (inv : List Exchange → Nat → Record → Option Record → Prop)
    (others : ∀ past n c v w, inv past n c v → Others v w → inv past n c w)
    (mine : ∀ past n c v, inv past n c v → (change c).1.key = key)
    (granted : ∀ past n c w token now r, inv past (n + 1) c (some w) →
      (change c).1.token = w.token → r.key = key →
        (half.merged (change c).1 w token now).GrowsInto r →
          ends (⟨.store (.get key), .ok r⟩ :: written half (change c).1 (.ok token) :: past)
            (.ok (change c).2) r (some r))
    (again : ∀ past n c v error r, inv past (n + 1) c v → error.isConflict = true → r.key = key →
      Others v (some r) → inv (⟨.store (.get key), .ok r⟩ :: ⟨.sleep policy.conflictDelay, ()⟩ ::
        written half (change c).1 (.error error) :: past) n r (some r))
    (refused : ∀ past n c v error, inv past (n + 1) c v → error.isConflict = false →
      ends (written half (change c).1 (.error error) :: past) (.error (.store error)) (change c).1
        v)
    (unread : ∀ past n c w token error v, inv past (n + 1) c (some w) →
      ends (⟨.store (.get key), .error error⟩ :: written half (change c).1 (.ok token) :: past)
        (.error (.store error)) (change c).1 v)
    (cut : ∀ past n c v error lost w, inv past (n + 1) c v →
      ends (⟨.store (.get key), .error lost⟩ :: ⟨.sleep policy.conflictDelay, ()⟩ ::
        written half (change c).1 (.error error) :: past) (.error (.store lost)) (change c).1 w)
    (spent : ∀ past c v, inv past 0 c v →
      ends past (.error (.retriesExhausted c.key policy.maxAttempts)) c v)
    (n : Nat) (start : inv past n copy v) :
    (Update.tries policy half change n).Amid (beside faulty key) ends copy past v := by
  induction n generalizing copy past v with
  | zero => exact spent past copy v start
  | succ n ih =>
    unfold Update.tries
    simp only [amid_get, amid_set, Update.amid_put]
    intro v₁ answer v₂ moved _ turns
    refine ⟨trivial, ?_⟩
    have start := others _ _ _ _ _ start moved
    have hkey := mine _ _ _ _ start
    cases answer with
    | ok token =>
      obtain ⟨w, now, rfl, _, current, _, rfl⟩ := turns.wrote hkey
      refine refresh_beside hkey (fun r hr read => ?_)
        fun error v => unread past n copy w token error v start
      cases read with
      | grown grows => exact granted past n copy w token now r start current hr grows
    | error error =>
      obtain rfl := turns.same (by simp [Except.isOk, Except.toBool])
      dsimp only
      split
      · next conflict =>
        intro v₁ _ v₂ moved' _ turns
        obtain rfl := turns.same rfl
        have start := others _ _ _ _ _ start moved'
        refine ⟨trivial, refresh_beside hkey (fun r hr read => ?_)
          fun lost v => cut past n copy v₂ error lost v start⟩
        exact ih (again past n copy v₂ error r start conflict hr read)
      · next other => exact refused past n copy v₂ error start (by simpa using other)

/-- The rule for updates, if nothing but their beginning has to be known when the record could not
be read again. -/
theorem tries_beside
    {ends : List Exchange → Except SyncError β → Record → Option Record → Prop}
    (policy : RetryPolicy) (half : Half) (change : Record → Record × β)
    (inv : List Exchange → Nat → Record → Option Record → Prop)
    (others : ∀ past n c v w, inv past n c v → Others v w → inv past n c w)
    (mine : ∀ past n c v, inv past n c v → (change c).1.key = key)
    (granted : ∀ past n c w token now r, inv past (n + 1) c (some w) →
      (change c).1.token = w.token → r.key = key →
        (half.merged (change c).1 w token now).GrowsInto r →
          ends (⟨.store (.get key), .ok r⟩ :: written half (change c).1 (.ok token) :: past)
            (.ok (change c).2) r (some r))
    (again : ∀ past n c v error r, inv past (n + 1) c v → error.isConflict = true → r.key = key →
      Others v (some r) → inv (⟨.store (.get key), .ok r⟩ :: ⟨.sleep policy.conflictDelay, ()⟩ ::
        written half (change c).1 (.error error) :: past) n r (some r))
    (refused : ∀ past n c v error, inv past (n + 1) c v → error.isConflict = false →
      ends (written half (change c).1 (.error error) :: past) (.error (.store error)) (change c).1
        v)
    (unread : ∀ past error c v, base <:+ past → c.key = key →
      ends (⟨.store (.get key), .error error⟩ :: past) (.error (.store error)) c v)
    (spent : ∀ past c v, inv past 0 c v →
      ends past (.error (.retriesExhausted c.key policy.maxAttempts)) c v)
    (n : Nat) (since : base <:+ past) (start : inv past n copy v) :
    (Update.tries policy half change n).Amid (beside faulty key) ends copy past v := by
  have later (x : Exchange) {past : List Exchange} (since : base <:+ past) : base <:+ x :: past :=
    since.trans (List.suffix_cons x past)
  refine tries_through policy half change (fun past n c v => base <:+ past ∧ inv past n c v)
    (fun past n c v w h moved => ⟨h.1, others past n c v w h.2 moved⟩)
    (fun past n c v h => mine past n c v h.2)
    (fun past n c w token now r h => granted past n c w token now r h.2)
    (fun past n c v error r h conflict hr read =>
      ⟨later _ (later _ (later _ h.1)), again past n c v error r h.2 conflict hr read⟩)
    (fun past n c v error h => refused past n c v error h.2) ?_ ?_
    (fun past c v h => spent past c v h.2) n ⟨since, start⟩
  · intro past n c w token error v h
    exact unread _ error _ v (later _ h.1) (mine past (n + 1) c (some w) h.2)
  · intro past n c v error lost w h
    exact unread _ lost _ w (later _ (later _ h.1)) (mine past (n + 1) c v h.2)

/-- The rule for updates in which nothing can fail, with what is known of the copy before and
after. -/
theorem Current.changing {P Q : Record → Prop} (policy : RetryPolicy) (half : Half)
    (change : Record → Record × β)
    (keeps : ∀ c, (change c).1.key = c.key ∧ (change c).1.token = c.token)
    (early : Early past ∨ half = .status)
    (before : ∀ c w, P c → c.GrowsInto w → P w) (after : ∀ c w, Q c → c.GrowsInto w → Q w)
    (commit : ∀ c token now, P c → Q (half.merged (change c).1 c token now))
    (h : Current key past copy v) (undefeated : Undefeated policy.maxAttempts past)
    (start : P copy) :
    (Update.changing policy half change).Amid (beside faulty key)
      (Becomes (Quits policy.maxAttempts) fun past' _ copy' v' =>
        Changed policy.maxAttempts key past past' copy' v' ∧ Q copy') copy past v := by
  have fine {past' : List Exchange} (u : Upkeep past past') (c : Record)
      (answer : Except StoreError Nat) (category : Category) (reason : String) :
      ¬ Setback policy.maxAttempts (written half c answer :: past') category reason := by
    obtain early | rfl := early
    · exact Setback.not_upkeep (early.upkeep u) (kind_written half c answer)
    · exact Setback.not_status c answer
  have read {past' : List Exchange} (r : Record) (category : Category) (reason : String) :
      ¬ Setback policy.maxAttempts (⟨.store (.get key), .ok r⟩ :: past') category reason := by
    intro setback
    cases setback
  refine tries_beside policy half change (fun past' _ c v => Upkeep past past' ∧
    Undefeated policy.maxAttempts past' ∧ Current key past' c v ∧ P c) ?_ ?_ ?_ ?_ ?_ ?_ ?_ _
    List.suffix_rfl ⟨.refl, undefeated, h, start⟩
  · rintro past' _ c v w ⟨u, fine, current, known⟩ others
    exact ⟨u, fine, current.others others, known⟩
  · rintro past' _ c v ⟨_, _, current, _⟩
    exact (keeps c).1.trans current.key
  · rintro past' _ c w token now r ⟨u, undefeated, current, known⟩ carried hr grows
    obtain ⟨_, ⟨⟩, grown⟩ := current.stored
    obtain rfl := grown.same (carried.symm.trans (keeps c).2)
    have wrote := undefeated.cons (fine u (change w).1 (.ok token))
    refine ⟨⟨(u.step (kind_written half _ _)).step rfl, wrote.cons (read r), ?_, .got hr _⟩,
      after _ r (commit w token now known) grows⟩
    cases half <;> rfl
  · rintro past' _ c v error r ⟨u, undefeated, current, known⟩ _ hr others
    have wrote := undefeated.cons (fine u (change c).1 (.error error))
    have slept := wrote.cons (x := ⟨.sleep policy.conflictDelay, ()⟩) fun _ _ setback => by
      cases setback
    obtain ⟨w, rfl, grown⟩ := current.stored
    cases others with
    | grown grows =>
      exact ⟨((u.step (kind_written half _ _)).step rfl).step rfl, slept.cons (read r), .got hr _,
        before c r known (grown.trans grows)⟩
  · rintro past' _ c v error ⟨u, undefeated, _, _⟩ _
    exact fun _ => undefeated.cons (fine u _ _)
  · exact fun past' error c v _ _ steady => absurd steady (unreliable_of_unread key error past')
  · rintro past' c v ⟨_, undefeated, _, _⟩
    exact fun _ => undefeated

theorem Current.marking (policy : RetryPolicy) (mark : Record → Status)
    (h : Current key past copy v) (undefeated : Undefeated policy.maxAttempts past) :
    (Update.status policy mark).Amid (beside faulty key)
      (Becomes (Quits policy.maxAttempts) fun past' _ copy' v' =>
        Changed policy.maxAttempts key past past' copy' v') copy past v := by
  refine (h.changing (P := fun _ => True) (Q := fun _ => True) policy .status _
    (fun _ => ⟨rfl, rfl⟩) (.inr rfl) (fun _ _ _ _ => trivial) (fun _ _ _ _ => trivial)
    (fun _ _ _ _ => trivial) undefeated trivial).weaken fun _ _ _ _ led => ?_
  exact led.1

/-! ## Entering a failure -/

/-- A failure is being entered, with so many tries left: they and the refusals so far make up all
that are allowed. -/
structure Entering (attempts : Nat) (key : String) (began : Prop) (category : Category)
    (reason : String) (past : List Exchange) (n : Nat) (copy : Record) (v : Option Record) :
    Prop where
  key : copy.key = key
  attributed : Attributed attempts began past category reason copy.status v
  left : refusals .status past + n = attempts

namespace Entering

variable {n : Nat} {made r : Record}

theorem others (h : Entering attempts key began category reason past n copy v)
    (others : Others v w) : Entering attempts key began category reason past n copy w :=
  { h with attributed := h.attributed.others others }

/-- After a conflict the record is read again. -/
theorem again (h : Entering attempts key began category reason past (n + 1) copy v) (made : Record)
    (error : StoreError) (delay : Duration) (hr : r.key = key) (others : Others v (some r)) :
    Entering attempts key began category reason (⟨.store (.get key), .ok r⟩ ::
      ⟨.sleep delay, ()⟩ :: written .status made (.error error) :: past) n r (some r) where
  key := hr
  attributed := by
    have wrote := (h.attributed.others others).cons
      fun _ _ => Setback.not_status made (.error error)
    have slept := wrote.cons (x := ⟨.sleep delay, ()⟩) fun _ _ setback => by cases setback
    have read := slept.cons (x := ⟨.store (.get key), .ok r⟩) fun _ _ setback => by cases setback
    exact read.reread
  left := by
    have left := h.left
    simp only [refusals_get, refusals_sleep, refusals_refused]
    omega

/-- Once it is written, it has been entered into the status that the attempt was made with. -/
theorem entered {token : Nat} {action : Action} {w stored : Record}
    (h : Entering attempts key began category reason past n copy (some w))
    (grows : stored.GrowsInto r) (guard : stored.pendingTeardown = w.pendingTeardown)
    (identity : stored.externalId = w.externalId)
    (status : ∃ generation now,
      stored.status = (b.recordFailure copy.status category reason generation now).1 ∧
        action = (b.recordFailure copy.status category reason generation now).2.action) :
    Met attempts b began (⟨.store (.get key), .ok r⟩ :: written .status made (.ok token) :: past)
      action (some r) := by
  intro failed c reason' earlier setback evident
  obtain rfl | earlier := List.suffix_cons_iff.1 earlier
  · cases setback
  obtain rfl | earlier := List.suffix_cons_iff.1 earlier
  · exact absurd setback (Setback.not_status made (.ok token))
  obtain ⟨rfl, rfl, held, _, known, ⟨⟩, same, _, guard', identity'⟩ :=
    h.attributed failed c reason' earlier setback evident.tail.tail
  refine ⟨held, r, known, rfl, ?_, ?_, ?_⟩
  · rw [grows.status, same]
    exact status
  · rw [grows.guard, guard, guard']
  · rw [grows.externalId, identity, identity']

end Entering

variable (e : Engine)

theorem enter_records (category : Category) (reason : String) (generation : Nat) (now : Instant)
    (h : Entering e.updater.maxAttempts key began category reason past e.updater.maxAttempts copy
      v) :
    Session.Amid (beside faulty key)
      (Becomes (Quits e.updater.maxAttempts) fun past' outcome _ v' =>
        Met e.updater.maxAttempts e.backoff began past' outcome.action v')
      (Update.changing e.updater .status fun r =>
        let (status, outcome) := e.backoff.recordFailure r.status category reason generation now
        ({ r with status }, outcome))
      copy past v := by
  refine tries_beside e.updater .status _
    (Entering e.updater.maxAttempts key began category reason)
    (fun _ _ _ _ _ entering => entering.others) (fun _ _ _ _ entering => entering.key)
    (fun _ _ _ _ _ _ _ entering _ _ grows =>
      entering.entered grows rfl rfl ⟨generation, now, rfl, rfl⟩)
    (fun _ _ _ _ error _ entering _ hr => entering.again _ error _ hr) ?_ ?_ ?_ _ List.suffix_rfl h
  · intro past' n c v error _ other steady
    have steady := (Bool.and_eq_true_iff.1 steady).1
    simp [written, Exchange.isSteady, other] at steady
  · exact fun past' error c v _ _ steady => absurd steady (unreliable_of_unread key error past')
  · intro past' c v entering steady
    have fewer := refusals_lt e.updater.maxAttempts_pos steady
    have left := entering.left
    omega

/-- Unless the pass gives up, whatever has failed is entered. -/
abbrev Meets (e : Engine) (began : Prop) :
    List Exchange → Except SyncError Action → Record → Option Record → Prop :=
  Becomes (Quits e.updater.maxAttempts) fun past action _ v =>
    Met e.updater.maxAttempts e.backoff began past action v

/-- Whatever has failed is entered, into the status as it is stored. The copy may carry an identity
that could not be entered; a status is written without it. -/
theorem fail_records (category : Category) (reason : String) (hkey : copy.key = key)
    (attributed : Attributed e.updater.maxAttempts began past category reason copy.status v) :
    (fail e category reason).Amid (beside faulty key) (Meets e began) copy past v := by
  simp only [fail, amid_get]
  refine request_beside (fun _ => rfl) fun now v others => ?_
  have start : Entering e.updater.maxAttempts key began category reason (⟨.now, now⟩ :: past)
      e.updater.maxAttempts copy v := by
    refine ⟨hkey, (attributed.others others).cons fun _ _ setback => (by cases setback), ?_⟩
    rw [refusals_of_ne (by simp [kind]), Nat.zero_add]
  refine (enter_records e category reason copy.generation now start).next
    fun past' outcome _ v' met => ?_
  cases outcome with
  | retry delay => exact met
  | failed => exact met

end Pass

end Tributary
