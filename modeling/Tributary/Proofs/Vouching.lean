import Tributary.Proofs.Company
import Tributary.Proofs.Teardowns

/-!
# What vouches for a record

A record that is marked as synchronised was either the object of the last call of the downstream,
with a configuration of the hash that is entered, or it still has to be torn down. Every exchange
of a pass preserves this (`Accounted`), whatever others register meanwhile and whatever fails.
So a pass that has nothing left to tear down may rely on the hash (`Engine.reconcile_amid`).
-/

namespace Tributary

/-! ## Attempts -/

namespace Exchange

/-- The downstream was called, or there was no access to it. -/
def isAttempt : Exchange → Bool
  | ⟨.credentials _, .error _⟩ => true
  | ⟨.push .., _⟩ => true
  | ⟨.teardown .., _⟩ => true
  | _ => false

/-- Nothing of the kind was found. -/
def isMissing : Exchange → Bool
  | ⟨.credentials _, .error error⟩ => error.isNotFound
  | ⟨.push .., .error error⟩ => error.isNotFound
  | ⟨.teardown .., .error error⟩ => error.isNotFound
  | _ => false

/-- The downstream has taken a configuration with a hash. -/
inductive Takes (hash : String) : Exchange → Prop
  | pushed {type : String} {scope : Table String} {credentials : Credentials} {a : Aggregation}
      {outcome : PushOutcome} (same : a.hash = hash) :
      Takes hash ⟨.push type scope credentials a, .ok outcome⟩
  | cutBack {type : String} {scope : Table String} {credentials : Credentials} {a : Aggregation}
      (same : a.hash = hash) : Takes hash ⟨.teardown type scope credentials a, .ok ()⟩

/-- What a pass takes as evidence that a configuration with a hash is downstream. -/
inductive Attests (hash : String) : Exchange → Prop
  | takes {x : Exchange} (takes : x.Takes hash) : Attests hash x
  /-- Nothing is left to be cut back. -/
  | gone {type : String} {scope : Table String} {credentials : Credentials} {a : Aggregation}
      {error : DownstreamError} (missing : error.isNotFound = true) (same : a.hash = hash) :
      Attests hash ⟨.teardown type scope credentials a, .error error⟩
  | unresolved {reference : Option String} {error : DownstreamError}
      (missing : error.isNotFound = true) :
      Attests hash ⟨.credentials reference, .error error⟩

variable {hash : String} {x : Exchange}

theorem Attests.takes_iff (h : x.Attests hash) : x.Takes hash ↔ x.isMissing = false := by
  cases h with
  | takes takes => exact ⟨fun _ => by cases takes <;> rfl, fun _ => takes⟩
  | gone missing | unresolved missing =>
    exact ⟨fun takes => (by cases takes), fun found => by simp [isMissing, missing] at found⟩

end Exchange

/-- The last call of the downstream, or the last that was to be made. -/
def lastAttempt (past : List Exchange) : Option Exchange := past.find? (·.isAttempt)

theorem lastAttempt_cons_of_not {x : Exchange} (h : x.isAttempt = false) (past : List Exchange) :
    lastAttempt (x :: past) = lastAttempt past := by
  simp [lastAttempt, h]

theorem isAttempt_of_upkeep {x : Exchange} (h : x.kind = .upkeep) : x.isAttempt = false := by
  unfold Exchange.isAttempt
  split <;> first | rfl | cases h

theorem Upkeep.lastAttempt_eq {base past : List Exchange} (u : Upkeep base past) :
    lastAttempt past = lastAttempt base := by
  induction u with
  | refl => rfl
  | step _ hx ih => rw [lastAttempt_cons_of_not (isAttempt_of_upkeep hx), ih]

/-- The last attempt attests that a configuration with a hash is downstream. -/
def Vouched (last : Option Exchange) (hash : String) : Prop :=
  ∃ x, last = some x ∧ x.Attests hash

/-! ## Records in company -/

namespace Record

/-- What others than passes make of a version. -/
structure GrowsInto (v w : Record) : Prop where
  key : w.key = v.key
  status : w.status = v.status
  externalId : w.externalId = v.externalId
  guard : w.pendingTeardown = v.pendingTeardown
  older : v.generation ≤ w.generation
  sources : w.generation = v.generation → w.sources = v.sources
  emptied : w.sources = [] → v.sources = [] ∨ w.teardownRequested = true
  teardown : v.teardownRequested = true → w.teardownRequested = true
  deletion : v.deletionRequested = true → w.deletionRequested = true
  token : v.token ≤ w.token
  same : w.token = v.token → w = v

/-- Whether somebody has asked for a teardown. -/
def marked (r : Record) : Bool := r.teardownRequested || r.deletionRequested

/-- A record may be marked as synchronised while it is still to be torn down, else the last
attempt vouches for it. A record that was emptied is to be torn down. -/
structure Accounted (last : Option Exchange) (r : Record) : Prop where
  emptied : r.sources = [] → r.teardownRequested = true
  vouched : r.status.phase = .synced →
    Vouched last r.status.configHash ∨ (r.marked = true ∧ r.isPending = false)

variable {u v w r : Record} {last : Option Exchange}

theorem GrowsInto.refl (v : Record) : v.GrowsInto v :=
  ⟨rfl, rfl, rfl, rfl, Nat.le_refl _, fun _ => rfl, .inl, id, id, Nat.le_refl _, fun _ => rfl⟩

theorem GrowsInto.trans (h : u.GrowsInto v) (h' : v.GrowsInto w) : u.GrowsInto w where
  key := h'.key.trans h.key
  status := h'.status.trans h.status
  externalId := h'.externalId.trans h.externalId
  guard := h'.guard.trans h.guard
  older := Nat.le_trans h.older h'.older
  sources same := by
    have := h.older
    have := h'.older
    exact (h'.sources (by omega)).trans (h.sources (by omega))
  emptied empty := by
    obtain empty | asked := h'.emptied empty
    · exact (h.emptied empty).imp_right h'.teardown
    · exact .inr asked
  teardown asked := h'.teardown (h.teardown asked)
  deletion asked := h'.deletion (h.deletion asked)
  token := Nat.le_trans h.token h'.token
  same carried := by
    have := h.token
    have := h'.token
    obtain rfl := h'.same (by omega)
    exact h.same carried

theorem GrowsInto.isPending_eq (h : v.GrowsInto w) : w.isPending = v.isPending := by
  simp [Record.isPending, h.externalId]

theorem GrowsInto.marked (h : v.GrowsInto w) (asked : v.marked = true) : w.marked = true := by
  rcases Bool.or_eq_true_iff.1 asked with asked | asked
  · simp [Record.marked, h.teardown asked]
  · simp [Record.marked, h.deletion asked]

theorem Accounted.grown (h : v.Accounted last) (grows : v.GrowsInto w) : w.Accounted last where
  emptied empty := (grows.emptied empty).elim (fun empty => grows.teardown (h.emptied empty)) id
  vouched synced := by
    rw [grows.status] at synced ⊢
    refine (h.vouched synced).imp_right fun doubted => ⟨grows.marked doubted.1, ?_⟩
    rw [grows.isPending_eq, doubted.2]

/-- A record that nobody asks to be torn down is vouched for. -/
theorem Accounted.unmarked (h : r.Accounted last) (none : r.needsTeardown = false)
    (synced : r.status.phase = .synced) : Vouched last r.status.configHash := by
  refine (h.vouched synced).resolve_right fun doubted => ?_
  have asked := doubted.1
  simp only [Record.needsTeardown, Bool.or_eq_false_iff] at none
  simp [Record.marked, none] at asked

end Record

/-- What others than passes make of the record of a key. -/
inductive Others : Option Record → Option Record → Prop
  | grown {v w : Record} (grows : v.GrowsInto w) : Others (some v) (some w)
  | absent : Others none none
  | created {r : Record} (phase : r.status.phase = .pending)
      (emptied : r.sources = [] → r.teardownRequested = true) : Others none (some r)

def Accounted (last : Option Exchange) (v : Option Record) : Prop :=
  ∀ r, v = some r → r.Accounted last

theorem Others.refl (v : Option Record) : Others v v := by
  cases v with
  | none => exact .absent
  | some v => exact .grown (.refl v)

theorem Others.trans {u v w : Option Record} (h : Others u v) (h' : Others v w) : Others u w := by
  cases h with
  | grown grows =>
    cases h' with
    | grown grows' => exact .grown (grows.trans grows')
  | absent => exact h'
  | created phase emptied =>
    cases h' with
    | grown grows =>
      refine .created (grows.status ▸ phase) fun empty => ?_
      exact (grows.emptied empty).elim (fun empty => grows.teardown (emptied empty)) id

theorem Accounted.others {last : Option Exchange} {v w : Option Record} (h : Accounted last v)
    (others : Others v w) : Accounted last w := by
  rintro r rfl
  cases others with
  | grown grows => exact (h _ rfl).grown grows
  | created phase emptied => exact ⟨emptied, fun synced => by rw [phase] at synced; cases synced⟩

/-! ## What a pass preserves -/

namespace Pass

open Exchange (kind)
open Session (Leads amid_bind amid_request amid_map amid_attempt amid_when amid_unless)

/-- A pass over the record of a key, among others that register and withdraw. -/
def among (faulty : StoreError → Prop) (key : String) : Company where
  key := key
  faulty := faulty
  others := Others
  answers _ := True
  keeps past v := Accounted (lastAttempt past) v
  keeps_others := Accounted.others
  keeps_upkeep h hx := by
    rw [lastAttempt_cons_of_not (isAttempt_of_upkeep hx)]
    exact h

/-- The copy is the version that was read last; others may have changed it since. -/
structure Linked (key : String) (past : List Exchange) (copy : Record) (v : Option Record) :
    Prop where
  read : lastRead past = some copy
  key : copy.key = key
  stored : ∃ w, v = some w ∧ copy.GrowsInto w
  accounted : copy.Accounted (lastAttempt past)

/-- The last exchange was an aggregation. -/
def Aggregating (past : List Exchange) : Prop := ∃ x rest, past = x :: rest ∧ x.kind = .aggregation

theorem not_aggregating {x : Exchange} (h : x.kind ≠ .aggregation) (past : List Exchange) :
    ¬ Aggregating (x :: past) := by
  rintro ⟨_, _, same, hx⟩
  cases same
  exact h hx

variable {faulty : StoreError → Prop} {key : String} {past : List Exchange} {copy : Record}
  {v : Option Record} {β : Type} {leads : List Exchange → β → Record → Option Record → Prop}

namespace Linked

theorem slot (h : Linked key past copy v) : Accounted (lastAttempt past) v := by
  obtain ⟨w, rfl, grows⟩ := h.stored
  rintro _ ⟨⟩
  exact h.accounted.grown grows

theorem others {w : Option Record} (h : Linked key past copy v) (others : Others v w) :
    Linked key past copy w := by
  obtain ⟨u, rfl, grows⟩ := h.stored
  refine ⟨h.read, h.key, ?_, h.accounted⟩
  cases others with
  | grown grows' => exact ⟨_, rfl, grows.trans grows'⟩

theorem asked {x : Exchange} (h : Linked key past copy v) (unread : x.read? = none)
    (accounted : copy.Accounted (lastAttempt (x :: past))) : Linked key (x :: past) copy v :=
  ⟨by rw [lastRead_cons_of_none unread]; exact h.read, h.key, h.stored, accounted⟩

/-- The rule for requests that neither touch the record nor call the downstream. -/
theorem request {q : Request} {f : q.Answer → Session β} (h : Linked key past copy v)
    (idle : ∀ a, Exchange.read? ⟨q, a⟩ = none ∧ Exchange.isCommit ⟨q, a⟩ = false ∧
      Exchange.isAttempt ⟨q, a⟩ = false)
    (rest : ∀ a v, Linked key (⟨q, a⟩ :: past) copy v →
      (f a).Amid (among faulty key) (Leads (among faulty key) leads) copy (⟨q, a⟩ :: past) v) :
    (Session.request q >>= f).Amid (among faulty key) (Leads (among faulty key) leads) copy past
      v := by
  rw [amid_request]
  intro v₁ a v₂ others _ turns
  obtain ⟨unread, uncommitted, idle⟩ := idle a
  obtain rfl := turns.same uncommitted
  have h := (h.others others).asked unread
    (by rw [lastAttempt_cons_of_not idle]; exact h.accounted)
  exact ⟨h.slot, rest a v₂ h⟩

/-- Any call may be tried for a record that is to be torn down. -/
theorem attempted {x : Exchange} (h : Linked key past copy v) (marked : copy.marked = true)
    (real : copy.isPending = false) (unread : x.read? = none) : Linked key (x :: past) copy v :=
  h.asked unread ⟨h.accounted.emptied, fun _ => .inr ⟨marked, real⟩⟩

theorem marked (h : Linked key past copy v) (needs : copy.needsTeardown = true) :
    copy.marked = true := by
  by_cases empty : copy.sources = []
  · simp [Record.marked, h.accounted.emptied empty]
  · simpa [Record.marked, Record.needsTeardown, empty, Bool.or_comm] using needs

/-- The rule for updates, with what is known of the copy before and after. -/
theorem changing {P Q : Record → Prop} (policy : RetryPolicy) (half : Half)
    (change : Record → Record × β)
    (keeps : ∀ c, (change c).1.key = c.key ∧ (change c).1.token = c.token)
    (before : ∀ c w, P c → c.GrowsInto w → P w) (after : ∀ c w, Q c → c.GrowsInto w → Q w)
    (commit : ∀ c token now, P c → c.Accounted (lastAttempt past) →
      (half.merged (change c).1 c token now).Accounted (lastAttempt past) ∧
        Q (half.merged (change c).1 c token now))
    (h : Linked key past copy v) (start : P copy) :
    (Update.changing policy half change).Amid (among faulty key)
      (Leads (among faulty key) fun past' _ copy' v' => lastAttempt past' = lastAttempt past ∧
        ¬ Aggregating past' ∧ Linked key past' copy' v' ∧ Q copy') copy past v := by
  let inv (c : Record) (v : Option Record) : Prop :=
    c.key = key ∧ P c ∧ ∃ w, v = some w ∧ c.GrowsInto w
  have same {c w : Record} (known : inv c (some w)) (current : (change c).1.token = w.token) :
      w = c := by
    obtain ⟨_, _, _, ⟨⟩, grows⟩ := known
    exact grows.same (current.symm.trans (keeps c).2)
  refine Update.tries_amid policy half change inv (fun _ n => Q n) ?_ ?_ ?_ ?_ ?_ _ h.key .refl
    h.slot ⟨h.key, start, h.stored⟩
  · rintro c _ _ ⟨hkey, known, w, rfl, grows⟩ ⟨grows'⟩
    exact ⟨hkey, known, _, rfl, grows.trans grows'⟩
  · intro c v known
    exact (keeps c).1.trans known.1
  · rintro c r hr ⟨_, known, _, ⟨⟩, grows⟩
    exact ⟨hr, before c r known grows, r, rfl, .refl r⟩
  · intro past' c w token now u known current _ kept
    obtain rfl := same known current
    have made := commit w token now known.2.1 (u.lastAttempt_eq ▸ kept w rfl)
    refine ⟨?_, made.2⟩
    rintro n ⟨⟩
    rw [u.lastAttempt_eq]
    exact made.1
  · intro past' c n r u hr made grown kept
    have u := u.step (x := ⟨.store (.get key), .ok r⟩) rfl
    refine ⟨u.lastAttempt_eq, not_aggregating (by simp [kind]) _,
      ⟨rfl, hr, ⟨r, rfl, .refl r⟩, kept r rfl⟩, ?_⟩
    cases grown with
    | grown grows => exact after n r made grows

end Linked

/-- The copy is linked, and neither its status nor the last attempt has changed. -/
structure Kept (key : String) (last : Option Exchange) (status : Status) (past : List Exchange)
    (_ : Unit) (copy : Record) (v : Option Record) : Prop where
  last : lastAttempt past = last
  linked : Linked key past copy v
  status : copy.status = status

/-- The rule for edits of the guard. -/
theorem Linked.guarding (policy : RetryPolicy) {f : Record → Record}
    (guards : ∀ r, f r = { r with pendingTeardown := (f r).pendingTeardown })
    (h : Linked key past copy v) :
    (Update.spec policy f).Amid (among faulty key)
      (Leads (among faulty key) (Kept key (lastAttempt past) copy.status)) copy past v := by
  refine Session.Amid.weaken (h.changing (P := (·.status = copy.status))
    (Q := (·.status = copy.status)) policy .spec (fun r => (f r, ())) (fun c => ?_)
    (fun c w known grows => grows.status.trans known)
    (fun c w known grows => grows.status.trans known) ?_ rfl) fun past _ copy v led => ?_
  · rw [guards]
    exact ⟨rfl, rfl⟩
  · intro c token now known accounted
    rw [guards]
    exact ⟨⟨accounted.emptied, accounted.vouched⟩, known⟩
  · exact ⟨led.1, led.2.2.1, led.2.2.2⟩

theorem guard_amid (policy : RetryPolicy) (h : Linked key past copy v) :
    (Update.guard policy).Amid (among faulty key)
      (Leads (among faulty key) (Kept key (lastAttempt past) copy.status)) copy past v := by
  simp only [Update.guard, Session.amid_get]
  split
  · exact ⟨rfl, h, rfl⟩
  · exact h.guarding policy fun _ => rfl

/-- An update of the status that does not mark the record as synchronised, whatever the copy. -/
theorem unsynced_amid (policy : RetryPolicy) {change : Record → Record × β}
    (unsynced : ∀ c, (change c).1.key = c.key ∧ (change c).1.status.phase ≠ .synced)
    (hkey : copy.key = key) (accounted : Accounted (lastAttempt past) v) :
    (Update.changing policy .status change).Amid (among faulty key)
      (Leads (among faulty key) fun _ _ _ _ => True) copy past v := by
  refine Update.tries_amid policy .status change (fun c _ => c.key = key) (fun _ _ => True)
    (fun _ _ _ hkey _ => hkey) (fun c _ hkey => (unsynced c).1.trans hkey) (fun _ _ hr _ => hr) ?_
    (fun _ _ _ _ _ _ _ _ _ => trivial) _ hkey .refl accounted hkey
  rintro past' c w token now _ _ _ _ kept
  refine ⟨?_, trivial⟩
  rintro _ ⟨⟩
  exact ⟨(kept w rfl).emptied, fun synced => absurd synced (unsynced c).2⟩

variable (e : Engine)

/-- A failure is entered, and the pass has not found the record as it should be. -/
theorem fail_amid (category : Category) (reason : String) (hkey : copy.key = key)
    (accounted : Accounted (lastAttempt past) v) :
    (fail e category reason).Amid (among faulty key)
      (Leads (among faulty key) fun _ action _ _ => action ≠ .done) copy past v := by
  simp only [fail, Session.amid_get]
  intro v₁ now v₂ others _ turns
  obtain rfl := turns.same rfl
  have accounted : Accounted (lastAttempt (⟨.now, now⟩ :: past)) v₂ := accounted.others others
  refine ⟨accounted, (unsynced_amid e.updater (fun c => ⟨rfl, ?_⟩) hkey accounted).next ?_⟩
  · obtain phase | phase := e.backoff.phase_recordFailure c.status category reason
      copy.generation now
    all_goals exact phase ▸ (by simp)
  · intro _ outcome _ _ _
    cases outcome <;> exact fun done => by cases done

/-- What is known after a round of teardown: the pass is over, or the copy is linked again. -/
def Turned (key : String) (past : List Exchange) : Option Action → Record → Option Record → Prop
  | none, copy, v => Linked key past copy v
  | some action, _, _ => action = .done → ¬ Aggregating past

theorem failed_amid (category : Category) (reason : String) (hkey : copy.key = key)
    (accounted : Accounted (lastAttempt past) v) :
    (some <$> fail e category reason).Amid (among faulty key)
      (Leads (among faulty key) (Turned key)) copy past v :=
  (fail_amid e category reason hkey accounted).map fun _ _ _ _ led done => absurd done led

theorem cutBack_amid (type : String) (remaining : Aggregation) (h : Linked key past copy v)
    (needs : copy.needsTeardown = true) :
    (cutBack type remaining).Amid (among faulty key)
      (Leads (among faulty key) fun past' result copy' v' => copy' = copy ∧
        Linked key past' copy v' ∧ (result = none → copy.isPending = false →
          Vouched (lastAttempt past') remaining.hash)) copy past v := by
  simp only [cutBack, Session.amid_get]
  split
  · next pending => exact ⟨rfl, h, fun _ real => absurd pending (by simp [real])⟩
  · next real =>
    simp only [Bool.not_eq_true] at real
    have marked := h.marked needs
    intro v₁ access v₂ others _ turns
    obtain rfl := turns.same rfl
    have h := (h.others others).attempted (x := ⟨.credentials copy.credentialsRef, access⟩)
      marked real rfl
    refine ⟨h.slot, ?_⟩
    cases access with
    | error error =>
      refine ⟨rfl, h, fun passed _ => ⟨_, rfl, .unresolved ?_⟩⟩
      simpa using passed
    | ok credentials =>
      intro v₁ answer v₂ others _ turns
      obtain rfl := turns.same rfl
      have h := (h.others others).attempted
        (x := ⟨.teardown type copy.scopeIds credentials remaining, answer⟩) marked real rfl
      refine ⟨h.slot, ?_⟩
      cases answer with
      | ok => exact ⟨rfl, h, fun _ _ => ⟨_, rfl, .takes (.cutBack rfl)⟩⟩
      | error error =>
        refine ⟨rfl, h, fun passed _ => ⟨_, rfl, .gone ?_ rfl⟩⟩
        simpa using passed

theorem releaseAndDelete_amid (generation : Nat) (h : Linked key past copy v) :
    (releaseAndDelete e generation).Amid (among faulty key)
      (Leads (among faulty key) (Turned key)) copy past v := by
  simp only [releaseAndDelete, Session.amid_get]
  refine amid_when (Kept key _ _) (fun _ => h.guarding e.updater fun r => ?_)
    (fun _ => ⟨rfl, h, rfl⟩) fun past _ copy v kept => ?_
  · split <;> rfl
  · have h := kept.linked
    simp only [Session.amid_get]
    split
    · exact (guard_amid e.updater h).next fun _ _ _ _ kept => kept.linked
    · simp only [Session.amid_get]
      refine (amid_request _ _).2 fun v₁ answer v₂ others _ turns => ?_
      have h := h.others others
      cases answer with
      | ok =>
        obtain ⟨_, _, _, _, gone⟩ := Turns.deleted (r := copy) h.key turns
        refine ⟨?_, fun _ => not_aggregating (by simp [kind]) _⟩
        rintro r rfl
        cases gone
      | error error =>
        obtain rfl := turns.same rfl
        have h := h.asked (x := ⟨.store (.delete copy), .error error⟩) rfl h.accounted
        refine ⟨h.slot, ?_⟩
        dsimp only
        split
        · refine Update.refresh_amid h.key h.slot fun r hr moved keeps => ?_
          have h : Linked key _ r (some r) := ⟨rfl, hr, ⟨r, rfl, .refl r⟩, keeps r rfl⟩
          simp only [Session.amid_get]
          refine amid_unless (Kept key _ _) (fun _ => guard_amid e.updater h)
            (fun _ => ⟨rfl, h, rfl⟩) fun _ _ _ _ kept => ?_
          exact kept.linked
        · exact ⟨h.slot, h.key, fun _ => ⟨_, _, _, rfl⟩⟩

/-- A version that has not been emptied, unless its generation has risen since. -/
structure Contributes (generation : Nat) (c : Record) : Prop where
  older : generation ≤ c.generation
  contributes : c.generation = generation → c.sources ≠ []

/-- As long as the generation has not risen, the last attempt vouches for the record. -/
structure Reconciled (generation : Nat) (last : Option Exchange) (c : Record) : Prop extends
    Contributes generation c where
  vouched : c.generation = generation → c.status.phase = .synced →
    Vouched last c.status.configHash

theorem Contributes.grown {generation : Nat} {c w : Record} (h : Contributes generation c)
    (grows : c.GrowsInto w) : Contributes generation w := by
  have older := h.older
  have later := grows.older
  refine ⟨by omega, fun same => ?_⟩
  rw [grows.sources (by omega)]
  exact h.contributes (by omega)

theorem Reconciled.grown {generation : Nat} {last : Option Exchange} {c w : Record}
    (h : Reconciled generation last c) (grows : c.GrowsInto w) : Reconciled generation last w := by
  have older := h.older
  have later := grows.older
  refine ⟨h.toContributes.grown grows, fun same => ?_⟩
  rw [grows.status]
  exact h.vouched (by omega)

/-- The end of a partial teardown: the request for it is cleared. -/
theorem cleared_amid (generation : Nat) (h : Linked key past copy v)
    (settled : Reconciled generation (lastAttempt past) copy) :
    Session.Amid (among faulty key) (Leads (among faulty key) (Turned key))
      (do
        Update.spec e.updater fun r =>
          if r.generation = generation then { r with teardownRequested := false } else r
        return if (← get).generation = generation then some Action.done else none)
      copy past v := by
  refine Session.Amid.next (h.changing (P := Reconciled generation (lastAttempt past))
    (Q := fun _ => True) e.updater .spec _ (fun c => ?_) (fun _ _ => Reconciled.grown)
    (fun _ _ _ _ => trivial) (fun c token now settled accounted => ⟨?_, trivial⟩) settled)
    fun past' _ copy' v' led => ?_
  · dsimp only
    split <;> exact ⟨rfl, rfl⟩
  · dsimp only
    split
    · next same =>
      exact ⟨fun empty => absurd empty (settled.contributes same),
        fun synced => .inl (settled.vouched same synced)⟩
    · exact ⟨accounted.emptied, accounted.vouched⟩
  · simp only [Session.amid_get]
    split
    · exact fun _ => led.2.1
    · exact led.2.2.1

theorem finishPartial_amid (remaining : Aggregation) (h : Linked key past copy v)
    (contributes : copy.sources ≠ [])
    (vouched : copy.isPending = false → Vouched (lastAttempt past) remaining.hash) :
    (finishPartial e remaining copy.generation).Amid (among faulty key)
      (Leads (among faulty key) (Turned key)) copy past v := by
  simp only [finishPartial, Session.amid_get]
  split
  · next pending =>
    refine cleared_amid e copy.generation h
      ⟨⟨Nat.le_refl _, fun _ => contributes⟩, fun _ synced => ?_⟩
    exact (h.accounted.vouched synced).resolve_right fun real => by simp [pending] at real
  · next real =>
    simp only [Bool.not_eq_true] at real
    refine h.request (fun _ => ⟨rfl, rfl, rfl⟩) fun now v h => ?_
    refine Session.Amid.next (h.changing (P := Contributes copy.generation)
      (Q := Reconciled copy.generation (lastAttempt (⟨.now, now⟩ :: past)))
      e.updater .status _ (fun _ => ⟨rfl, rfl⟩) (fun _ _ => Contributes.grown)
      (fun _ _ => Reconciled.grown) (fun c token now' known accounted => ?_)
      ⟨Nat.le_refl _, fun _ => contributes⟩) fun past' _ copy' v' led => ?_
    · by_cases same : c.generation = copy.generation
      · simp only [same, if_true]
        exact ⟨⟨accounted.emptied, fun _ => .inl (vouched real)⟩,
          ⟨known.older, fun _ => known.contributes same⟩, fun _ _ => vouched real⟩
      · simp only [same, if_false]
        exact ⟨⟨accounted.emptied, accounted.vouched⟩, ⟨known.older, known.contributes⟩,
          fun same' => absurd same' same⟩
    · exact cleared_amid e copy.generation led.2.2.1 (led.1 ▸ led.2.2.2)

theorem teardown_amid (type : String) (h : Linked key past copy v)
    (needs : copy.needsTeardown = true) :
    (teardown e type).Amid (among faulty key)
      (Leads (among faulty key) (Turned key)) copy past v := by
  simp only [teardown, Session.amid_get]
  split
  · exact fun done => by cases done
  · refine h.request (fun _ => ⟨rfl, rfl, rfl⟩) fun now v h => ?_
    split
    · exact fun done => by cases done
    · split
      · simp only [pure_bind]
        refine (cutBack_amid type .empty h needs).next fun past' result copy' v' cut => ?_
        obtain ⟨rfl, h, _⟩ := cut
        cases result with
        | none => exact releaseAndDelete_amid e _ h
        | some error => exact failed_amid e _ _ h.key h.slot
      · next full =>
        refine h.request (fun _ => ⟨rfl, rfl, rfl⟩) fun result v h => ?_
        cases result with
        | error error => exact failed_amid e _ _ h.key h.slot
        | ok remaining =>
          refine (cutBack_amid type remaining h needs).next fun past' result copy' v' cut => ?_
          obtain ⟨rfl, h, vouched⟩ := cut
          cases result with
          | none =>
            refine finishPartial_amid e remaining h (fun empty => full ?_) (vouched rfl)
            simp [Record.abandoned, empty]
          | some error => exact failed_amid e _ _ h.key h.slot

theorem rounds_amid (type : String) (n : Nat) (h : Linked key past copy v) :
    (rounds e key type n).Amid (among faulty key)
      (Leads (among faulty key) fun past' action copy' v' => Turned key past' action copy' v' ∧
        (action = none → copy'.needsTeardown = false)) copy past v := by
  induction n generalizing past copy v with
  | zero => exact ⟨h.slot, h.key, fun none => by cases none⟩
  | succ n ih =>
    simp only [rounds, Session.amid_get]
    split
    · next needs =>
      refine (teardown_amid e type h needs).next fun past' action copy' v' turned => ?_
      cases action with
      | some action => exact ⟨turned, fun none => by cases none⟩
      | none => exact ih turned
    · next needs => exact ⟨h, fun _ => by simpa using needs⟩

/-! ## Pushing -/

/-- The copy is linked, and marked as being pushed. -/
structure Pushes (key : String) (past : List Exchange) (copy : Record) (v : Option Record) :
    Prop where
  linked : Linked key past copy v
  syncing : copy.status.phase = .syncing

theorem Pushes.attempted {x : Exchange} {w : Option Record} (h : Pushes key past copy v)
    (others : Others v w) (unread : x.read? = none) : Pushes key (x :: past) copy w := by
  refine ⟨(h.linked.others others).asked unread ⟨h.linked.accounted.emptied, fun synced => ?_⟩,
    h.syncing⟩
  rw [h.syncing] at synced
  cases synced

theorem push_amid (type : String) (a : Aggregation) (h : Pushes key past copy v) :
    (push type a).Amid (among faulty key)
      (Leads (among faulty key) fun past' result copy' v' => Pushes key past' copy' v' ∧
        ∀ outcome, result = .ok outcome → Vouched (lastAttempt past') a.hash) copy past v := by
  simp only [push, Session.amid_get]
  intro v₁ access v₂ others _ turns
  obtain rfl := turns.same rfl
  have h := h.attempted (x := ⟨.credentials copy.credentialsRef, access⟩) others rfl
  refine ⟨h.linked.slot, ?_⟩
  cases access with
  | error error => exact ⟨h, fun _ pushed => by cases pushed⟩
  | ok credentials =>
    intro v₁ answer v₂ others _ turns
    obtain rfl := turns.same rfl
    have h := h.attempted (x := ⟨.push type copy.scopeIds credentials a, answer⟩) others rfl
    refine ⟨h.linked.slot, h, ?_⟩
    rintro outcome rfl
    exact ⟨_, rfl, .takes (.pushed rfl)⟩

theorem migrate_amid (policy : RetryPolicy) (id : String) (h : Pushes key past copy v) :
    (Update.migrate policy id).Amid (among faulty key)
      (Leads (among faulty key) fun past' _ copy' v' => lastAttempt past' = lastAttempt past ∧
        Pushes key past' copy' v') copy past v := by
  simp only [Update.migrate, Session.amid_get]
  split
  · exact ⟨rfl, h⟩
  · refine Session.Amid.weaken (h.linked.changing (P := (·.status.phase = .syncing))
      (Q := (·.status.phase = .syncing)) policy .spec _ (fun _ => ⟨rfl, rfl⟩)
      (fun c w known grows => grows.status ▸ known) (fun c w known grows => grows.status ▸ known)
      (fun c token now known accounted => ⟨⟨accounted.emptied, fun synced => ?_⟩, known⟩)
      h.syncing) fun past _ copy v led => ?_
    · exact absurd (known.symm.trans synced) (by simp)
    · exact ⟨led.1, led.2.2.1, led.2.2.2⟩

theorem adopt_amid (outcome : PushOutcome) (h : Pushes key past copy v) :
    (adopt e outcome).Amid (among faulty key)
      (Leads (among faulty key) fun past' action copy' v' => match action with
        | none => lastAttempt past' = lastAttempt past ∧ Pushes key past' copy' v'
        | some action => action ≠ .done) copy past v := by
  simp only [adopt, Session.amid_get]
  split
  · next id _ =>
    split
    · rw [amid_bind, amid_attempt]
      refine (migrate_amid e.updater id h).mono fun past' result copy' v' led => ?_
      cases result with
      | ok => exact led
      | error error =>
        dsimp only [Session.GoesOn]
        split
        · exact led
        · exact (fail_amid e _ _ led.key led.keeps).map fun _ _ _ _ led => led
    · exact ⟨rfl, h⟩
  · exact ⟨rfl, h⟩

/-- A pass has found what it has aggregated to be what was synchronised last, and the last attempt
vouches for it. -/
structure Rested (past : List Exchange) (copy : Record) (v : Option Record) : Prop where
  stored : ∃ w, v = some w ∧ copy.GrowsInto w
  read : lastRead past = some copy
  aggregated : ∃ type a, past.head? = some ⟨.aggregate type copy.sources, .ok a⟩ ∧
    copy.status.configHash = a.hash
  synced : copy.status.phase = .synced
  vouched : Vouched (lastAttempt past) copy.status.configHash

/-- What is known when a pass has ended. -/
def Stops (past : List Exchange) (action : Action) (copy : Record) (v : Option Record) : Prop :=
  action = .done → Aggregating past → Rested past copy v

theorem complete_amid (a : Aggregation) (outcome : PushOutcome) (h : Pushes key past copy v)
    (vouched : Vouched (lastAttempt past) a.hash) :
    (complete e a outcome).Amid (among faulty key)
      (Leads (among faulty key) Stops) copy past v := by
  unfold complete
  refine (adopt_amid e outcome h).next fun past action copy v adopted => ?_
  cases action with
  | some action => exact fun done => absurd done adopted
  | none =>
    obtain ⟨last, h⟩ := adopted
    simp only [Session.amid_get]
    refine h.linked.request (fun _ => ⟨rfl, rfl, rfl⟩) fun now v h => ?_
    refine Session.Amid.next (h.changing (P := fun _ => True) (Q := fun _ => True) e.updater .status
      _ (fun _ => ⟨rfl, rfl⟩) (fun _ _ _ _ => trivial) (fun _ _ _ _ => trivial)
      (fun c token now known accounted => ⟨⟨accounted.emptied, fun _ => .inl ?_⟩, trivial⟩)
      trivial) fun past' _ copy' v' led => ?_
    · rw [lastAttempt_cons_of_not rfl, last]
      exact vouched
    · exact fun _ aggregating => absurd aggregating led.2.1

theorem syncing_amid (type : String) (a : Aggregation) (h : Linked key past copy v) :
    Session.Amid (among faulty key)
      (Leads (among faulty key) Stops)
      (do
        Update.status e.updater fun r => { r.status with phase := .syncing }
        match ← push type a with
        | .ok outcome => complete e a outcome
        | .error error => fail e error.category error.text)
      copy past v := by
  refine Session.Amid.next (h.changing (P := fun _ => True) (Q := (·.status.phase = .syncing))
    e.updater .status _ (fun _ => ⟨rfl, rfl⟩) (fun _ _ _ _ => trivial)
    (fun c w known grows => grows.status ▸ known)
    (fun c token now known accounted =>
      ⟨⟨accounted.emptied, fun synced => by cases synced⟩, rfl⟩) trivial)
    fun past' _ copy' v' led => ?_
  refine (push_amid type a ⟨led.2.2.1, led.2.2.2⟩).next fun past result copy v pushed => ?_
  cases result with
  | ok outcome => exact complete_amid e a outcome pushed.1 (pushed.2 outcome rfl)
  | error error =>
    exact (fail_amid e _ _ pushed.1.linked.key pushed.1.linked.slot).weaken
      fun _ _ _ _ led done => absurd done led

theorem synchronise_amid (type : String) (h : Linked key past copy v)
    (none : copy.needsTeardown = false) :
    (synchronise e key type).Amid (among faulty key) (Leads (among faulty key) Stops) copy past
      v := by
  have vouched := h.accounted.unmarked none
  unfold synchronise
  refine (guard_amid e.updater h).next fun past _ copy v kept => ?_
  simp only [Session.amid_get]
  split
  · exact fun done => by cases done
  · have cleared : copy.status.phase = .synced →
        Vouched (lastAttempt past) copy.status.configHash := by
      rw [kept.status, kept.last]
      exact vouched
    simp only [Session.amid_get]
    refine amid_when (fun past _ copy v => Linked key past copy v ∧ (copy.status.phase = .synced →
      Vouched (lastAttempt past) copy.status.configHash)) (fun failed => ?_)
      (fun _ => ⟨kept.linked, cleared⟩) fun past _ copy v led => ?_
    · refine Session.Amid.weaken (kept.linked.changing (P := fun _ => True)
        (Q := (·.status.phase = .pending)) e.updater .status _ (fun _ => ⟨rfl, rfl⟩)
        (fun _ _ _ _ => trivial) (fun c w known grows => grows.status ▸ known)
        (fun c token now known accounted =>
          ⟨⟨accounted.emptied, fun synced => by cases synced⟩, rfl⟩) trivial)
        fun past _ copy v led => ⟨led.2.2.1, fun synced => ?_⟩
      exact absurd (led.2.2.2.symm.trans synced) (by simp)
    · obtain ⟨h, cleared⟩ := led
      refine h.request (fun _ => ⟨rfl, rfl, rfl⟩) fun busy v h => ?_
      split
      · exact fun _ aggregating => absurd aggregating (not_aggregating (by simp [kind]) _)
      · simp only [Session.amid_get]
        refine h.request (fun _ => ⟨rfl, rfl, rfl⟩) fun result v h => ?_
        cases result with
        | error error =>
          exact (fail_amid e _ _ h.key h.slot).weaken fun _ _ _ _ led done => absurd done led
        | ok a =>
          dsimp only
          split
          · next unchanged =>
            simp only [Bool.and_eq_true, decide_eq_true_eq, Bool.not_eq_true',
              fingerprintChanged_eq_false] at unchanged
            obtain ⟨synced, _, same⟩ := unchanged
            exact fun _ _ => ⟨h.stored, h.read, ⟨type, a, rfl, same⟩, synced, cleared synced⟩
          · refine h.request (fun _ => ⟨rfl, rfl, rfl⟩) fun now v h => ?_
            split
            · exact fun done => by cases done
            · exact syncing_amid e type a h

theorem run_amid (h : Linked key past copy v) :
    (run e key).Amid (among faulty key) (Leads (among faulty key) Stops) copy past v := by
  simp only [run, Session.amid_get]
  split
  · refine (rounds_amid e _ _ h).next fun past' action copy' v' led => ?_
    cases action with
    | some action => exact fun done aggregating => absurd aggregating (led.1 done)
    | none => exact synchronise_amid e _ led.1 (led.2 rfl)
  · simp only [unknownType, Session.amid_get]
    split
    · exact fun done => by cases done
    · exact (fail_amid e _ _ h.key h.slot).weaken fun _ _ _ _ led done => absurd done led

end Pass

open Pass Exchange in
/-- A pass leaves every record accounted for, and relies on a hash only if the last attempt
vouches for it. -/
theorem Engine.reconcile_amid {faulty : StoreError → Prop} {key : String} {past : List Exchange}
    {v : Option Record} (e : Engine) (accounted : Accounted (lastAttempt past) v) :
    (e.reconcile key).Amid (among faulty key)
      (fun past result v => result = .ok .done → Aggregating past → ∃ copy, Rested past copy v)
      past v := by
  -- An error that says that the record is gone counts as nothing to do.
  have ended {past : List Exchange} {error : SyncError} {v : Option Record}
      (gone : error.isNotFound = true → ∃ c a rest, past = ⟨.store c, a⟩ :: rest)
      (done : (if error.isNotFound then Except.ok Action.done else .error error) =
        (.ok .done : Except SyncError Action)) (aggregating : Aggregating past) :
      ∃ copy, Rested past copy v := by
    split at done
    · next missing =>
      obtain ⟨c, a, _, rfl⟩ := gone missing
      refine absurd aggregating (not_aggregating ?_ _)
      cases c <;> simp [kind]
    · cases done
  unfold Engine.reconcile
  rw [Program.amid_request]
  intro v₁ answer v₂ others _ turns
  have accounted := accounted.others others
  cases answer with
  | error error =>
    obtain rfl := turns.same rfl
    exact ⟨accounted, ended fun _ => ⟨_, _, _, rfl⟩⟩
  | ok r =>
    obtain ⟨rfl, rfl, hr⟩ := turns.found rfl
    have h : Linked key (⟨.store (.get key), .ok r⟩ :: past) r (some r) :=
      ⟨rfl, hr, ⟨r, rfl, .refl r⟩, accounted r rfl⟩
    refine ⟨accounted, ?_⟩
    dsimp only
    rw [Program.amid_bind, Program.amid_map]
    refine Program.Amid.mono (run_amid e h) ?_
    rintro past ⟨result, copy⟩ v led
    cases result with
    | ok action => exact fun done aggregating => ⟨copy, led (Except.ok.inj done) aggregating⟩
    | error error => exact ended led.gone

end Tributary
