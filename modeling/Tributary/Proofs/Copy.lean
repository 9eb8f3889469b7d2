import Tributary.Proofs.Exchange
import Tributary.Update

/-!
# The copy a program works on

A program knows of a record what it has read last. `lastRead` finds that version in what the
program has done, and `heldAt` the version that it held when it last did something else. An
update does nothing but read, write and wait (`Upkeep`), so it hides none of what was done
before it. `ensures_tries` is the rule for updates.
-/

namespace Tributary

namespace Exchange

/-- The version that a store has handed out. -/
def read? : Exchange → Option Record
  | ⟨.store (.get _), .ok r⟩ => some r
  | ⟨.store (.create _), .ok r⟩ => some r
  | _ => none

theorem eq_of_read {x : Exchange} {v : Record} (h : x.read? = some v) :
    (∃ key, x = ⟨.store (.get key), .ok v⟩) ∨ ∃ r, x = ⟨.store (.create r), .ok v⟩ := by
  unfold read? at h
  split at h
  · cases h
    exact .inl ⟨_, rfl⟩
  · cases h
    exact .inr ⟨_, rfl⟩
  · cases h

/-- What an exchange is about. -/
inductive Kind where
  /-- Reading, writing and waiting, which is all that an update does. -/
  | upkeep
  | creation
  | removal
  | listing
  | clock
  /-- Whether a key is quiet. -/
  | quiet
  | aggregation
  /-- Finding the credentials. -/
  | resolution
  | push
  | teardown
  deriving DecidableEq

def kind : Exchange → Kind
  | ⟨.store (.get _), _⟩ | ⟨.store (.update _), _⟩ | ⟨.store (.updateStatus _), _⟩
  | ⟨.sleep _, _⟩ => .upkeep
  | ⟨.store (.create _), _⟩ => .creation
  | ⟨.store (.delete _), _⟩ => .removal
  | ⟨.store .list, _⟩ => .listing
  | ⟨.now, _⟩ => .clock
  | ⟨.coalescing _, _⟩ => .quiet
  | ⟨.aggregate .., _⟩ => .aggregation
  | ⟨.credentials _, _⟩ => .resolution
  | ⟨.push .., _⟩ => .push
  | ⟨.teardown .., _⟩ => .teardown

/-- Records are handed out when they are read or created. -/
theorem kind_of_read {x : Exchange} {v : Record} (h : x.read? = some v) :
    x.kind = .upkeep ∨ x.kind = .creation := by
  obtain ⟨_, rfl⟩ | ⟨_, rfl⟩ := eq_of_read h
  · exact .inl rfl
  · exact .inr rfl

end Exchange

open Exchange (Kind)

/-- The version that was read last. -/
def lastRead (past : List Exchange) : Option Record := past.findSome? (·.read?)

/-- The latest exchange of a kind. -/
def latest (k : Kind) (past : List Exchange) : Option Exchange := past.find? (·.kind = k)

/-- The version that was held at the latest exchange of a kind. -/
def heldAt (k : Kind) (past : List Exchange) : Option Record :=
  lastRead (past.dropWhile (·.kind ≠ k))

theorem lastRead_cons (x : Exchange) (past : List Exchange) :
    lastRead (x :: past) = x.read?.or (lastRead past) := by
  unfold lastRead
  rw [List.findSome?_cons]
  cases x.read? <;> rfl

theorem lastRead_cons_of_none {x : Exchange} (h : x.read? = none) (past : List Exchange) :
    lastRead (x :: past) = lastRead past := by
  rw [lastRead_cons, h]
  rfl

/-- A version that was read last came with some exchange, after which none was read. -/
theorem exists_of_lastRead {past : List Exchange} {r : Record} (h : lastRead past = some r) :
    ∃ since x before, past = since ++ x :: before ∧ x.read? = some r ∧
      ∀ y ∈ since, y.read? = none := by
  induction past with
  | nil => cases h
  | cons x past ih =>
    cases hx : x.read? with
    | some v =>
      rw [lastRead_cons, hx] at h
      exact ⟨[], x, past, rfl, by rw [hx]; exact h, fun _ hy => by cases hy⟩
    | none =>
      rw [lastRead_cons_of_none hx] at h
      obtain ⟨since, y, before, rfl, hy, unread⟩ := ih h
      refine ⟨x :: since, y, before, rfl, hy, fun z hz => ?_⟩
      cases hz with
      | head => exact hx
      | tail _ hz => exact unread z hz

section

variable {k : Kind} {x : Exchange}

theorem latest_cons_of_ne (h : x.kind ≠ k) (past : List Exchange) :
    latest k (x :: past) = latest k past := by
  simp [latest, h]

theorem heldAt_cons_of_eq (h : x.kind = k) (past : List Exchange) :
    heldAt k (x :: past) = lastRead (x :: past) := by
  simp [heldAt, h]

theorem heldAt_cons_of_ne (h : x.kind ≠ k) (past : List Exchange) :
    heldAt k (x :: past) = heldAt k past := by
  simp [heldAt, h]

end

theorem lastRead_append {since : List Exchange} (unread : ∀ x ∈ since, x.read? = none)
    (past : List Exchange) : lastRead (since ++ past) = lastRead past := by
  induction since with
  | nil => rfl
  | cons x since ih =>
    rw [List.cons_append, lastRead_cons_of_none (unread x (.head _))]
    exact ih fun y hy => unread y (.tail _ hy)

/-- What was held at an earlier exchange is what was read last, or was read before that. -/
theorem heldAt_cases {k : Kind} {past : List Exchange} {g c : Record} (upkeep : k ≠ .upkeep)
    (creation : k ≠ .creation) (held : heldAt k past = some g) (read : lastRead past = some c) :
    ∃ since x before, past = since ++ x :: before ∧ x.read? = some c ∧
      (g = c ∨ heldAt k before = some g) := by
  obtain ⟨since, x, before, rfl, hx, unread⟩ := exists_of_lastRead read
  refine ⟨since, x, before, rfl, hx, ?_⟩
  clear read
  induction since with
  | nil =>
    have other : x.kind ≠ k := by
      obtain hk | hk := Exchange.kind_of_read hx
      · exact hk ▸ upkeep.symm
      · exact hk ▸ creation.symm
    rw [List.nil_append, heldAt_cons_of_ne other] at held
    exact .inr held
  | cons y since ih =>
    by_cases hk : y.kind = k
    · rw [List.cons_append, heldAt_cons_of_eq hk, ← List.cons_append, lastRead_append unread,
        lastRead_cons, hx] at held
      exact .inl (Option.some.inj held).symm
    · rw [List.cons_append, heldAt_cons_of_ne hk] at held
      exact ih held fun z hz => unread z (.tail _ hz)

/-! ## Upkeep -/

/-- Nothing but upkeep has been done since. -/
inductive Upkeep (base : List Exchange) : List Exchange → Prop
  | refl : Upkeep base base
  | step {x : Exchange} {past : List Exchange} (h : Upkeep base past) (hx : x.kind = .upkeep) :
      Upkeep base (x :: past)

namespace Upkeep

variable {base past : List Exchange}

theorem trans {past' : List Exchange} (h : Upkeep base past) (h' : Upkeep past past') :
    Upkeep base past' := by
  induction h' with
  | refl => exact h
  | step _ hx ih => exact ih.step hx

theorem append (h : Upkeep base past) : ∃ since, past = since ++ base := by
  induction h with
  | refl => exact ⟨[], rfl⟩
  | @step x _ _ _ ih =>
    obtain ⟨since, rfl⟩ := ih
    exact ⟨x :: since, rfl⟩

theorem forall_mem {P : Exchange → Prop} (h : Upkeep base past)
    (upkeep : ∀ x, x.kind = .upkeep → P x) (all : ∀ x ∈ base, P x) : ∀ x ∈ past, P x := by
  induction h with
  | refl => exact all
  | step _ hx ih =>
    intro y hy
    cases hy with
    | head => exact upkeep _ hx
    | tail _ hy => exact ih y hy

variable {k : Kind}

theorem latest_eq (h : Upkeep base past) (other : k ≠ .upkeep) : latest k past = latest k base := by
  induction h with
  | refl => rfl
  | step _ hx ih => rw [latest_cons_of_ne (hx ▸ other.symm), ih]

theorem heldAt_eq (h : Upkeep base past) (other : k ≠ .upkeep) : heldAt k past = heldAt k base := by
  induction h with
  | refl => rfl
  | step _ hx ih => rw [heldAt_cons_of_ne (hx ▸ other.symm), ih]

theorem takeWhile (h : Upkeep base past) (other : k ≠ .upkeep) :
    Upkeep (base.takeWhile (·.kind ≠ k)) (past.takeWhile (·.kind ≠ k)) := by
  induction h with
  | refl => exact .refl
  | step _ hx ih =>
    rw [List.takeWhile_cons_of_pos (by simp [hx, other.symm])]
    exact ih.step hx

end Upkeep

/-! ## Updates -/

namespace Update

/-- The call that writes half of a copy. -/
def writing : Half → Record → Store.Call
  | .spec, copy => .update copy
  | .status, copy => .updateStatus copy

/-- Such a call with its answer. -/
def written : Half → Record → Except StoreError Nat → Exchange
  | .spec, copy, answer => ⟨.store (.update copy), answer⟩
  | .status, copy, answer => ⟨.store (.updateStatus copy), answer⟩

@[simp] theorem kind_written (half : Half) (copy : Record) (answer : Except StoreError Nat) :
    (written half copy answer).kind = .upkeep := by cases half <;> rfl

@[simp] theorem read?_written (half : Half) (copy : Record) (answer : Except StoreError Nat) :
    (written half copy answer).read? = none := by cases half <;> rfl

variable {β : Type} {asks : List Exchange → Request → Prop}
  {ends : List Exchange → Except SyncError β → Record → Prop} {copy : Record}
  {past : List Exchange}

theorem ensures_put (half : Half) (f : Except StoreError Nat → Session β) :
    ((liftM (put half copy) : Session _) >>= f).Ensures asks ends copy past ↔
      asks past (.store (writing half copy)) ∧
        ∀ answer, (f answer).Ensures asks ends copy (written half copy answer :: past) := by
  cases half with
  | spec => exact ⟨fun h => ⟨h.1, fun a => h.2 a trivial⟩, fun h => ⟨h.1, fun a _ => h.2 a⟩⟩
  | status => exact ⟨fun h => ⟨h.1, fun a => h.2 a trivial⟩, fun h => ⟨h.1, fun a _ => h.2 a⟩⟩

theorem ensures_refresh (f : Unit → Session β) :
    (refresh >>= f).Ensures asks ends copy past ↔
      asks past (.store (.get copy.key)) ∧
        (∀ r, r.key = copy.key →
          (f ()).Ensures asks ends r (⟨.store (.get copy.key), .ok r⟩ :: past)) ∧
        ∀ e, ends (⟨.store (.get copy.key), .error e⟩ :: past) (.error (.store e)) copy := by
  constructor
  · intro h
    exact ⟨h.1, fun r hr => h.2 (.ok r) hr, fun e => h.2 (.error e) trivial⟩
  · rintro ⟨asked, got, failed⟩
    refine ⟨asked, fun a honest => ?_⟩
    cases a with
    | ok r => exact got r honest
    | error e => exact failed e

/-- The rule for updates. `inv` holds of the copy before every try; what was done so far may
be part of it. -/
theorem ensures_tries (policy : RetryPolicy) (half : Half) (change : Record → Record × β)
    (inv : List Exchange → Record → Prop)
    (asked : ∀ base copy, inv base copy → ∀ past, Upkeep base past →
      asks past (.store (.get (change copy).1.key)) ∧ asks past (.sleep policy.conflictDelay))
    (writes : ∀ past copy, inv past copy → asks past (.store (writing half (change copy).1)))
    (again : ∀ past copy, inv past copy → ∀ r : Record, ∀ error, r.key = (change copy).1.key →
      inv (⟨.store (.get (change copy).1.key), .ok r⟩ :: ⟨.sleep policy.conflictDelay, ()⟩ ::
        written half (change copy).1 (.error error) :: past) r)
    (done : ∀ past copy, inv past copy → ∀ r : Record, ∀ token, r.key = (change copy).1.key →
      ends (⟨.store (.get (change copy).1.key), .ok r⟩ ::
        written half (change copy).1 (.ok token) :: past) (.ok (change copy).2) r)
    (failed : ∀ base copy, inv base copy → ∀ past error copy', Upkeep base past →
      lastRead past = lastRead base → copy' = copy ∨ copy' = (change copy).1 →
      ends past (.error error) copy')
    (n : Nat) (start : inv past copy) :
    (tries policy half change n).Ensures asks ends copy past := by
  induction n generalizing past copy with
  | zero => exact failed past copy start past _ copy .refl rfl (.inl rfl)
  | succ n ih =>
    have wrote (answer : Except StoreError Nat) :
        Upkeep past (written half (change copy).1 answer :: past) := .step .refl (by simp)
    have unread (answer : Except StoreError Nat) :
        lastRead (written half (change copy).1 answer :: past) = lastRead past :=
      lastRead_cons_of_none (by simp) past
    unfold tries
    simp only [Session.ensures_get, Session.ensures_set, ensures_put]
    refine ⟨writes past copy start, fun answer => ?_⟩
    cases answer with
    | ok token =>
      refine (ensures_refresh _).2 ⟨(asked past copy start _ (wrote _)).1, ?_, ?_⟩
      · intro r hr
        exact done past copy start r token hr
      · intro e
        exact failed past copy start _ _ _ ((wrote _).step rfl) (unread _) (.inr rfl)
    | error error =>
      by_cases conflict : error.isConflict = true
      · simp only [conflict, if_true]
        refine ⟨(asked past copy start _ (wrote _)).2, fun _ _ => ?_⟩
        refine (ensures_refresh _).2 ⟨(asked past copy start _ ((wrote _).step rfl)).1, ?_, ?_⟩
        · intro r hr
          exact ih (again past copy start r error hr)
        · intro e
          exact failed past copy start _ _ _ (((wrote _).step rfl).step rfl) (unread _) (.inr rfl)
      · simp only [conflict]
        exact failed past copy start _ _ _ (wrote _) (unread _) (.inr rfl)

end Update

end Tributary
