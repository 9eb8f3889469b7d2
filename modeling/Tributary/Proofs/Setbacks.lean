import Tributary.Proofs.Commits
import Tributary.Proofs.Passes

/-!
# Setbacks

An attempt of a pass can fail at five points: the aggregation, the access to the downstream, the
push, the entry of the identity that the push has reported, and the teardown. `Pass.Setback` reads
off from what a pass has done that this has just happened, and what is to be entered for it.
`reliable` says that the store has answered every reading and that no update of the status was
given up.
-/

namespace Tributary

/-! ## What the store has answered -/

namespace Exchange

/-- A write of half of a record was refused. -/
def refuses : Half → Exchange → Bool
  | .spec, ⟨.store (.update _), .error _⟩ => true
  | .status, ⟨.store (.updateStatus _), .error _⟩ => true
  | _, _ => false

/-- A deletion was refused. -/
def refusesRemoval : Exchange → Bool
  | ⟨.store (.delete _), .error _⟩ => true
  | _ => false

end Exchange

/-- How often half of a record was refused in the update that is being tried: since a write was
granted, or something else was done. -/
def refusals (half : Half) : List Exchange → Nat
  | [] => 0
  | x :: past =>
    if x.kind = .upkeep ∧ x.isCommit = false then
      refusals half past + if x.refuses half then 1 else 0
    else 0

/-- The store answers a reading, and refuses a status only for a conflict, and not as often as it
may be tried. -/
def Exchange.isSteady (attempts : Nat) (past : List Exchange) : Exchange → Bool
  | ⟨.store (.get _), .error _⟩ => false
  | ⟨.store (.updateStatus _), .error error⟩ =>
    error.isConflict && decide (refusals .status past + 1 < attempts)
  | _ => true

/-- Every reading has succeeded, and no update of the status was given up. -/
def reliable (attempts : Nat) : List Exchange → Bool
  | [] => true
  | x :: past => x.isSteady attempts past && reliable attempts past

/-- The version that is stored as far as a program knows: it was read last, and nothing was
written since. -/
def known : List Exchange → Option Record
  | [] => none
  | x :: past => if x.read?.isSome || x.isCommit then x.read? else known past

/-- The version that was read first. -/
def firstRead (past : List Exchange) : Option Record := past.getLast?.bind (·.read?)

/-- The version that was read last was read because a deletion was refused. -/
def rereadForRemoval : List Exchange → Bool
  | [] => false
  | x :: past => if x.read?.isSome then past.head?.any (·.refusesRemoval) else rereadForRemoval past

section

variable {half : Half} {attempts : Nat} {past : List Exchange} {x : Exchange} {c v : Record}
  {error : StoreError}

theorem refusals_of_ne (h : x.kind ≠ .upkeep) : refusals half (x :: past) = 0 := by
  simp [refusals, h]

@[simp] theorem refusals_sleep (time : Duration) :
    refusals half (⟨.sleep time, ()⟩ :: past) = refusals half past := by
  cases half <;> simp [refusals, Exchange.kind, Exchange.isCommit, Exchange.refuses]

@[simp] theorem refusals_get (key : String) (a : Except StoreError Record) :
    refusals half (⟨.store (.get key), a⟩ :: past) = refusals half past := by
  have uncommitted : Exchange.isCommit ⟨.store (.get key), a⟩ = false := by cases a <;> rfl
  cases half <;> simp [refusals, Exchange.kind, uncommitted, Exchange.refuses]

@[simp] theorem refusals_refused :
    refusals half (Update.written half c (.error error) :: past) = refusals half past + 1 := by
  cases half <;>
    simp [refusals, Update.written, Exchange.kind, Exchange.isCommit, Exchange.refuses]

theorem reliable_tail (h : reliable attempts (x :: past) = true) : reliable attempts past = true :=
  (Bool.and_eq_true_iff.1 h).2

theorem unreliable_of_unread (key : String) (error : StoreError) (past : List Exchange) :
    ¬ reliable attempts (⟨.store (.get key), .error error⟩ :: past) = true := by
  intro h
  cases h

/-- A status that is still being tried was not refused too often. -/
theorem refusals_lt (positive : 0 < attempts) (h : reliable attempts past = true) :
    refusals .status past < attempts := by
  induction past with
  | nil => exact positive
  | cons x past ih =>
    have before := ih (reliable_tail h)
    unfold refusals
    split
    · split
      · next refused =>
        have steady := (Bool.and_eq_true_iff.1 h).1
        unfold Exchange.refuses at refused
        split at refused
        · exact absurd ‹Half.status = Half.spec› (by simp)
        · simp only [Exchange.isSteady, Bool.and_eq_true, decide_eq_true_eq] at steady
          exact steady.2
        · cases refused
      · exact before
    · exact positive

theorem known_of_read (h : x.read? = some v) : known (x :: past) = some v := by
  simp [known, h]

theorem known_of_other (unread : x.read? = none) (uncommitted : x.isCommit = false) :
    known (x :: past) = known past := by
  simp [known, unread, uncommitted]

theorem reread_of_unread (unread : x.read? = none) :
    rereadForRemoval (x :: past) = rereadForRemoval past := by
  simp [rereadForRemoval, unread]

end

/-! ## Failed attempts -/

namespace Pass

/-- An attempt has just failed, for a reason of a category. That nothing is found is no failure of a
teardown, and that the record is gone is none of the entry of an identity. -/
inductive Setback (attempts : Nat) : List Exchange → Category → String → Prop
  | aggregation {type : String} {sources : List Contribution} {error : SyncError}
      {past : List Exchange} :
      Setback attempts (⟨.aggregate type sources, .error error⟩ :: past) .permanent
        ("aggregation failed: " ++ error.message)
  | access {reference : Option String} {error : DownstreamError} {past : List Exchange}
      (late : ¬ Early past) :
      Setback attempts (⟨.credentials reference, .error error⟩ :: past) error.category error.text
  | push {type : String} {scope : Table String} {credentials : Credentials} {a : Aggregation}
      {error : DownstreamError} {past : List Exchange} :
      Setback attempts (⟨.push type scope credentials a, .error error⟩ :: past) error.category
        error.text
  /-- The entry of an identity was refused for another reason than a conflict. -/
  | migration {r : Record} {error : StoreError} {past : List Exchange} (late : ¬ Early past)
      (present : error.isNotFound = false) (other : error.isConflict = false) :
      Setback attempts (⟨.store (.update r), .error error⟩ :: past) .transient
        ("identity migration failed: " ++ (SyncError.store error).message)
  /-- It was refused for a conflict as often as it may be tried. -/
  | conflicts {r : Record} {error : StoreError} {past : List Exchange} (late : ¬ Early past)
      (conflict : error.isConflict = true) (spent : refusals .spec past + 1 = attempts) :
      Setback attempts (⟨.store (.update r), .error error⟩ :: past) .transient
        ("identity migration failed: " ++ (SyncError.retriesExhausted r.key attempts).message)
  | teardownAccess {reference : Option String} {error : DownstreamError} {past : List Exchange}
      (early : Early past) (found : error.isNotFound = false) :
      Setback attempts (⟨.credentials reference, .error error⟩ :: past) error.category
        ("teardown failed: " ++ error.text)
  | teardown {type : String} {scope : Table String} {credentials : Credentials}
      {remaining : Aggregation} {error : DownstreamError} {past : List Exchange}
      (found : error.isNotFound = false) :
      Setback attempts (⟨.teardown type scope credentials remaining, .error error⟩ :: past)
        error.category ("teardown failed: " ++ error.text)

/-- No attempt has failed so far. -/
def Undefeated (attempts : Nat) (past : List Exchange) : Prop :=
  ∀ failed category reason, failed <:+ past → ¬ Setback attempts failed category reason

variable {attempts : Nat} {past base : List Exchange} {x : Exchange} {category : Category}
  {reason : String}

theorem undefeated_nil : Undefeated attempts [] := by
  intro failed category reason earlier setback
  obtain rfl := List.suffix_nil.1 earlier
  cases setback

theorem Undefeated.cons (h : Undefeated attempts past)
    (fine : ∀ category reason, ¬ Setback attempts (x :: past) category reason) :
    Undefeated attempts (x :: past) := by
  intro failed category reason earlier
  obtain rfl | earlier := List.suffix_cons_iff.1 earlier
  · exact fine category reason
  · exact h failed category reason earlier

/-- Nothing that an update does before the end of the teardown counts. -/
theorem Setback.not_upkeep (early : Early past) (hx : x.kind = .upkeep) :
    ¬ Setback attempts (x :: past) category reason := by
  intro setback
  cases setback with
  | migration late | conflicts late => exact late early
  | _ => cases hx

theorem Undefeated.upkeep (h : Undefeated attempts base) (early : Early base)
    (u : Upkeep base past) : Undefeated attempts past := by
  induction u with
  | refl => exact h
  | step u hx ih => exact ih.cons fun _ _ => Setback.not_upkeep (early.upkeep u) hx

/-- The writing of a status is no attempt. -/
theorem Setback.not_status (c : Record) (answer : Except StoreError Nat) :
    ¬ Setback attempts (Update.written .status c answer :: past) category reason := by
  intro setback
  cases setback

end Pass

end Tributary
