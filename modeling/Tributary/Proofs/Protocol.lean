import Tributary.Proofs.Copy

/-!
# Protocols

What one program may ask of the store is a matter between it and its record: which record it
may create, what it may make of the version it read last, and which version it may delete.
`ensures_editing` and `ensures_marking` are the rules for the two kinds of updates, under
whatever protocol.
-/

namespace Tributary

namespace Exchange

/-- A record was deleted. -/
def isRemoval : Exchange → Bool
  | ⟨.store (.delete _), .ok _⟩ => true
  | _ => false

theorem isRemoval_of_upkeep (x : Exchange) (h : x.kind = .upkeep) : x.isRemoval = false := by
  unfold isRemoval
  split
  · cases h
  · rfl

end Exchange

/-- How a program deals with its record, given what it has done. -/
structure Protocol where
  key : String
  creates : Record → Prop
  /-- What may be made of a version, except for its status. -/
  edits : List Exchange → Record → Record → Prop
  /-- Which status a version may get. -/
  marks : List Exchange → Record → Status → Prop
  deletes : List Exchange → Record → Prop
  /-- What may be asked of others than the store. -/
  calls : List Exchange → Request → Prop

namespace Protocol

/-- What may be asked of the store or of others. Writes are made of the version that was
read last and carry its token. -/
def Allows (p : Protocol) (past : List Exchange) : Request → Prop
  | .store (.get key) => key = p.key
  | .store (.create r) => r.key = p.key ∧ p.creates r
  | .store (.update r) => ∃ v, lastRead past = some v ∧ v.key = p.key ∧ r.key = v.key ∧
      r.token = v.token ∧ p.edits past v r
  | .store (.updateStatus r) => ∃ v, lastRead past = some v ∧ v.key = p.key ∧ r.key = v.key ∧
      r.token = v.token ∧ p.marks past v r.status
  | .store (.delete r) => lastRead past = some r ∧ r.key = p.key ∧ p.deletes past r
  | .store .list => False
  | .now | .sleep _ => True
  | q => p.calls past q

/-- The record has not been deleted. -/
def Open (past : List Exchange) : Prop := ∀ x ∈ past, x.isRemoval = false

/-- Nothing is asked after the record has been deleted. -/
def Asks (p : Protocol) (past : List Exchange) (q : Request) : Prop := Open past ∧ p.Allows past q

theorem Open.cons {past : List Exchange} (h : Open past) {x : Exchange}
    (hx : x.isRemoval = false) : Open (x :: past) := by
  intro y hy
  cases hy with
  | head => exact hx
  | tail _ hy => exact h y hy

theorem Open.upkeep {base past : List Exchange} (h : Open base) (u : Upkeep base past) :
    Open past :=
  u.forall_mem (fun x hx => x.isRemoval_of_upkeep hx) h

/-- The copy is the version that was read last, and may be written. -/
structure Holds (p : Protocol) (past : List Exchange) (copy : Record) : Prop where
  read : lastRead past = some copy
  key : copy.key = p.key
  still : Open past

/-- The copy is the version that was read last but for its identity downstream. -/
structure Tracks (p : Protocol) (past : List Exchange) (copy v : Record) : Prop where
  read : lastRead past = some v
  key : v.key = p.key
  still : Open past
  same : copy = { v with externalId := copy.externalId }

variable {p : Protocol} {past : List Exchange} {copy : Record}

theorem Holds.tracks (h : p.Holds past copy) : p.Tracks past copy copy :=
  ⟨h.read, h.key, h.still, rfl⟩

theorem Holds.other (h : p.Holds past copy) {x : Exchange} (unread : x.read? = none)
    (still : x.isRemoval = false) : p.Holds (x :: past) copy :=
  ⟨by rw [lastRead_cons_of_none unread]; exact h.read, h.key, h.still.cons still⟩

theorem Tracks.status_eq {v : Record} (h : p.Tracks past copy v) : copy.status = v.status := by
  rw [h.same]

theorem Tracks.generation_eq {v : Record} (h : p.Tracks past copy v) :
    copy.generation = v.generation := by
  rw [h.same]

theorem Tracks.other {v : Record} (h : p.Tracks past copy v) {x : Exchange}
    (unread : x.read? = none) (still : x.isRemoval = false) : p.Tracks (x :: past) copy v :=
  ⟨by rw [lastRead_cons_of_none unread]; exact h.read, h.key, h.still.cons still, h.same⟩

theorem Open.got (h : Open past) {r : Record} (hr : r.key = p.key) :
    p.Holds (⟨.store (.get p.key), .ok r⟩ :: past) r :=
  ⟨rfl, hr, h.cons rfl⟩

/-! ## Updates -/

open Update

variable {β : Type} {ends : List Exchange → Except SyncError β → Record → Prop}
  {change : Record → Record × β}

/-- Read again after a conflict. -/
theorem Open.again (h : Open past) (half : Half) (made : Record) (error : StoreError)
    (time : Duration) {r : Record} (hr : r.key = p.key) :
    p.Holds (⟨.store (.get p.key), .ok r⟩ :: ⟨.sleep time, ()⟩ ::
      written half made (.error error) :: past) r := by
  have wrote : Open (written half made (.error error) :: past) :=
    h.upkeep (.step .refl (by simp))
  exact (wrote.cons rfl).got hr

/-- The rule for updates of everything but the status. -/
theorem Holds.ensures_editing (start : p.Holds past copy) (policy : RetryPolicy)
    (keeps : ∀ c, (change c).1.key = c.key ∧ (change c).1.token = c.token)
    (edits : ∀ past' c, Upkeep past past' → p.Holds past' c → p.edits past' c (change c).1)
    (done : ∀ past' c token r, Upkeep past past' → p.Holds past' c → r.key = p.key →
      ends (⟨.store (.get p.key), .ok r⟩ :: written .spec (change c).1 (.ok token) :: past')
        (.ok (change c).2) r)
    (failed : ∀ past' c copy' e, Upkeep past past' → p.Holds past' c →
      copy' = c ∨ copy' = (change c).1 → ends past' (.error e) copy') :
    (changing policy .spec change).Ensures p.Asks ends copy past := by
  have key {past' c} (h : p.Holds past' c) : (change c).1.key = p.key := (keeps c).1.trans h.key
  refine ensures_tries policy .spec change (fun past' c => Upkeep past past' ∧ p.Holds past' c)
    ?_ ?_ ?_ ?_ ?_ _ ⟨.refl, start⟩
  · rintro base c ⟨_, holds⟩ past' u
    exact ⟨⟨holds.still.upkeep u, key holds⟩, holds.still.upkeep u, trivial⟩
  · rintro past' c ⟨u, holds⟩
    exact ⟨holds.still, c, holds.read, holds.key, (keeps c).1, (keeps c).2, edits past' c u holds⟩
  · rintro past' c ⟨u, holds⟩ r error hr
    rw [key holds] at hr ⊢
    exact ⟨((u.step (by simp)).step rfl).step rfl, holds.still.again _ _ _ _ hr⟩
  · rintro past' c ⟨u, holds⟩ r token hr
    rw [key holds] at hr ⊢
    exact done past' c token r u holds hr
  · rintro base c ⟨u, holds⟩ past' error copy' u' unread made
    exact failed past' c copy' error (u.trans u')
      ⟨unread.trans holds.read, holds.key, holds.still.upkeep u'⟩ made

/-- The rule for updates of the status. -/
theorem Tracks.ensures_marking {v : Record} (start : p.Tracks past copy v) (policy : RetryPolicy)
    (keeps : ∀ c, (change c).1.key = c.key ∧ (change c).1.token = c.token)
    (marks : ∀ past' c v, Upkeep past past' → p.Tracks past' c v →
      p.marks past' v (change c).1.status)
    (done : ∀ past' c v token r, Upkeep past past' → p.Tracks past' c v → r.key = p.key →
      ends (⟨.store (.get p.key), .ok r⟩ :: written .status (change c).1 (.ok token) :: past')
        (.ok (change c).2) r)
    (failed : ∀ past' copy' e, ends past' (.error e) copy') :
    (changing policy .status change).Ensures p.Asks ends copy past := by
  have same {past' c v} (h : p.Tracks past' c v) : c.key = v.key ∧ c.token = v.token := by
    rw [h.same]
    exact ⟨rfl, rfl⟩
  have key {past' c v} (h : p.Tracks past' c v) : (change c).1.key = p.key :=
    ((keeps c).1.trans (same h).1).trans h.key
  refine ensures_tries policy .status change
    (fun past' c => Upkeep past past' ∧ ∃ v, p.Tracks past' c v) ?_ ?_ ?_ ?_ ?_ _
    ⟨.refl, v, start⟩
  · rintro base c ⟨_, v, tracks⟩ past' u
    exact ⟨⟨tracks.still.upkeep u, key tracks⟩, tracks.still.upkeep u, trivial⟩
  · rintro past' c ⟨u, v, tracks⟩
    exact ⟨tracks.still, v, tracks.read, tracks.key, (keeps c).1.trans (same tracks).1,
      (keeps c).2.trans (same tracks).2, marks past' c v u tracks⟩
  · rintro past' c ⟨u, v, tracks⟩ r error hr
    rw [key tracks] at hr ⊢
    exact ⟨((u.step (by simp)).step rfl).step rfl, r, (tracks.still.again _ _ _ _ hr).tracks⟩
  · rintro past' c ⟨u, v, tracks⟩ r token hr
    rw [key tracks] at hr ⊢
    exact done past' c v token r u tracks hr
  · intro base c _ past' error copy' _ _ _
    exact failed past' copy' _

/-- Nothing but upkeep later, the copy is again the version that was read last. -/
def Kept (p : Protocol) (base past : List Exchange) (_ : Unit) (copy : Record) : Prop :=
  Upkeep base past ∧ p.Holds past copy

theorem Open.refreshed {base past : List Exchange} (h : Open past) (u : Upkeep base past)
    (half : Half) (made : Record) (token : Nat) {r : Record} (hr : r.key = p.key) :
    p.Kept base (⟨.store (.get p.key), .ok r⟩ :: written half made (.ok token) :: past) () r := by
  have wrote : Open (written half made (.ok token) :: past) := h.upkeep (.step .refl (by simp))
  exact ⟨(u.step (by simp)).step rfl, wrote.got hr⟩

open Session in
theorem Holds.spec_ensures (start : p.Holds past copy) (policy : RetryPolicy)
    {f : Record → Record} (keeps : ∀ c, (f c).key = c.key ∧ (f c).token = c.token)
    (edits : ∀ past' c, Upkeep past past' → p.Holds past' c → p.edits past' c (f c)) :
    (spec policy f).Ensures p.Asks (Yields (p.Kept past)) copy past :=
  start.ensures_editing policy keeps edits
    (fun _ _ _ _ u holds hr => holds.still.refreshed u _ _ _ hr) fun _ _ _ _ _ _ _ => trivial

open Session in
theorem Tracks.status_ensures {v : Record} (start : p.Tracks past copy v) (policy : RetryPolicy)
    {f : Record → Status}
    (marks : ∀ past' c v, Upkeep past past' → p.Tracks past' c v → p.marks past' v (f c)) :
    (status policy f).Ensures p.Asks (Yields (p.Kept past)) copy past :=
  start.ensures_marking policy (fun _ => ⟨rfl, rfl⟩) marks
    (fun _ _ _ _ _ u tracks hr => tracks.still.refreshed u _ _ _ hr) fun _ _ _ => trivial

end Protocol

end Tributary
