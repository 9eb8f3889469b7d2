import Tributary.Proofs.Protocol
import Tributary.Registry

/-!
# What registrations ask

A registration, a withdrawal or a request for deletion makes one change to the version that it
read last, and makes it again if somebody else has written first. A withdrawal that reports
an entry has removed it itself.
-/

namespace Tributary

/-- The program's own edit of a version was granted. -/
def Edited (past : List Exchange) (v r : Record) : Prop :=
  ∃ since token before, past = since ++ ⟨.store (.update r), .ok token⟩ :: before ∧
    lastRead before = some v

namespace Registry

/-- One change, whatever the version. -/
def changing (key : String) (creates : Record → Prop) (edit : Record → Record) : Protocol where
  key := key
  creates := creates
  edits _ v r := r = edit v
  marks _ _ _ := False
  deletes _ _ := False
  calls _ _ := False

def registering (key : String) (template : Template) (source : Contribution) : Protocol :=
  changing key (fun r => ∃ now, r = template.instantiate key source now) (contribute source)

def unregistering (key : String) (owner : Owner) : Protocol :=
  changing key (fun _ => False) fun r => (withdraw owner r).1

def condemning (key : String) : Protocol := changing key (fun _ => False) condemn

/-- Who reports that there was an entry has removed it. -/
def Withdrawn (owner : Owner) (past : List Exchange) : Except SyncError Bool → Prop
  | .ok true => ∃ v : Record, (v.sourceFor owner).isSome ∧ Edited past v (withdraw owner v).1
  | _ => True

theorem contribute_keeps (source : Contribution) (r : Record) :
    (contribute source r).key = r.key ∧ (contribute source r).token = r.token := by
  unfold contribute
  split <;> exact ⟨rfl, rfl⟩

theorem withdraw_keeps (owner : Owner) (r : Record) :
    (withdraw owner r).1.key = r.key ∧ (withdraw owner r).1.token = r.token := by
  unfold withdraw
  split <;> exact ⟨rfl, rfl⟩

variable {key : String} {past : List Exchange} {policy : RetryPolicy}

/-- Reading a record, with all that comes after it. -/
theorem ensures_get {p : Protocol} {α : Type} {ends : List Exchange → α → Prop}
    {f : Except StoreError Record → Program α} (still : Protocol.Open past)
    (found : ∀ r past, p.Holds past r → (f (.ok r)).Ensures p.Asks ends past)
    (failed : ∀ error past, Protocol.Open past → (f (.error error)).Ensures p.Asks ends past) :
    (Program.request (.store (.get p.key)) >>= f).Ensures p.Asks ends past := by
  rw [Program.ensures_request]
  refine ⟨⟨still, rfl⟩, fun a honest => ?_⟩
  cases a with
  | ok r => exact found r _ (still.got honest)
  | error error => exact failed error _ (still.cons rfl)

theorem ensures_edit {creates : Record → Prop} (edit : Record → Record) {r : Record}
    (keeps : ∀ r, (edit r).key = r.key ∧ (edit r).token = r.token)
    (holds : (changing key creates edit).Holds past r) :
    (Update.spec policy edit).Ensures (changing key creates edit).Asks (fun _ _ _ => True) r
      past :=
  holds.ensures_editing policy keeps (fun _ _ _ _ => rfl) (fun _ _ _ _ _ _ _ => trivial)
    fun _ _ _ _ _ _ _ => trivial

theorem join_ensures {template : Template} {source : Contribution} {r : Record}
    (holds : (registering key template source).Holds past r) :
    (join policy source r).Ensures (registering key template source).Asks (fun _ _ => True)
      past := by
  unfold join
  split
  · rw [Session.ensures_start]
    refine (ensures_edit _ (contribute_keeps source) holds).mono fun past result _ _ => ?_
    cases result <;> trivial
  · trivial

theorem register_ensures (template : Template) (source : Contribution) :
    (register policy key template source).Ensures (registering key template source).Asks
      (fun _ _ => True) [] := by
  refine ensures_get (p := registering key template source) (by simp [Protocol.Open]) ?_ ?_
  · intro r past holds
    exact join_ensures holds
  · intro error past still
    cases error with
    | notFound =>
      refine ⟨⟨still, trivial⟩, fun now _ => ⟨⟨still.cons rfl, rfl, now, rfl⟩, fun a _ => ?_⟩⟩
      cases a with
      | ok r => trivial
      | error error =>
        cases error with
        | alreadyExists =>
          refine ensures_get (p := registering key template source)
            ((still.cons rfl).cons rfl) ?_ ?_
          · intro r past holds
            exact join_ensures holds
          · intros
            trivial
        | _ => trivial
    | _ => trivial

theorem unregister_ensures (owner : Owner) :
    (unregister policy key owner).Ensures (unregistering key owner).Asks (Withdrawn owner) [] := by
  refine ensures_get (p := unregistering key owner) (by simp [Protocol.Open]) ?_ ?_
  · intro r past holds
    dsimp only
    split
    · rw [Session.ensures_start]
      refine holds.ensures_editing policy (withdraw_keeps owner) (fun _ _ _ _ => rfl) ?_ ?_
      · intro past' v token r _ holds' _
        change Withdrawn owner _ (.ok (withdraw owner v).2)
        by_cases present : (v.sourceFor owner).isSome
        · have removed : (withdraw owner v).2 = true := by simp [withdraw, present]
          rw [removed]
          exact ⟨v, present, [_], token, past', rfl, holds'.read⟩
        · have nothing : (withdraw owner v).2 = false := by simp [withdraw, present]
          rw [nothing]
          trivial
      · intros
        trivial
    · trivial
  · intro error past _
    cases error <;> trivial

theorem requestDeletion_ensures :
    (requestDeletion policy key).Ensures (condemning key).Asks (fun _ _ => True) [] := by
  refine ensures_get (p := condemning key) (by simp [Protocol.Open]) ?_ ?_
  · intro r past holds
    dsimp only
    split
    · trivial
    · rw [Session.ensures_start]
      refine (ensures_edit condemn (fun _ => ⟨rfl, rfl⟩) holds).mono
        fun past result _ _ => ?_
      cases result <;> trivial
  · intro error past _
    cases error <;> trivial

end Registry

end Tributary
