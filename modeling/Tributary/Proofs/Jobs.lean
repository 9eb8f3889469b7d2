import Tributary.Proofs.Commits
import Tributary.Proofs.Passes
import Tributary.Proofs.Registrations
import Tributary.Proofs.Scene

/-!
# Jobs

Everything that is ever run against a store: registrations, withdrawals, requests for
deletion and passes, any number of each. `Job.ensures` collects what each of them keeps to.
-/

namespace Tributary

inductive Job where
  | register (policy : RetryPolicy) (key : String) (template : Template) (source : Contribution)
  | unregister (policy : RetryPolicy) (key : String) (owner : Owner)
  | requestDeletion (policy : RetryPolicy) (key : String)
  | reconcile (engine : Engine) (key : String)

namespace Job

@[reducible] def Result : Job → Type
  | .register .. => Except SyncError Record
  | .unregister .. => Except SyncError Bool
  | .requestDeletion .. => Except SyncError Bool
  | .reconcile .. => Except SyncError Action

def program : (j : Job) → Program j.Result
  | .register policy key template source => Registry.register policy key template source
  | .unregister policy key owner => Registry.unregister policy key owner
  | .requestDeletion policy key => Registry.requestDeletion policy key
  | .reconcile e key => e.reconcile key

/-- One job for each member. -/
def crew (jobs : Nat → Job) : Crew := ⟨fun i => (jobs i).Result, fun i => (jobs i).program⟩

/-- Whether a job is a pass over a record. -/
def passes (key : String) : Job → Bool
  | .reconcile _ k => k = key
  | _ => false

def protocol : Job → Protocol
  | .register _ key template source => Registry.registering key template source
  | .unregister _ key owner => Registry.unregistering key owner
  | .requestDeletion _ key => Registry.condemning key
  | .reconcile _ key => Pass.protocol key

/-- An owner known by its name registers an empty configuration under the key `r`. -/
def joins (name : String) : Job :=
  .register {} "r" { resourceType := "t", externalId := some "live" } ⟨⟨"App", "ns", name⟩, 0, []⟩

/-- Such an owner registers something that does not exist downstream yet. -/
def founds (name : String) : Job :=
  .register {} "r" { resourceType := "t" } ⟨⟨"App", "ns", name⟩, 0, []⟩

def leaves (name : String) : Job := .unregister {} "r" ⟨"App", "ns", name⟩

/-- A pass over the record of the key `r`. -/
def looks : Job := .reconcile { knows := fun _ => true } "r"

/-- The jobs of a list, and nothing for anybody else to do. -/
def roster (jobs : List Job) (i : Nat) : Job := jobs.getD i (.requestDeletion {} "")

/-- What the result of a job says. -/
def Ends : (j : Job) → List Exchange → j.Result → Prop
  | .unregister _ _ owner => Registry.Withdrawn owner
  | .register .. | .requestDeletion .. | .reconcile .. => fun _ _ => True

theorem protocol_of_passes {j : Job} {key : String} (h : j.passes key = true) :
    j.protocol = Pass.protocol key := by
  cases j with
  | reconcile e k => exact congrArg Pass.protocol (of_decide_eq_true h)
  | register | unregister | requestDeletion => cases h

theorem ensures (j : Job) : j.program.Ensures j.protocol.Asks j.Ends [] := by
  cases j with
  | register policy key template source => exact Registry.register_ensures template source
  | unregister policy key owner => exact Registry.unregister_ensures owner
  | requestDeletion policy key => exact Registry.requestDeletion_ensures
  | reconcile e key => exact e.reconcile_ensures key

end Job

variable {faulty : StoreError → Prop} {jobs : Nat → Job} {start m : Memory}
  {history earlier : List Move} {mv : Move}

namespace Run

theorem allowed (run : Run faulty (Job.crew jobs) start (mv :: earlier) m)
    (h : start.Sound) :
    (jobs mv.member).protocol.Asks (own mv.member earlier) mv.exchange.request :=
  run.asked h rfl (jobs mv.member).ensures

theorem committed (run : Run faulty (Job.crew jobs) start (mv :: earlier) m)
    (h : start.Sound) (key : String) :
    Commit (jobs mv.member).protocol (own mv.member earlier) key mv.exchange
      (mv.before.records.get? key) (mv.after.records.get? key) :=
  run.commit h (jobs mv.member).ensures key

/-- What a move of a pass makes of its record. -/
theorem passed (run : Run faulty (Job.crew jobs) start (mv :: earlier) m)
    (h : start.Sound) {key : String} (pass : (jobs mv.member).passes key = true) :
    Commit (Pass.protocol key) (own mv.member earlier) key mv.exchange
      (mv.before.records.get? key) (mv.after.records.get? key) :=
  Job.protocol_of_passes pass ▸ run.committed h key

theorem key_of_reads (run : Run faulty (Job.crew jobs) start history m) (h : start.Sound) {i : Nat}
    {c : Record} (reads : Reads i c history) : c.key = (jobs i).protocol.key := by
  obtain ⟨mv, past, rfl, rfl, read⟩ := reads
  have asked := (run.allowed h).2
  obtain ⟨before, serves, _⟩ := run.last
  obtain ⟨i, x, old, new⟩ := mv
  obtain ⟨k, rfl⟩ | ⟨r, rfl⟩ := Exchange.eq_of_read read
  · exact (serves.honest (before.sound h)).trans asked
  · have granted : old.Grants (.create r) c new := Serves.granted serves
    clear serves read run
    cases granted with
    | create => exact asked.1

/-- What a pass has read is the record of its key, as it was stored then. -/
theorem found_of_reads (run : Run faulty (Job.crew jobs) start history m) (h : start.Sound)
    {i : Nat} {key : String} {c : Record} (pass : (jobs i).passes key = true)
    (reads : Reads i c history) : (memoryAfter start history).records.get? key = some c := by
  have found := run.stored_of_reads h reads
  rwa [run.key_of_reads h reads, Job.protocol_of_passes pass, run.memory_eq] at found

/-- What a granted edit of its own record is made of. -/
theorem edited (run : Run faulty (Job.crew jobs) start (mv :: earlier) m) (h : start.Sound)
    {key : String}
    (mine : (jobs mv.member).protocol.key = key) {r : Record} {token : Nat}
    (edit : mv.exchange = ⟨.store (.update r), .ok token⟩) :
    r.key = key ∧ ∃ v w, lastRead (own mv.member earlier) = some v ∧
      mv.before.records.get? key = some v ∧ mv.after.records.get? key = some w ∧
      w.sources = r.sources := by
  have allowed := (run.allowed h).2
  have committed := run.committed h key
  rw [edit] at allowed committed
  obtain ⟨_, _, mine', same, _⟩ := allowed
  have hkey : r.key = key := (same.trans mine').trans mine
  refine ⟨hkey, ?_⟩
  generalize mv.before.records.get? _ = old at committed ⊢
  generalize mv.after.records.get? _ = new at committed ⊢
  cases committed with
  | kept none => simp [Exchange.commits, hkey] at none
  | @edited v _ _ now _ _ read => exact ⟨v, _, read, rfl, rfl, rfl⟩

end Run

end Tributary
