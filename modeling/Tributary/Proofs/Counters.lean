import Mathlib.Data.List.Induction
import Tributary.Proofs.Generations
import Tributary.Proofs.Hosting

/-!
# Counters

Tokens, generations, configuration versions and the numbers of alarms are natural numbers here, with
no end to them. Counters of 64 bits come to the same until one of them overflows. A move counts none
of them up by more than one (`Job.commit_counted`, `Site.act_counted`), so the moves bound them all
(`Run.counted`, `Site.play_counted`).
-/

namespace Tributary

/-- No counter of a record has passed a limit. -/
structure Record.Counted (limit : Nat) (r : Record) : Prop where
  generation : r.generation ≤ limit
  configVersion : r.status.configVersion ≤ limit

/-- No counter of a memory or of its records has passed a limit. -/
structure Memory.Counted (limit : Nat) (m : Memory) : Prop where
  nextToken : m.nextToken ≤ limit
  records : ∀ key r, m.records.get? key = some r → r.Counted limit

/-- The numbers of alarms have not passed a limit. -/
structure Host.Counted (limit : Nat) (h : Host) : Prop where
  intake : h.intake.issued ≤ limit
  requeue : h.requeue.issued ≤ limit

variable {limit : Nat}

theorem Record.Counted.next {r : Record} (counted : r.Counted limit) : r.Counted (limit + 1) :=
  ⟨Nat.le_succ_of_le counted.generation, Nat.le_succ_of_le counted.configVersion⟩

theorem Host.Counted.next {h : Host} (counted : h.Counted limit) : h.Counted (limit + 1) :=
  ⟨Nat.le_succ_of_le counted.intake, Nat.le_succ_of_le counted.requeue⟩

/-! ## Records -/

theorem Record.Follows.generation_le {v w : Record} (h : v.Follows w) :
    w.generation ≤ v.generation + 1 := by
  cases h with
  | same agrees =>
    have := agrees.generation
    omega
  | raised next => omega

/-- A pass counts the version of the configuration up when it has synchronised a record. -/
theorem Pass.Marks.configVersion_le {past : List Exchange} {v : Record} {s : Status}
    (h : Pass.Marks past v s) : s.configVersion ≤ v.status.configVersion + 1 := by
  cases h with
  | remaining =>
    split
    · exact Nat.le_refl _
    · exact Nat.le_succ _
  | reset | syncing => exact Nat.le_succ _
  | success => exact Nat.le_refl _
  | failure =>
    unfold Backoff.recordFailure
    dsimp only
    split <;> split <;> exact Nat.le_succ _

namespace Job

variable {j : Job} {past : List Exchange} {key : String} {x : Exchange} {v w : Record}
  {s : Status} {old new : Option Record}

theorem configVersion_le (marks : j.protocol.marks past v s) :
    s.configVersion ≤ v.status.configVersion + 1 := by
  cases j with
  | reconcile e key => exact Pass.Marks.configVersion_le marks
  | register | unregister | requestDeletion => exact marks.elim

/-- A record is created with its first generation and has not been synchronised. -/
theorem counted_of_creates (creates : j.protocol.creates v) : v.Counted (limit + 1) := by
  cases j with
  | register policy key template source =>
    obtain ⟨now, rfl⟩ := creates
    exact ⟨Nat.le_add_left 1 limit, Nat.zero_le _⟩
  | unregister | requestDeletion | reconcile => exact creates.elim

theorem commit_counted (h : Commit j.protocol past key x old new)
    (counted : ∀ v ∈ old, v.Counted limit) : ∀ w ∈ new, w.Counted (limit + 1) := by
  intro w stored
  cases h with
  | kept => exact (counted w stored).next
  | @created r token _ _ creates =>
    obtain rfl := Option.some.inj stored
    have made : r.Counted (limit + 1) := counted_of_creates creates
    exact ⟨made.generation, made.configVersion⟩
  | @edited v r token now _ _ _ edits =>
    obtain rfl := Option.some.inj stored
    obtain ⟨generation, version⟩ := counted v rfl
    have raised := (edits_follow edits).generation_le
    constructor
    · change r.generation ≤ limit + 1
      omega
    · change v.status.configVersion ≤ limit + 1
      omega
  | @marked v r token _ _ _ marks =>
    obtain rfl := Option.some.inj stored
    obtain ⟨generation, version⟩ := counted v rfl
    have raised := configVersion_le marks
    constructor
    · change v.generation ≤ limit + 1
      omega
    · change r.status.configVersion ≤ limit + 1
      omega
  | deleted => cases stored

end Job

/-! ## Tokens -/

theorem Memory.Grants.nextToken_le {m m' : Memory} {c : Store.Call} {a : c.Result}
    (h : m.Grants c a m') : m'.nextToken ≤ m.nextToken + 1 := by
  cases h with
  | get | delete | list => exact Nat.le_succ _
  | create | update | updateStatus => exact Nat.le_refl _

theorem Serves.nextToken_le {faulty : StoreError → Prop} {m m' : Memory} {q : Request}
    {a : q.Answer} (h : Serves faulty m q a m') : m'.nextToken ≤ m.nextToken + 1 := by
  have unless_granted (same : m' = m) : m'.nextToken ≤ m.nextToken + 1 :=
    same ▸ Nat.le_succ m.nextToken
  cases q with
  | store c =>
    cases a with
    | ok a => exact h.granted.nextToken_le
    | error e => exact unless_granted h.refused
  | _ => exact unless_granted h

/-- The counters of a memory and of its records have counted no more than the moves since. -/
theorem Run.counted {faulty : StoreError → Prop} {jobs : Nat → Job} {start m : Memory}
    {history : List Move} (run : Run faulty (Job.crew jobs) start history m) (h : start.Sound)
    (counted : start.Counted limit) : m.Counted (limit + history.length) := by
  induction history generalizing m with
  | nil =>
    rw [run.memory_eq]
    exact counted
  | cons mv earlier ih =>
    obtain ⟨before, serves, -⟩ := run.last
    have earlier := ih before
    rw [run.memory_eq]
    constructor
    · have issued := serves.nextToken_le
      have passed := earlier.nextToken
      change mv.after.nextToken ≤ limit + (_ + 1)
      omega
    · intro key r stored
      exact Job.commit_counted (run.committed h key) (fun v found => earlier.records key v found) r
        stored

/-! ## Alarms -/

namespace Host.Counted

variable {h : Host}

theorem takeEvent (counted : h.Counted limit) : h.takeEvent.1.Counted (limit + 1) := by
  unfold Host.takeEvent
  split
  · exact counted.next
  · dsimp only
    split
    · exact ⟨Nat.succ_le_succ counted.intake, counted.next.requeue⟩
    · exact ⟨counted.next.intake, counted.next.requeue⟩

theorem intakeRings (counted : h.Counted limit) (key : String) (number : Nat) :
    (h.intakeRings key number).1.Counted (limit + 1) := by
  unfold Host.intakeRings
  split
  · exact counted.next
  · next claimed =>
    rw [Debouncer.eq_of_claim claimed]
    exact ⟨counted.next.intake, counted.next.requeue⟩

theorem requeueRings (counted : h.Counted limit) (key : String) (number : Nat) :
    (h.requeueRings key number).1.Counted (limit + 1) := by
  unfold Host.requeueRings
  split
  · exact counted.next
  · next claimed =>
    rw [Debouncer.eq_of_claim claimed]
    exact ⟨counted.next.intake, counted.next.requeue⟩

theorem settle (counted : h.Counted limit) (key : String) (outcome : Except SyncError Action) :
    (h.settle key outcome).1.Counted (limit + 1) := by
  unfold Host.settle
  split
  · exact counted.next
  · exact ⟨counted.next.intake, Nat.succ_le_succ counted.requeue⟩

end Host.Counted

namespace Site

variable {jobs : Nat → Job} {s : Site jobs} (knows : String → Bool)
  (aggregate : String → List Contribution → Except SyncError Aggregation)

theorem work_counted (counted : s.host.Counted limit) (key : String) (around : Surroundings) :
    (s.work knows aggregate key around).host.Counted (limit + 1) := by
  have next := counted.next
  unfold work
  split
  · exact next
  · exact next
  · unfold acquire
    dsimp only
    split <;> exact ⟨next.intake, next.requeue⟩
  · exact ⟨next.intake, next.requeue⟩
  · unfold finish
    dsimp only
    split <;> exact ⟨next.intake, next.requeue⟩
  · exact counted.settle key _
  · exact ⟨next.intake, next.requeue⟩

theorem act_counted (counted : s.host.Counted limit) (act : Act) :
    (s.act knows aggregate act).host.Counted (limit + 1) := by
  have next := counted.next
  cases act with
  | call i around =>
    unfold Site.act call
    dsimp only
    split <;> exact ⟨next.intake, next.requeue⟩
  | takeEvent => exact counted.takeEvent
  | ringIntake key number => exact counted.intakeRings key number
  | ringRequeue key number => exact counted.requeueRings key number
  | resync =>
    unfold Site.act resync
    dsimp only
    split <;> exact ⟨next.intake, next.requeue⟩
  | dispatch =>
    unfold Site.act dispatch Host.dispatch
    cases s.host.queue with
    | nil => exact next
    | cons key rest =>
      dsimp only
      split <;> exact ⟨next.intake, next.requeue⟩
  | work key around => exact work_counted knows aggregate counted key around

/-- A host has set no more alarms than there were moves. -/
theorem play_counted (config : HostConfig) (memory : Memory) (acts : List Act) :
    ((opening jobs config memory).play knows aggregate acts).host.Counted acts.length := by
  induction acts using List.reverseRecOn with
  | nil => exact ⟨Nat.le_refl 0, Nat.le_refl 0⟩
  | append_singleton acts act ih =>
    rw [play, List.foldl_append, List.length_append]
    exact act_counted knows aggregate ih act

end Site

end Tributary
