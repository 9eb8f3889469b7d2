import Mathlib.Data.List.Nodup
import Tributary.Proofs.Hosting

/-!
# The workers of a host

Whoever has a key triggered and every worker go on in any order. A pass is something that begins
and ends with some outcome; what it does in between is of no concern here.
`passes_in_order` says which passes run, and when, in whatever order all this happens. The workers
of a site, whose passes make requests, take the same turns (`Site.play_staffs`).
-/

namespace Tributary

/-- What a worker is doing for its key. -/
inductive Duty where
  /-- It is about to ask for a permit. -/
  | asking
  | waiting
  /-- It has a permit and has not begun its pass. -/
  | permitted
  /-- It runs the pass of this number. -/
  | running (pass : Nat)
  /-- Its pass has ended, and its permit is given back. -/
  | returned (outcome : Except SyncError Action)
  /-- The outcome is settled. -/
  | settled

namespace Duty

/-- The pass that a worker was started for, or stayed for, has not begun. -/
def isEarly : Duty → Bool
  | asking | waiting | permitted => true
  | _ => false

def isRunning : Duty → Bool
  | running _ => true
  | _ => false

def holdsPermit : Duty → Bool
  | permitted | running _ => true
  | _ => false

end Duty

structure Hand where
  key : String
  duty : Duty

/-- A worker that is to begin a pass of a key. -/
def Hand.isBound (key : String) (h : Hand) : Bool := decide (h.key = key) && h.duty.isEarly

inductive Occurrence
  | triggered (key : String)
  | began (key : String)
  deriving DecidableEq

structure Workforce where
  host : Host
  /-- The workers, each from its start until it leaves. -/
  hands : List Hand := []
  /-- How many passes have begun. -/
  begun : Nat := 0
  /-- What has occurred, the last first. -/
  log : List Occurrence := []

/-- The worker of a key that has waited longest gets a permit. -/
def promote (key : String) : List Hand → List Hand
  | [] => []
  | ⟨k, .waiting⟩ :: hands =>
    if k = key then ⟨k, .permitted⟩ :: hands else ⟨k, .waiting⟩ :: promote key hands
  | h :: hands => h :: promote key hands

namespace Workforce

def start (config : HostConfig) : Workforce := { host := .start config }

/-- Triggers a key. It gets a worker unless it has one. -/
def trigger (w : Workforce) (key : String) : Workforce :=
  let (dispatcher, fresh) := w.host.dispatcher.trigger key
  { w with
    host := { w.host with dispatcher }
    hands := if fresh then w.hands ++ [⟨key, .asking⟩] else w.hands
    log := .triggered key :: w.log }

def ask (w : Workforce) (i : Nat) (key : String) : Workforce :=
  let (dispatcher, permitted) := w.host.dispatcher.acquire key
  { w with
    host := { w.host with dispatcher }
    hands := w.hands.set i ⟨key, if permitted then .permitted else .waiting⟩ }

def begin (w : Workforce) (i : Nat) (key : String) : Workforce :=
  { w with
    hands := w.hands.set i ⟨key, .running w.begun⟩
    begun := w.begun + 1
    log := .began key :: w.log }

/-- A pass has ended, and its permit goes to whoever has waited longest. -/
def finish (w : Workforce) (i : Nat) (key : String) (outcome : Except SyncError Action) :
    Workforce :=
  let (dispatcher, granted) := w.host.dispatcher.giveBack
  let hands := w.hands.set i ⟨key, .returned outcome⟩
  { w with
    host := { w.host with dispatcher }
    hands := match granted with
      | none => hands
      | some other => promote other hands }

def settle (w : Workforce) (i : Nat) (key : String) (outcome : Except SyncError Action) :
    Workforce :=
  { w with host := (w.host.settle key outcome).1, hands := w.hands.set i ⟨key, .settled⟩ }

/-- A worker looks whether its key is dirty, and leaves if it is not. -/
def goOn (w : Workforce) (i : Nat) (key : String) : Workforce :=
  let (dispatcher, again) := w.host.dispatcher.again key
  { w with
    host := { w.host with dispatcher }
    hands := if again then w.hands.set i ⟨key, .asking⟩ else w.hands.eraseIdx i }

/-- A worker goes on. If it runs a pass, the pass ends with the given outcome. -/
def work (w : Workforce) (i : Nat) (outcome : Except SyncError Action) : Workforce :=
  match w.hands[i]? with
  | none => w
  | some ⟨key, .asking⟩ => w.ask i key
  | some ⟨_, .waiting⟩ => w
  | some ⟨key, .permitted⟩ => w.begin i key
  | some ⟨key, .running _⟩ => w.finish i key outcome
  | some ⟨key, .returned outcome⟩ => w.settle i key outcome
  | some ⟨key, .settled⟩ => w.goOn i key

inductive Turn
  | trigger (key : String)
  | work (worker : Nat) (outcome : Except SyncError Action)

def turn (w : Workforce) : Turn → Workforce
  | .trigger key => w.trigger key
  | .work i outcome => w.work i outcome

/-- What a list of turns leads to, from a host that has just been started. -/
def play (config : HostConfig) (turns : List Turn) : Workforce :=
  turns.foldl turn (start config)

end Workforce

/-- A key was triggered and no pass for it has begun since. -/
def awaits (key : String) : List Occurrence → Bool
  | [] => false
  | .triggered k :: log => decide (k = key) || awaits key log
  | .began k :: log => !decide (k = key) && awaits key log

/-- How many passes of a key have begun. -/
def passesOf (key : String) (log : List Occurrence) : Nat := log.count (.began key)

/-! ## Replacing a worker -/

theorem exists_split {α : Type} {l : List α} {i : Nat} {a : α} (h : l[i]? = some a) :
    ∃ before after, l = before ++ a :: after ∧ (∀ b, l.set i b = before ++ b :: after) ∧
      l.eraseIdx i = before ++ after := by
  obtain ⟨lt, rfl⟩ := List.getElem?_eq_some_iff.mp h
  refine ⟨l.take i, l.drop (i + 1), ?_, ?_, List.eraseIdx_eq_take_drop_succ l i⟩
  · simp
  · intro b
    exact List.set_eq_take_append_cons_drop.trans (if_pos lt)

theorem promote_split {key : String} {hands : List Hand} (mem : ⟨key, .waiting⟩ ∈ hands) :
    ∃ before after, hands = before ++ ⟨key, .waiting⟩ :: after ∧
      promote key hands = before ++ ⟨key, .permitted⟩ :: after := by
  induction hands with
  | nil => cases mem
  | cons h hands ih =>
    by_cases first : h = ⟨key, .waiting⟩
    · subst first
      exact ⟨[], hands, rfl, by simp [promote]⟩
    · have later : ⟨key, .waiting⟩ ∈ hands := by
        rcases List.mem_cons.mp mem with same | later
        · exact absurd same.symm first
        · exact later
      obtain ⟨before, after, split, promoted⟩ := ih later
      refine ⟨h :: before, after, by rw [split]; rfl, ?_⟩
      obtain ⟨k, duty⟩ := h
      cases duty <;> simp_all [promote]

theorem key_apart {before after : List Hand} {key : String} {duty : Duty}
    (once : ((before ++ ⟨key, duty⟩ :: after).map (·.key)).Nodup) :
    key ∉ (before ++ after).map (·.key) := by
  have middle : ((before ++ ⟨key, duty⟩ :: after).map (·.key)).Perm
      (key :: (before ++ after).map (·.key)) := List.perm_middle.map _
  exact (List.nodup_cons.mp (middle.nodup_iff.mp once)).1

/-! ## What every turn preserves -/

/-- The dispatcher knows the workers: one for each key in flight, and none besides. -/
structure Staffed (passes : Nat) (d : Dispatcher) (hands : List Hand) : Prop where
  once : (hands.map (·.key)).Nodup
  known : ∀ key, d.inFlight.contains key = true ↔ key ∈ hands.map (·.key)
  inLine : d.waiting.Nodup
  waits : ∀ key, key ∈ d.waiting ↔ ⟨key, .waiting⟩ ∈ hands
  permits : d.free + hands.countP (·.duty.holdsPermit) = passes

namespace Staffed

variable {passes : Nat} {d d' : Dispatcher} {hands before after : List Hand} {key : String}
  {duty duty' : Duty}

theorem opening (config : HostConfig) :
    Staffed config.passes (Workforce.start config).host.dispatcher [] where
  once := List.nodup_nil
  known key := by
    constructor
    · intro found
      cases found
    · intro mem
      cases mem
  inLine := List.nodup_nil
  waits key := by
    constructor <;> intro mem <;> cases mem
  permits := rfl

/-- A worker that stays does something else. -/
theorem replace (h : Staffed passes d (before ++ ⟨key, duty⟩ :: after))
    (inFlight : ∀ k, d'.inFlight.contains k = d.inFlight.contains k) (inLine : d'.waiting.Nodup)
    (waits : ∀ k, k ∈ d'.waiting ↔ if k = key then duty' = .waiting else k ∈ d.waiting)
    (permits : d'.free + duty'.holdsPermit.toNat = d.free + duty.holdsPermit.toNat) :
    Staffed passes d' (before ++ ⟨key, duty'⟩ :: after) where
  once := by simpa using h.once
  known k := by
    rw [inFlight k, h.known k]
    simp
  inLine := inLine
  waits k := by
    rw [waits k]
    by_cases same : k = key
    · subst same
      have apart : ∀ d, ⟨k, d⟩ ∉ before ++ after := by
        intro d mem
        exact key_apart h.once (List.mem_map_of_mem mem)
      rw [if_pos rfl, List.perm_middle.mem_iff, List.mem_cons]
      simp [apart, eq_comm]
    · have others := h.waits k
      rw [if_neg same, others, List.perm_middle.mem_iff, List.perm_middle.mem_iff]
      simp [same]
  permits := by
    have := h.permits
    simp only [List.countP_append, List.countP_cons] at this ⊢
    cases hd : duty.holdsPermit <;> cases hd' : duty'.holdsPermit <;> simp_all <;> omega

theorem not_waiting (h : Staffed passes d (before ++ ⟨key, duty⟩ :: after))
    (busy : duty ≠ .waiting) : key ∉ d.waiting := by
  intro waits
  have mem := (h.waits key).mp waits
  rw [List.perm_middle.mem_iff] at mem
  rcases List.mem_cons.mp mem with same | other
  · cases same
    exact busy rfl
  · exact key_apart h.once (List.mem_map_of_mem other)

/-- A worker that was not waiting does something else than to wait. -/
theorem onward (h : Staffed passes d (before ++ ⟨key, duty⟩ :: after)) (busy : duty ≠ .waiting)
    (busy' : duty' ≠ .waiting) (inFlight : ∀ k, d'.inFlight.contains k = d.inFlight.contains k)
    (waiting : d'.waiting = d.waiting)
    (permits : d'.free + duty'.holdsPermit.toNat = d.free + duty.holdsPermit.toNat) :
    Staffed passes d' (before ++ ⟨key, duty'⟩ :: after) := by
  refine h.replace inFlight (waiting ▸ h.inLine) ?_ permits
  intro k
  by_cases same : k = key
  · simp [same, waiting, h.not_waiting busy, busy']
  · simp [same, waiting]

/-- A worker stands in line for a permit. -/
theorem queue (h : Staffed passes d (before ++ ⟨key, .asking⟩ :: after)) :
    Staffed passes { d with waiting := d.waiting ++ [key] }
      (before ++ ⟨key, .waiting⟩ :: after) := by
  have new : key ∉ d.waiting := h.not_waiting nofun
  refine h.replace (fun _ => rfl) ?_ ?_ rfl
  · exact List.perm_append_comm.nodup_iff.mpr (List.nodup_cons.mpr ⟨new, h.inLine⟩)
  · intro k
    by_cases same : k = key <;> simp [same]

/-- A pass has ended, and nobody has its permit yet. -/
theorem giveBack (h : Staffed passes d hands) {i pass : Nat}
    (runs : hands[i]? = some ⟨key, .running pass⟩) (outcome : Except SyncError Action) :
    Staffed passes { d with free := d.free + 1 } (hands.set i ⟨key, .returned outcome⟩) := by
  obtain ⟨before, after, split, set, -⟩ := exists_split runs
  rw [split] at h
  rw [set]
  exact h.onward nofun nofun (fun _ => rfl) rfl rfl

/-- A permit that was given back goes to the first in line. -/
theorem grant {rest : List String} (h : Staffed passes d hands) (first : d.waiting = key :: rest)
    {n : Nat} (free : d.free = n + 1) :
    Staffed passes { d with free := n, waiting := rest } (promote key hands) := by
  have mem : ⟨key, .waiting⟩ ∈ hands := (h.waits key).mp (first ▸ List.mem_cons_self)
  obtain ⟨before, after, rfl, promoted⟩ := promote_split mem
  have inLine := h.inLine
  rw [first] at inLine
  obtain ⟨gone, inLine⟩ := List.nodup_cons.mp inLine
  rw [promoted]
  refine h.replace (fun _ => rfl) inLine ?_ ?_
  · intro k
    by_cases same : k = key
    · simp [same, gone]
    · simp [same, first]
  · simp [free, Duty.holdsPermit]

/-- A key that had no worker gets one. -/
theorem hire (h : Staffed passes d hands) (idle : d.inFlight.contains key = false) :
    Staffed passes { d with inFlight := d.inFlight.set key false } (hands ++ [⟨key, .asking⟩]) where
  once := by
    have new : key ∉ hands.map (·.key) := by
      intro mem
      simp [(h.known key).mpr mem] at idle
    simpa [List.nodup_append, List.nodup_cons] using
      ⟨h.once, fun x mem same => new (same ▸ List.mem_map_of_mem mem)⟩
  known k := by
    have := h.known k
    simp only [List.map_append, List.mem_append, ← this]
    by_cases same : k = key <;> simp [Table.contains, same]
  inLine := h.inLine
  waits k := by simpa using h.waits k
  permits := by simpa [List.countP_append, Duty.holdsPermit] using h.permits

theorem dirty (h : Staffed passes d hands) (employed : d.inFlight.contains key = true) :
    Staffed passes { d with inFlight := d.inFlight.set key true } hands where
  once := h.once
  known k := by
    rw [← h.known k]
    by_cases same : k = key
    · simpa [Table.contains, same] using employed
    · simp [Table.contains, same]
  inLine := h.inLine
  waits := h.waits
  permits := h.permits

/-- A worker leaves. -/
theorem leave (h : Staffed passes d (before ++ ⟨key, .settled⟩ :: after)) :
    Staffed passes { d with inFlight := d.inFlight.erase key } (before ++ after) where
  once := by
    have middle : ((before ++ ⟨key, .settled⟩ :: after).map (·.key)).Perm
        (key :: (before ++ after).map (·.key)) := List.perm_middle.map _
    exact (List.nodup_cons.mp (middle.nodup_iff.mp h.once)).2
  known k := by
    by_cases same : k = key
    · subst same
      have gone := key_apart h.once
      simpa [Table.contains] using gone
    · have := h.known k
      simp_all [Table.contains]
  inLine := h.inLine
  waits k := by simpa using h.waits k
  permits := by
    simpa [List.countP_append, List.countP_cons, Duty.holdsPermit] using h.permits

end Staffed

namespace Workforce

variable {passes : Nat} {w : Workforce}

/-- What holds at the start and after every turn that was taken where it held holds all along. -/
theorem play_preserves {P : Workforce → Prop} {config : HostConfig} (opening : P (start config))
    (onward : ∀ {w}, P w → ∀ t, P (w.turn t)) (turns : List Turn) : P (play config turns) := by
  have all : ∀ w, P w → P (turns.foldl turn w) := by
    induction turns with
    | nil => exact fun w h => h
    | cons t turns ih => exact fun w h => ih _ (onward h t)
  exact all _ opening

theorem trigger_staffed (h : Staffed passes w.host.dispatcher w.hands) (key : String) :
    Staffed passes (w.trigger key).host.dispatcher (w.trigger key).hands := by
  unfold trigger Dispatcher.trigger
  by_cases employed : w.host.dispatcher.inFlight.contains key = true
  · simpa [employed] using h.dirty employed
  · simpa [employed] using h.hire (Bool.not_eq_true _ ▸ employed)

theorem ask_staffed (h : Staffed passes w.host.dispatcher w.hands) {i : Nat} {key : String}
    (asks : w.hands[i]? = some ⟨key, .asking⟩) :
    Staffed passes (w.ask i key).host.dispatcher (w.ask i key).hands := by
  obtain ⟨before, after, split, set, -⟩ := exists_split asks
  rw [split] at h
  cases free : w.host.dispatcher.free with
  | zero =>
    have := h.queue
    simpa [ask, Dispatcher.acquire, free, set] using this
  | succ n =>
    simp only [ask, Dispatcher.acquire, free, set]
    exact h.onward nofun nofun (fun _ => rfl) rfl (by simp [free, Duty.holdsPermit])

theorem begin_staffed (h : Staffed passes w.host.dispatcher w.hands) {i : Nat} {key : String}
    (permitted : w.hands[i]? = some ⟨key, .permitted⟩) :
    Staffed passes (w.begin i key).host.dispatcher (w.begin i key).hands := by
  obtain ⟨before, after, split, set, -⟩ := exists_split permitted
  rw [split] at h
  simp only [begin, set]
  exact h.onward nofun nofun (fun _ => rfl) rfl rfl

theorem finish_staffed (h : Staffed passes w.host.dispatcher w.hands) {i : Nat} {key : String}
    {pass : Nat} (runs : w.hands[i]? = some ⟨key, .running pass⟩)
    (outcome : Except SyncError Action) :
    Staffed passes (w.finish i key outcome).host.dispatcher (w.finish i key outcome).hands := by
  have back := h.giveBack runs outcome
  cases waiting : w.host.dispatcher.waiting with
  | nil => simpa only [finish, Dispatcher.giveBack, waiting] using back
  | cons other rest =>
    have := back.grant waiting rfl
    simpa only [finish, Dispatcher.giveBack, waiting] using this

theorem settle_staffed (h : Staffed passes w.host.dispatcher w.hands) {i : Nat} {key : String}
    {outcome : Except SyncError Action} (returned : w.hands[i]? = some ⟨key, .returned outcome⟩) :
    Staffed passes (w.settle i key outcome).host.dispatcher (w.settle i key outcome).hands := by
  obtain ⟨before, after, split, set, -⟩ := exists_split returned
  rw [split] at h
  simp only [settle, Host.dispatcher_settle, set]
  exact h.onward nofun nofun (fun _ => rfl) rfl rfl

theorem goOn_staffed (h : Staffed passes w.host.dispatcher w.hands) {i : Nat} {key : String}
    (settled : w.hands[i]? = some ⟨key, .settled⟩) :
    Staffed passes (w.goOn i key).host.dispatcher (w.goOn i key).hands := by
  obtain ⟨before, after, split, set, erase⟩ := exists_split settled
  rw [split] at h
  unfold goOn Dispatcher.again
  by_cases dirty : w.host.dispatcher.inFlight.get? key = some true
  · simp only [dirty, if_true, set]
    refine h.onward nofun nofun ?_ rfl rfl
    intro k
    by_cases same : k = key <;> simp [Table.contains, same, dirty]
  · simpa [dirty, erase] using h.leave

theorem work_staffed (h : Staffed passes w.host.dispatcher w.hands) (i : Nat)
    (outcome : Except SyncError Action) :
    Staffed passes (w.work i outcome).host.dispatcher (w.work i outcome).hands := by
  unfold work
  split
  · exact h
  · next asks => exact ask_staffed h asks
  · exact h
  · next permitted => exact begin_staffed h permitted
  · next runs => exact finish_staffed h runs outcome
  · next returned => exact settle_staffed h returned
  · next settled => exact goOn_staffed h settled

theorem play_staffed (config : HostConfig) (turns : List Turn) :
    Staffed config.passes (play config turns).host.dispatcher (play config turns).hands := by
  apply play_preserves (P := fun w => Staffed config.passes w.host.dispatcher w.hands)
    (Staffed.opening config)
  intro w h t
  cases t with
  | trigger key => exact trigger_staffed h key
  | work i outcome => exact work_staffed h i outcome

/-! ## Passes that are owed -/

/-- How many passes of a key are still to begin if nobody triggers it again. -/
def owed (w : Workforce) (key : String) : Nat :=
  (decide (w.host.dispatcher.inFlight.get? key = some true)).toNat +
    w.hands.countP (Hand.isBound key)

theorem countP_promote (other key : String) (hands : List Hand) :
    (promote other hands).countP (Hand.isBound key) = hands.countP (Hand.isBound key) := by
  induction hands with
  | nil => rfl
  | cons h hands ih =>
    obtain ⟨k, duty⟩ := h
    cases duty with
    | waiting =>
      by_cases same : k = other <;>
        simp [promote, same, List.countP_cons, Hand.isBound, Duty.isEarly, ih]
    | _ => simp [promote, List.countP_cons, ih]

theorem countP_middle (before after : List Hand) (h : Hand) (key : String) :
    (before ++ h :: after).countP (Hand.isBound key) =
      (before ++ after).countP (Hand.isBound key) + (h.isBound key).toNat := by
  cases bound : h.isBound key
  · simp [bound, List.countP_append]
  · simp [bound, List.countP_append]
    omega

/-- A worker does something else, and no pass begins. -/
theorem owed_of_replace {w w' : Workforce} {before after : List Hand} {k : String}
    {duty : Duty} (duty' : Duty) (split : w.hands = before ++ ⟨k, duty⟩ :: after)
    (hands : ∀ key, w'.hands.countP (Hand.isBound key) =
      (before ++ ⟨k, duty'⟩ :: after).countP (Hand.isBound key))
    (early : duty'.isEarly = duty.isEarly)
    (inFlight : w'.host.dispatcher.inFlight = w.host.dispatcher.inFlight) (key : String) :
    w'.owed key = w.owed key := by
  have same : Hand.isBound key ⟨k, duty'⟩ = Hand.isBound key ⟨k, duty⟩ := by
    simp [Hand.isBound, early]
  rw [owed, owed, hands, split, inFlight, countP_middle, countP_middle, same]

theorem ask_owed (w : Workforce) {i : Nat} {k : String} (asks : w.hands[i]? = some ⟨k, .asking⟩)
    (key : String) : (w.ask i k).owed key = w.owed key := by
  obtain ⟨before, after, split, set, -⟩ := exists_split asks
  cases free : w.host.dispatcher.free with
  | zero =>
    apply owed_of_replace .waiting split
    all_goals simp [ask, Dispatcher.acquire, free, set, Duty.isEarly]
  | succ n =>
    apply owed_of_replace .permitted split
    all_goals simp [ask, Dispatcher.acquire, free, set, Duty.isEarly]

/-- A pass that begins is owed no more. -/
theorem begin_owed (w : Workforce) {i : Nat} {k : String}
    (permitted : w.hands[i]? = some ⟨k, .permitted⟩) (key : String) :
    passesOf key (w.begin i k).log + (w.begin i k).owed key = passesOf key w.log + w.owed key := by
  obtain ⟨before, after, split, set, -⟩ := exists_split permitted
  have log : passesOf key (w.begin i k).log = passesOf key w.log + (decide (k = key)).toNat := by
    by_cases same : k = key <;> simp [begin, passesOf, same]
  have bound : Hand.isBound key ⟨k, .permitted⟩ = decide (k = key) := by
    simp [Hand.isBound, Duty.isEarly]
  have unbound : Hand.isBound key ⟨k, .running w.begun⟩ = false := by
    simp [Hand.isBound, Duty.isEarly]
  have hands : (w.begin i k).hands = before ++ ⟨k, .running w.begun⟩ :: after := set _
  have host : (w.begin i k).host = w.host := rfl
  rw [owed, owed, hands, host, split, countP_middle, countP_middle, log, bound, unbound]
  simp only [Bool.toNat_false]
  omega

theorem finish_owed (w : Workforce) {i : Nat} {k : String} {pass : Nat}
    (runs : w.hands[i]? = some ⟨k, .running pass⟩) (outcome : Except SyncError Action)
    (key : String) : (w.finish i k outcome).owed key = w.owed key := by
  obtain ⟨before, after, split, set, -⟩ := exists_split runs
  cases waiting : w.host.dispatcher.waiting with
  | nil =>
    apply owed_of_replace (.returned outcome) split
    all_goals simp [finish, Dispatcher.giveBack, waiting, set, Duty.isEarly]
  | cons other rest =>
    apply owed_of_replace (.returned outcome) split
    all_goals simp [finish, Dispatcher.giveBack, waiting, set, countP_promote, Duty.isEarly]

theorem settle_owed (w : Workforce) {i : Nat} {k : String} {outcome : Except SyncError Action}
    (returned : w.hands[i]? = some ⟨k, .returned outcome⟩) (key : String) :
    (w.settle i k outcome).owed key = w.owed key := by
  obtain ⟨before, after, split, set, -⟩ := exists_split returned
  apply owed_of_replace .settled split
  all_goals simp [settle, set, Duty.isEarly]

/-- A worker that stays because its key is dirty is to begin the pass that was owed. -/
theorem goOn_owed (w : Workforce) {i : Nat} {k : String}
    (settled : w.hands[i]? = some ⟨k, .settled⟩) (key : String) :
    (w.goOn i k).owed key = w.owed key := by
  obtain ⟨before, after, split, set, erase⟩ := exists_split settled
  have unbound : Hand.isBound key ⟨k, .settled⟩ = false := by simp [Hand.isBound, Duty.isEarly]
  by_cases dirty : w.host.dispatcher.inFlight.get? k = some true
  · have bound : Hand.isBound key ⟨k, .asking⟩ = decide (k = key) := by
      simp [Hand.isBound, Duty.isEarly]
    have hands : (w.goOn i k).hands = before ++ ⟨k, .asking⟩ :: after := by
      simp [goOn, Dispatcher.again, dirty, set]
    rw [owed, owed, hands, split, countP_middle, countP_middle, bound, unbound]
    by_cases same : key = k
    · simp [goOn, Dispatcher.again, dirty, same]
      omega
    · have other : ¬ k = key := fun eq => same eq.symm
      simp [goOn, Dispatcher.again, dirty, same, other]
  · have hands : (w.goOn i k).hands = before ++ after := by
      simp [goOn, Dispatcher.again, dirty, erase]
    rw [owed, owed, hands, split, countP_middle, unbound]
    by_cases same : key = k <;> simp [goOn, Dispatcher.again, dirty, same]

/-- A worker goes on: what was owed of a key is owed still, or has begun. -/
theorem work_owed (w : Workforce) (i : Nat) (outcome : Except SyncError Action) (key : String) :
    passesOf key (w.work i outcome).log + (w.work i outcome).owed key =
      passesOf key w.log + w.owed key := by
  unfold work
  split
  · rfl
  · next asks => exact congrArg _ (ask_owed w asks key)
  · rfl
  · next permitted => exact begin_owed w permitted key
  · next runs => exact congrArg _ (finish_owed w runs outcome key)
  · next returned => exact congrArg _ (settle_owed w returned key)
  · next settled => exact congrArg _ (goOn_owed w settled key)

/-- A key that is triggered is owed a pass. -/
theorem trigger_owed (w : Workforce) (key : String) : 1 ≤ (w.trigger key).owed key := by
  by_cases employed : w.host.dispatcher.inFlight.contains key = true
  · have dirty : (w.trigger key).host.dispatcher.inFlight.get? key = some true := by
      simp [trigger, Dispatcher.trigger, employed]
    rw [owed, decide_eq_true dirty]
    exact Nat.le_add_right 1 _
  · have hired : (w.trigger key).hands = w.hands ++ [⟨key, .asking⟩] := by
      simp [trigger, Dispatcher.trigger, employed]
    have bound : Hand.isBound key ⟨key, .asking⟩ = true := by simp [Hand.isBound, Duty.isEarly]
    rw [owed, hired, countP_middle, bound, Bool.toNat_true]
    omega

/-- What others are owed does not change. -/
theorem trigger_owed_of_ne (w : Workforce) {k key : String} (other : k ≠ key) :
    (w.trigger k).owed key = w.owed key := by
  have same : (w.trigger k).host.dispatcher.inFlight.get? key =
      w.host.dispatcher.inFlight.get? key := by
    simp [trigger, Dispatcher.trigger, other.symm]
  have hands : (w.trigger k).hands.countP (Hand.isBound key) =
      w.hands.countP (Hand.isBound key) := by
    by_cases employed : w.host.dispatcher.inFlight.contains k = true <;>
      simp [trigger, Dispatcher.trigger, employed, Hand.isBound, other]
  rw [owed, owed, same, hands]

/-- A turn of somebody else than the callers of a key. -/
theorem turn_owed (w : Workforce) {t : Turn} {key : String} (other : t ≠ .trigger key) :
    passesOf key (w.turn t).log + (w.turn t).owed key = passesOf key w.log + w.owed key := by
  cases t with
  | trigger k =>
    have ne : k ≠ key := fun same => other (same ▸ rfl)
    have log : passesOf key (w.trigger k).log = passesOf key w.log := by
      simp [trigger, passesOf]
    exact congrArg₂ (· + ·) log (trigger_owed_of_ne w ne)
  | work i outcome => exact work_owed w i outcome key

/-- Unless somebody triggers a key again, what is owed of it is what begins. -/
theorem turns_owed {turns : List Turn} {key : String} (others : .trigger key ∉ turns)
    (w : Workforce) :
    passesOf key (turns.foldl turn w).log + (turns.foldl turn w).owed key =
      passesOf key w.log + w.owed key := by
  induction turns generalizing w with
  | nil => rfl
  | cons t turns ih =>
    have first : t ≠ .trigger key := fun same => others (same ▸ List.mem_cons_self)
    have later : .trigger key ∉ turns := fun mem => others (List.mem_cons_of_mem t mem)
    exact (ih later (w.turn t)).trans (turn_owed w first)

/-- All that a worker can log is that it begins a pass. -/
theorem work_log (w : Workforce) (i : Nat) (outcome : Except SyncError Action) :
    (w.work i outcome).log = w.log ∨ ∃ key, (w.work i outcome).log = .began key :: w.log := by
  unfold work
  split
  · exact .inl rfl
  · exact .inl rfl
  · exact .inl rfl
  · next key _ => exact .inr ⟨key, rfl⟩
  · exact .inl rfl
  · exact .inl rfl
  · exact .inl rfl

theorem turn_awaits {w : Workforce} {key : String} (h : awaits key w.log = true → 1 ≤ w.owed key)
    (t : Turn) (triggered : awaits key (w.turn t).log = true) : 1 ≤ (w.turn t).owed key := by
  by_cases mine : t = .trigger key
  · subst mine
    exact trigger_owed w key
  · have law := turn_owed w mine
    -- Nothing was logged about the key: a pass of it would have answered its triggers.
    have quiet : awaits key w.log = true ∧ passesOf key (w.turn t).log = passesOf key w.log := by
      cases t with
      | trigger k =>
        have other : k ≠ key := fun same => mine (same ▸ rfl)
        simpa [turn, trigger, awaits, passesOf, other] using triggered
      | work i outcome =>
        rcases work_log w i outcome with same | ⟨k, began⟩
        · simpa [turn, same] using triggered
        · have other : k ≠ key := by
            rintro rfl
            simp [turn, began, awaits] at triggered
          simpa [turn, began, awaits, passesOf, other] using triggered
    have := h quiet.1
    omega

/-- A key that was triggered after its last pass began is owed another one. -/
theorem owed_of_awaits (config : HostConfig) (turns : List Turn) (key : String) :
    awaits key (play config turns).log = true → 1 ≤ (play config turns).owed key :=
  play_preserves (P := fun w => awaits key w.log = true → 1 ≤ w.owed key) nofun turn_awaits turns

end Workforce

/-! ## Which passes run -/

/-- No more passes run than there are permits. -/
theorem Staffed.running_le {passes : Nat} {d : Dispatcher} {hands : List Hand}
    (staffed : Staffed passes d hands) : hands.countP (·.duty.isRunning) ≤ passes := by
  have permits := staffed.permits
  have runs : hands.countP (·.duty.isRunning) ≤ hands.countP (·.duty.holdsPermit) := by
    apply List.countP_mono_left
    intro h _ runs
    cases duty : h.duty <;> simp_all [Duty.isRunning, Duty.holdsPermit]
  omega

/-- A worker whose key is not dirty and that is not about to begin a pass owes none. -/
theorem Staffed.owed_le {passes : Nat} {w : Workforce} {h : Hand}
    (staffed : Staffed passes w.host.dispatcher w.hands) (mem : h ∈ w.hands)
    (late : h.duty.isEarly = false) : w.owed h.key ≤ 1 := by
  obtain ⟨before, after, split⟩ := List.append_of_mem mem
  have once := staffed.once
  rw [split] at once
  have unbound : Hand.isBound h.key h = false := by simp [Hand.isBound, late]
  have others : (before ++ after).countP (Hand.isBound h.key) = 0 := by
    apply List.countP_eq_zero.mpr
    intro other mem bound
    have same : other.key = h.key := of_decide_eq_true (Bool.and_eq_true_iff.mp bound).1
    exact key_apart once (same ▸ List.mem_map_of_mem mem)
  rw [Workforce.owed, split, Workforce.countP_middle, others, unbound]
  exact Bool.toNat_le _

/-- A key without a worker owes no pass. -/
theorem Staffed.owed_of_gone {passes : Nat} {w : Workforce} {key : String}
    (staffed : Staffed passes w.host.dispatcher w.hands)
    (gone : w.host.dispatcher.inFlight.contains key = false) : w.owed key = 0 := by
  have clean : w.host.dispatcher.inFlight.get? key = none := by
    simpa [Table.contains] using gone
  have nobody : w.hands.countP (Hand.isBound key) = 0 := by
    apply List.countP_eq_zero.mpr
    intro h mem bound
    have same : h.key = key := of_decide_eq_true (Bool.and_eq_true_iff.mp bound).1
    have employed := (staffed.known key).mpr (same ▸ List.mem_map_of_mem mem)
    rw [gone] at employed
    cases employed
  simp [Workforce.owed, clean, nobody]

/-- Who triggers keys and which worker goes on next is anybody's choice. In whatever order they
take their turns, passes of one key never run together, and no more passes run together than
there are permits. A key that was triggered after its last pass began has a worker, and is
dirty or its worker is still to begin a pass. However often a key is triggered while its pass
runs, one more pass begins. A key is in flight as long as it has a worker. -/
theorem passes_in_order (config : HostConfig) (turns : List Workforce.Turn) :
    let w := Workforce.play config turns
    ((w.hands.filter (·.duty.isRunning)).map (·.key)).Nodup ∧
    w.hands.countP (·.duty.isRunning) ≤ config.passes ∧
    (∀ key, awaits key w.log = true → w.host.dispatcher.inFlight.contains key = true ∧
      (w.host.dispatcher.inFlight.get? key = some true ∨
        ∃ h ∈ w.hands, h.key = key ∧ h.duty.isEarly = true)) ∧
    (∀ key, awaits key w.log = true → (∃ h ∈ w.hands, h.key = key ∧ h.duty.isEarly = false) →
      ∀ later, .trigger key ∉ later →
        let v := Workforce.play config (turns ++ later)
        passesOf key v.log ≤ passesOf key w.log + 1 ∧
          (v.host.dispatcher.inFlight.contains key = false →
            passesOf key v.log = passesOf key w.log + 1)) ∧
    ∀ key, w.host.dispatcher.inFlight.contains key = true ↔ ∃ h ∈ w.hands, h.key = key := by
  intro w
  have staffed : Staffed config.passes w.host.dispatcher w.hands :=
    Workforce.play_staffed config turns
  refine ⟨?_, ?_, ?_, ?_, ?_⟩
  · exact staffed.once.sublist (List.filter_sublist.map _)
  · exact staffed.running_le
  · intro key triggered
    have owed : 1 ≤ w.owed key := Workforce.owed_of_awaits config turns key triggered
    by_cases dirty : w.host.dispatcher.inFlight.get? key = some true
    · exact ⟨by simp [Table.contains, dirty], .inl dirty⟩
    · have bound : 0 < w.hands.countP (Hand.isBound key) := by
        simpa [Workforce.owed, dirty] using owed
      obtain ⟨h, mem, bound⟩ := List.countP_pos_iff.mp bound
      obtain ⟨same, early⟩ : h.key = key ∧ h.duty.isEarly = true := by
        simpa [Hand.isBound] using bound
      exact ⟨(staffed.known key).mpr (same ▸ List.mem_map_of_mem mem), .inr ⟨h, mem, same, early⟩⟩
  · intro key triggered late later others v
    obtain ⟨h, mem, rfl, late⟩ := late
    have law : passesOf h.key v.log + v.owed h.key = passesOf h.key w.log + w.owed h.key := by
      rw [show v = later.foldl Workforce.turn w from List.foldl_append]
      exact Workforce.turns_owed others w
    have owed : w.owed h.key = 1 :=
      Nat.le_antisymm (staffed.owed_le mem late)
        (Workforce.owed_of_awaits config turns h.key triggered)
    constructor
    · omega
    · intro gone
      have nothing : v.owed h.key = 0 :=
        (Workforce.play_staffed config (turns ++ later)).owed_of_gone gone
      omega
  · intro key
    exact (staffed.known key).trans List.mem_map

/-- Triggers that come while the pass of a key runs make its worker run one more. -/
example :
    let goOn := Workforce.Turn.work 0 (.ok .done)
    (Workforce.play {} ([.trigger "a", goOn, goOn, .trigger "a", .trigger "a"] ++
      List.replicate 8 goOn)).log =
        [.began "a", .triggered "a", .triggered "a", .began "a", .triggered "a"] := by
  rfl

end Tributary
