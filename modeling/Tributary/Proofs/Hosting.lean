import Tributary.Host.Basic
import Tributary.Proofs.Jobs

/-!
# A host at work

A host looks after a memory while others register, withdraw and ask for deletions. Whoever moves
next makes one move: a caller or a pass makes its next request, the host takes in an event, a
debouncer rings, a key is dispatched, a worker goes on. The order of the moves, and what a
request is answered by others than the store, are up to the acts (`Act`); a run is what any list
of acts leads to (`Site.play`).
-/

namespace Tributary

/-- What a worker is doing for its key. -/
inductive Worker where
  /-- It is about to ask for a permit. -/
  | asking
  | waiting
  /-- It has a permit; this is left of its pass. -/
  | running (left : Program (Except SyncError Action))
  /-- Its pass has ended, and its permit is given back. -/
  | returned (outcome : Except SyncError Action)
  /-- The outcome is settled. -/
  | settled

/-- A memory, the host that looks after it and those who call. -/
structure Site (jobs : Nat → Job) where
  memory : Memory
  host : Host
  /-- What is left of each call. -/
  callers : (i : Nat) → Program (jobs i).Result
  workers : String → Option Worker := fun _ => none
  /-- The keys that a resync has found and not queued yet. -/
  sending : Option (List String) := none
  /-- The first resync is over. -/
  resynced : Bool := false

/-- The event that the store publishes in an exchange. -/
def Exchange.event? : Exchange → Option Event
  | ⟨.store c, a⟩ => c.published a
  | _ => none

namespace Host

def publish (h : Host) (x : Exchange) : Host :=
  { h with undelivered := h.undelivered ++ x.event?.toList }

end Host

/-- Somebody's next move. The surroundings answer what it asks of others than the store. -/
inductive Act where
  | call (caller : Nat) (around : Surroundings)
  | takeEvent
  | ringIntake (key : String) (number : Nat)
  | ringRequeue (key : String) (number : Nat)
  | resync
  | dispatch
  | work (key : String) (around : Surroundings)

namespace Site

variable {jobs : Nat → Job}

/-- A host that has just been started on a memory. -/
def opening (jobs : Nat → Job) (config : HostConfig) (memory : Memory) : Site jobs :=
  { memory, host := .start config, callers := fun i => (jobs i).program }

/-- Sets what a worker does. -/
def employ (s : Site jobs) (key : String) (worker : Option Worker) : Site jobs :=
  { s with workers := fun k => if k = key then worker else s.workers k }

/-- The answer to a request of a pass. Whether a key waits for quiet is up to the intake. -/
def answer (aggregate : String → List Contribution → Except SyncError Aggregation)
    (s : Site jobs) (around : Surroundings) : (q : Request) → q.Answer × Memory
  | .coalescing key => (s.host.intake.isPending key, s.memory)
  | .aggregate type sources => (aggregate type sources, s.memory)
  | q => around.answer s.memory q

/-- A caller makes its next request. -/
def call (s : Site jobs) (i : Nat) (around : Surroundings) : Site jobs :=
  match s.callers i with
  | .done _ => s
  | .ask q next =>
    let (a, memory) := around.answer s.memory q
    { s with
      memory
      host := s.host.publish ⟨q, a⟩
      callers := fun j => if h : i = j then h ▸ next a else s.callers j }

/-- The next move of a resync: it finds the keys, or queues one of them. -/
def resync (s : Site jobs) : Site jobs :=
  match s.sending with
  | none => { s with sending := some s.memory.records.keys }
  | some (key :: rest) => { s with host := s.host.enqueue [key], sending := some rest }
  | some [] => { s with sending := none, resynced := true }

def dispatch (s : Site jobs) : Site jobs :=
  let (host, fresh) := s.host.dispatch
  match fresh with
  | none => { s with host }
  | some key => { s with host }.employ key (some .asking)

/-- A worker that has a permit begins a pass. -/
def begin (knows : String → Bool) (s : Site jobs) (key : String) : Site jobs :=
  s.employ key (some (.running ((s.host.engine knows).reconcile key)))

def acquire (knows : String → Bool) (s : Site jobs) (key : String) : Site jobs :=
  let (dispatcher, permitted) := s.host.dispatcher.acquire key
  let s := { s with host := { s.host with dispatcher } }
  if permitted then s.begin knows key else s.employ key (some .waiting)

/-- A pass has ended, and its permit goes to whoever has waited longest. -/
def finish (knows : String → Bool) (s : Site jobs) (key : String)
    (outcome : Except SyncError Action) : Site jobs :=
  let (dispatcher, granted) := s.host.dispatcher.giveBack
  let s := { s with host := { s.host with dispatcher } }.employ key (some (.returned outcome))
  match granted with
  | none => s
  | some other => s.begin knows other

/-- A worker looks whether its key is dirty, and leaves if it is not. -/
def goOn (s : Site jobs) (key : String) : Site jobs :=
  let (dispatcher, again) := s.host.dispatcher.again key
  { s with host := { s.host with dispatcher } }.employ key (if again then some .asking else none)

/-- The worker of a key goes on. -/
def work (knows : String → Bool)
    (aggregate : String → List Contribution → Except SyncError Aggregation) (s : Site jobs)
    (key : String) (around : Surroundings) : Site jobs :=
  match s.workers key with
  | none | some .waiting => s
  | some .asking => s.acquire knows key
  | some (.running (.ask q next)) =>
    let (a, memory) := s.answer aggregate around q
    { s with memory, host := s.host.publish ⟨q, a⟩ }.employ key (some (.running (next a)))
  | some (.running (.done outcome)) => s.finish knows key outcome
  | some (.returned outcome) =>
    { s with host := (s.host.settle key outcome).1 }.employ key (some .settled)
  | some .settled => s.goOn key

/-- A move. -/
def act (knows : String → Bool)
    (aggregate : String → List Contribution → Except SyncError Aggregation) (s : Site jobs) :
    Act → Site jobs
  | .call i around => s.call i around
  | .takeEvent => { s with host := s.host.takeEvent.1 }
  | .ringIntake key number => { s with host := (s.host.intakeRings key number).1 }
  | .ringRequeue key number => { s with host := (s.host.requeueRings key number).1 }
  | .resync => s.resync
  | .dispatch => s.dispatch
  | .work key around => s.work knows aggregate key around

/-- What a list of moves leads to. -/
def play (knows : String → Bool)
    (aggregate : String → List Contribution → Except SyncError Aggregation) (s : Site jobs)
    (acts : List Act) : Site jobs :=
  acts.foldl (act knows aggregate) s

/-- Nothing is left for the host to do. -/
def atRest (s : Site jobs) : Bool :=
  s.host.undelivered.isEmpty && s.host.intake.pendingCount = 0 &&
    s.host.requeue.pendingCount = 0 && s.host.queue.isEmpty && s.host.dispatcher.idle && s.resynced

end Site

namespace Host

@[simp] theorem dispatcher_takeEvent (h : Host) : h.takeEvent.1.dispatcher = h.dispatcher := by
  unfold takeEvent
  split
  · rfl
  · dsimp only
    split <;> rfl

@[simp] theorem dispatcher_intakeRings (h : Host) (key : String) (number : Nat) :
    (h.intakeRings key number).1.dispatcher = h.dispatcher := by
  unfold intakeRings
  split <;> rfl

@[simp] theorem dispatcher_requeueRings (h : Host) (key : String) (number : Nat) :
    (h.requeueRings key number).1.dispatcher = h.dispatcher := by
  unfold requeueRings
  split <;> rfl

@[simp] theorem dispatcher_settle (h : Host) (key : String) (outcome : Except SyncError Action) :
    (h.settle key outcome).1.dispatcher = h.dispatcher := by
  unfold settle
  split <;> rfl

theorem waiting_dispatch (h : Host) : h.dispatch.1.dispatcher.waiting = h.dispatcher.waiting := by
  unfold dispatch
  split <;> rfl

theorem contains_dispatch (h : Host) (key : String)
    (employed : h.dispatcher.inFlight.contains key = true) :
    h.dispatch.1.dispatcher.inFlight.contains key = true := by
  unfold dispatch
  split
  · exact employed
  · next first _ _ =>
    by_cases same : key = first <;> simp_all [Dispatcher.trigger, Table.contains]

/-- A worker is started for a key that has none. -/
theorem fresh_dispatch (h : Host) (key : String) (fresh : h.dispatch.2 = some key) :
    h.dispatcher.inFlight.contains key = false ∧
      h.dispatch.1.dispatcher.inFlight.contains key = true := by
  unfold dispatch at fresh ⊢
  split at fresh
  · cases fresh
  · next first _ queue =>
    dsimp only at fresh
    split at fresh
    · next unemployed =>
      cases fresh
      exact ⟨by simpa [Dispatcher.trigger] using unemployed,
        by simp [Dispatcher.trigger, Table.contains]⟩
    · cases fresh

end Host

/-! ## What a host owes -/

/-- A key that a host will look at again. -/
inductive Host.Owes (h : Host) (key : String) : Prop
  | event {e : Event} (published : e ∈ h.undelivered) (same : e.key = key)
      (triggers : triggersPass e.change = true)
  | intake (waits : h.intake.isPending key = true)
  | requeue (waits : h.requeue.isPending key = true)
  | queued (queued : key ∈ h.queue)
  | dirty (dirty : h.dispatcher.inFlight.get? key = some true)

namespace Debouncer

theorem eq_of_claim {d d' : Debouncer} {key : String} {number : Nat}
    (h : d.claim key number = some d') : d' = d.cancel key := by
  unfold claim at h
  split at h
  · exact (Option.some.inj h).symm
  · cases h

theorem not_isPending {d : Debouncer} (none : d.pendingCount = 0) (key : String) :
    d.isPending key = false := by
  have empty : d.waiting.isEmpty = true := List.isEmpty_iff_length_eq_zero.2 none
  simp [isPending, Table.contains, Table.get?_of_isEmpty empty]

end Debouncer

namespace Host.Owes

variable {h h' : Host} {key : String}

theorem mono (owes : h.Owes key) (undelivered : h.undelivered ⊆ h'.undelivered)
    (intake : h.intake.isPending key = true → h'.intake.isPending key = true)
    (requeue : h.requeue.isPending key = true → h'.requeue.isPending key = true)
    (queue : key ∈ h.queue → key ∈ h'.queue)
    (dirty : h.dispatcher.inFlight.get? key = some true →
      h'.dispatcher.inFlight.get? key = some true) : h'.Owes key := by
  cases owes with
  | event published same triggers => exact .event (undelivered published) same triggers
  | intake waits => exact .intake (intake waits)
  | requeue waits => exact .requeue (requeue waits)
  | queued queued => exact .queued (queue queued)
  | dirty marked => exact .dirty (dirty marked)

theorem publish (owes : h.Owes key) (x : Exchange) : (h.publish x).Owes key :=
  owes.mono (List.subset_append_left _ _) id id id id

theorem of_publish {x : Exchange} {e : Event} (published : x.event? = some e)
    (triggers : triggersPass e.change = true) : (h.publish x).Owes e.key :=
  .event (List.mem_append_right _ (by simp [published])) rfl triggers

theorem enqueue (owes : h.Owes key) (keys : List String) : (h.enqueue keys).Owes key :=
  owes.mono (fun _ => id) id id (List.mem_append_left _) id

theorem of_enqueue {keys : List String} (mem : key ∈ keys) : (h.enqueue keys).Owes key :=
  .queued (List.mem_append_right _ mem)

/-- What a change of the dispatcher leaves owed. -/
theorem dispatcher {d : Dispatcher} (owes : h.Owes key)
    (kept : h.dispatcher.inFlight.get? key = some true → d.inFlight.get? key = some true) :
    ({ h with dispatcher := d } : Host).Owes key :=
  owes.mono (fun _ => id) id id id kept

theorem takeEvent (owes : h.Owes key) : h.takeEvent.1.Owes key := by
  unfold Host.takeEvent
  split
  · exact owes
  · next e rest undelivered =>
    dsimp only
    by_cases first : e.key = key ∧ triggersPass e.change = true
    · obtain ⟨rfl, triggers⟩ := first
      rw [if_pos triggers]
      exact .intake (by simp [Host.coalesce])
    · have later : ∀ {h' : Host}, h'.undelivered = rest →
          (h.intake.isPending key = true → h'.intake.isPending key = true) →
          h'.requeue = h.requeue → h'.queue = h.queue → h'.dispatcher = h.dispatcher →
          h'.Owes key := by
        intro h' delivered intake requeue queue dispatcher
        cases owes with
        | @event ev published same triggers =>
          rw [undelivered] at published
          cases published with
          | head => exact absurd ⟨same, triggers⟩ first
          | tail _ later => exact .event (delivered ▸ later) same triggers
        | intake waits => exact .intake (intake waits)
        | requeue waits => exact .requeue (requeue ▸ waits)
        | queued queued => exact .queued (queue ▸ queued)
        | dirty dirty => exact .dirty (dispatcher ▸ dirty)
      split
      · exact later rfl (fun waits => by simp [Host.coalesce, waits]) rfl rfl rfl
      · exact later rfl id rfl rfl rfl

theorem intakeRings (owes : h.Owes key) (k : String) (number : Nat) :
    (h.intakeRings k number).1.Owes key := by
  unfold Host.intakeRings
  split
  · exact owes
  · next intake claimed =>
    obtain rfl := Debouncer.eq_of_claim claimed
    by_cases same : key = k
    · exact of_enqueue (by simp [same])
    · exact owes.mono (fun _ => id) (by simp [Host.enqueue, same]) id (List.mem_append_left _) id

theorem requeueRings (owes : h.Owes key) (k : String) (number : Nat) :
    (h.requeueRings k number).1.Owes key := by
  unfold Host.requeueRings
  split
  · exact owes
  · next requeue claimed =>
    obtain rfl := Debouncer.eq_of_claim claimed
    by_cases same : key = k
    · exact of_enqueue (by simp [same])
    · exact owes.mono (fun _ => id) id (by simp [Host.enqueue, same]) (List.mem_append_left _) id

theorem settle (owes : h.Owes key) (k : String) (outcome : Except SyncError Action) :
    (h.settle k outcome).1.Owes key := by
  unfold Host.settle
  split
  · exact owes
  · exact owes.mono (fun _ => id) id (fun waits => by simp [waits]) id id

theorem of_settle (delay : Duration) : (h.settle key (.ok (.requeue delay))).1.Owes key :=
  .requeue (by simp [Host.settle, retryAfter])

/-- A key that is dispatched is owed another look, unless a worker is started for it. -/
theorem dispatch (owes : h.Owes key) : h.dispatch.1.Owes key ∨ h.dispatch.2 = some key := by
  unfold Host.dispatch
  split
  · exact .inl owes
  · next first rest queue =>
    by_cases same : key = first
    · subst same
      by_cases employed : h.dispatcher.inFlight.contains key = true
      · exact .inl (.dirty (by simp [Dispatcher.trigger, employed]))
      · exact .inr (by simp [Dispatcher.trigger, employed])
    · refine .inl (owes.mono (fun _ => id) id id (fun queued => ?_)
        (by simp [Dispatcher.trigger, same]))
      rw [queue] at queued
      simpa [same] using queued

end Host.Owes

end Tributary
