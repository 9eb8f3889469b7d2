import Tributary.Proofs.Workforce

/-!
# Shutting a host down

A host serves with five tasks: the intake, the watcher and the resync put keys before the
dispatcher, which has workers, and one task waits for signals. The first task that ends, for
whatever reason, tells the others to end; the dispatcher then waits for its workers. When all
tasks have ended, the host drops what still waits in its debouncers and returns. All of these
take their steps in any order, and what a pass is answered is left open. `shutdown_complete`
says that no pass is cut short and that nothing comes after the return.
-/

namespace Tributary

/-- A pass from its beginning on. -/
structure Passage where
  key : String
  /-- What it has asked and was answered, the last first. -/
  past : List Exchange := []
  left : Program (Except SyncError Action)

/-- The tasks of a host besides its dispatcher. -/
inductive Task | intake | watcher | resync | signals
  deriving DecidableEq

/-- What the dispatcher does. -/
inductive Dispatching
  | looping
  /-- It takes no more keys and waits for its workers to leave. -/
  | draining
  | closed
  deriving DecidableEq

/-- What a host does besides its tasks. -/
inductive Stage
  | joining
  /-- All tasks have ended, and the intake is flushed. -/
  | flushing
  | returned
  deriving DecidableEq

structure Service where
  force : Workforce
  /-- The passes, in the order in which they began. -/
  passages : List Passage := []
  ended : Task → Bool := fun _ => false
  dispatching : Dispatching := .looping
  signalled : Bool := false
  stage : Stage := .joining

inductive Motion
  /-- The store publishes an event. -/
  | notify (e : Event)
  | takeEvent
  /-- The intake has missed its events. -/
  | lag
  /-- The watcher sees that a file has changed. -/
  | spot (key : String)
  /-- A resync puts a key in the queue. -/
  | send (key : String)
  | ringIntake (key : String) (number : Nat)
  | ringRequeue (key : String) (number : Nat)
  | dispatch
  | work (worker : Nat) (answers : (q : Request) → q.Answer)
  | signal
  | endTask (task : Task)
  | drain
  | endDispatch
  | flushIntake
  | flushRequeue

namespace Service

def start (config : HostConfig) : Service := { force := .start config }

def mapHost (s : Service) (f : Host → Host) : Service :=
  { s with force := { s.force with host := f s.force.host } }

/-- Every task has ended. -/
def joined (s : Service) : Bool :=
  s.ended .intake && s.ended .watcher && s.ended .resync && s.ended .signals &&
    decide (s.dispatching = .closed)

/-- Triggers the first key of the queue. -/
def dispatch (s : Service) : Service :=
  match s.force.host.queue with
  | [] => s
  | key :: queue =>
    { s with force := { s.force with host := { s.force.host with queue } }.trigger key }

/-- A worker goes on. If it runs a pass, the pass makes its next request or ends. -/
def work (knows : String → Bool) (s : Service) (i : Nat) (answers : (q : Request) → q.Answer) :
    Service :=
  match s.force.hands[i]? with
  | some ⟨_, .running pass⟩ =>
    match s.passages[pass]? with
    | none => s
    | some ⟨key, past, .ask q next⟩ =>
      { s with passages := s.passages.set pass ⟨key, ⟨q, answers q⟩ :: past, next (answers q)⟩ }
    | some ⟨_, _, .done outcome⟩ => { s with force := s.force.work i outcome }
  | some ⟨key, .permitted⟩ =>
    let left := (s.force.host.engine knows).reconcile key
    { s with force := s.force.begin i key, passages := s.passages ++ [{ key, left }] }
  -- Here no pass ends.
  | _ => { s with force := s.force.work i (.ok .done) }

/-- A motion. One that cannot be made changes nothing. -/
def move (knows : String → Bool) (s : Service) : Motion → Service
  | .notify e => s.mapHost fun h => { h with undelivered := h.undelivered ++ [e] }
  | .takeEvent => if s.ended .intake then s else s.mapHost (·.takeEvent.1)
  | .lag => if s.ended .intake then s else s.mapHost fun h => { h with undelivered := [] }
  | .spot key => if s.ended .watcher then s else s.mapHost fun h => (h.coalesce key).1
  | .send key => s.mapHost (·.enqueue [key])
  | .ringIntake key number => s.mapHost fun h => (h.intakeRings key number).1
  | .ringRequeue key number => s.mapHost fun h => (h.requeueRings key number).1
  | .dispatch => if s.dispatching = .looping then s.dispatch else s
  | .work i answers => s.work knows i answers
  | .signal => { s with signalled := true }
  | .endTask task =>
    -- The task that waits for signals may fail, and tells nobody.
    { s with
      ended := fun t => decide (t = task) || s.ended t
      signalled := s.signalled || decide (task ≠ .signals) }
  | .drain =>
    if s.signalled ∧ s.dispatching = .looping then { s with dispatching := .draining } else s
  | .endDispatch =>
    if s.dispatching = .draining ∧ s.force.hands.isEmpty then
      { s with dispatching := .closed, signalled := true }
    else s
  | .flushIntake =>
    if s.joined ∧ s.stage = .joining then
      { s with stage := .flushing }.mapHost fun h => { h with intake := h.intake.flush }
    else s
  | .flushRequeue =>
    if s.stage = .flushing then
      { s with stage := .returned }.mapHost fun h => { h with requeue := h.requeue.flush }
    else s

/-- What a list of motions leads to, from a host that has just been started. -/
def play (config : HostConfig) (knows : String → Bool) (motions : List Motion) : Service :=
  motions.foldl (move knows) (start config)

/-- Dispatching is what the host does with its queue. -/
theorem dispatch_host (s : Service) : s.dispatch.force.host = s.force.host.dispatch.1 := by
  cases queue : s.force.host.queue <;>
    simp [dispatch, Host.dispatch, Workforce.trigger, queue]

end Service

/-- Nothing rings in a debouncer where nothing waits. -/
theorem Debouncer.claim_of_pendingCount {d : Debouncer} (none_waits : d.pendingCount = 0)
    (key : String) (number : Nat) : d.claim key number = none := by
  apply Debouncer.claim_eq_none.mpr
  have empty : d.waiting.isEmpty = true := List.isEmpty_iff_length_eq_zero.mpr none_waits
  rw [Table.get?_of_isEmpty empty]
  exact nofun

/-! ## Workers that run passes -/

namespace Workforce

theorem mem_promote {key : String} {hands : List Hand} {h : Hand} (mem : h ∈ hands)
    (busy : h.duty ≠ .waiting) : h ∈ promote key hands := by
  induction hands with
  | nil => cases mem
  | cons first hands ih =>
    obtain ⟨k, duty⟩ := first
    rcases List.mem_cons.mp mem with rfl | later
    · cases duty <;> simp_all [promote]
    · have := ih later
      cases duty with
      | waiting => by_cases same : k = key <;> simp [promote, same, later, this]
      | _ => simp [promote, this]

/-- A worker goes on with its pass while another one takes a turn. -/
theorem mem_work {w : Workforce} {h : Hand} {pass : Nat} (mem : h ∈ w.hands)
    (runs : h.duty = .running pass) (i : Nat) (other : w.hands[i]? ≠ some h)
    (outcome : Except SyncError Action) : h ∈ (w.work i outcome).hands := by
  have stays : ∀ {g : Hand}, w.hands[i]? = some g →
      (∀ g', h ∈ w.hands.set i g') ∧ h ∈ w.hands.eraseIdx i := by
    intro g found
    obtain ⟨before, after, split, set, erase⟩ := exists_split found
    have ne : h ≠ g := fun same => other (same ▸ found)
    have kept : h ∈ before ++ after := by
      rw [split, List.perm_middle.mem_iff] at mem
      exact (List.mem_cons.mp mem).resolve_left ne
    constructor
    · intro g'
      rw [set, List.perm_middle.mem_iff]
      exact List.mem_cons_of_mem g' kept
    · exact erase ▸ kept
  have busy : h.duty ≠ .waiting := by simp [runs]
  unfold work
  split
  · exact mem
  · next found => exact (stays found).1 _
  · exact mem
  · next found => exact (stays found).1 _
  · next found =>
    simp only [finish]
    split
    · exact (stays found).1 _
    · exact mem_promote ((stays found).1 _) busy
  · next found => exact (stays found).1 _
  · next found =>
    simp only [goOn]
    split
    · exact (stays found).1 _
    · exact (stays found).2

theorem config_work (w : Workforce) (i : Nat) (outcome : Except SyncError Action) :
    (w.work i outcome).host.config = w.host.config := by
  unfold work
  split
  · rfl
  · rfl
  · rfl
  · rfl
  · rfl
  · simp only [settle, Host.settle]
    split <;> rfl
  · rfl

/-- A worker that takes a turn begins a pass if it has just got its permit, and none otherwise. -/
theorem begun_work (w : Workforce) (i : Nat) (outcome : Except SyncError Action)
    (idle : ∀ key, w.hands[i]? ≠ some ⟨key, .permitted⟩) : (w.work i outcome).begun = w.begun := by
  unfold work
  split
  · rfl
  · rfl
  · rfl
  · next permitted => exact absurd permitted (idle _)
  · rfl
  · rfl
  · rfl

end Workforce

namespace Service

/-! ## What every motion preserves -/

structure Sound (config : HostConfig) (knows : String → Bool) (s : Service) : Prop where
  configured : s.force.host.config = config
  numbered : s.passages.length = s.force.begun
  follows : ∀ p ∈ s.passages,
    (((Host.start config).engine knows).reconcile p.key).Leaves p.past p.left
  /-- A pass that has not ended has a worker. -/
  manned : ∀ n p, s.passages[n]? = some p →
    (∃ outcome, p.left = .done outcome) ∨ ∃ h ∈ s.force.hands, h.duty = .running n
  deserted : s.dispatching = .closed → s.force.hands = []
  joined : s.stage ≠ .joining → s.joined = true ∧ s.force.host.intake.pendingCount = 0
  flushed : s.stage = .returned → s.force.host.requeue.pendingCount = 0

namespace Sound

variable {config : HostConfig} {knows : String → Bool} {s : Service}

theorem opening : Sound config knows (start config) where
  configured := rfl
  numbered := rfl
  follows p mem := by cases mem
  manned n p found := by cases found
  deserted closed := by cases closed
  joined left := absurd rfl left
  flushed returned := by cases returned

theorem ended_of_joined {t : Task} (joined : s.joined = true) : s.ended t = true := by
  simp only [Service.joined, Bool.and_eq_true] at joined
  cases t <;> simp [joined]

theorem closed_of_joined (joined : s.joined = true) : s.dispatching = .closed := by
  simp only [Service.joined, Bool.and_eq_true, decide_eq_true_eq] at joined
  exact joined.2

/-- As long as its dispatcher has not ended, a host waits for its tasks. -/
theorem joining (h : Sound config knows s) (busy : s.dispatching ≠ .closed) :
    s.stage = .joining := by
  apply Decidable.of_not_not
  intro left
  exact busy (closed_of_joined (h.joined left).1)

/-- The host changes by itself: nothing that was flushed fills up again. -/
theorem mapHost (h : Sound config knows s) {f : Host → Host}
    (config_eq : (f s.force.host).config = s.force.host.config)
    (intake : s.joined = true → s.force.host.intake.pendingCount = 0 →
      (f s.force.host).intake.pendingCount = 0)
    (requeue : s.force.host.requeue.pendingCount = 0 →
      (f s.force.host).requeue.pendingCount = 0) : Sound config knows (s.mapHost f) where
  configured := config_eq.trans h.configured
  numbered := h.numbered
  follows := h.follows
  manned := h.manned
  deserted := h.deserted
  joined left := ⟨(h.joined left).1, intake (h.joined left).1 (h.joined left).2⟩
  flushed returned := requeue (h.flushed returned)

theorem intakeRings (h : Sound config knows s) (key : String) (number : Nat) :
    Sound config knows (s.mapHost fun host => (host.intakeRings key number).1) := by
  apply h.mapHost
  · unfold Host.intakeRings
    split <;> rfl
  · intro _ empty
    simpa [Host.intakeRings, Debouncer.claim_of_pendingCount empty] using empty
  · intro empty
    unfold Host.intakeRings
    split <;> exact empty

theorem requeueRings (h : Sound config knows s) (key : String) (number : Nat) :
    Sound config knows (s.mapHost fun host => (host.requeueRings key number).1) := by
  apply h.mapHost
  · unfold Host.requeueRings
    split <;> rfl
  · intro _ empty
    unfold Host.requeueRings
    split <;> exact empty
  · intro empty
    simpa [Host.requeueRings, Debouncer.claim_of_pendingCount empty] using empty

/-- The intake or the watcher, which has not ended, lets changes wait for quiet. -/
theorem coalesces (h : Sound config knows s) {t : Task} (serving : ¬ s.ended t = true)
    {f : Host → Host} (config_eq : (f s.force.host).config = s.force.host.config)
    (requeue : (f s.force.host).requeue = s.force.host.requeue) :
    Sound config knows (s.mapHost f) := by
  apply h.mapHost config_eq
  · intro joined
    exact absurd (ended_of_joined joined) serving
  · intro empty
    exact requeue ▸ empty

theorem takeEvent (h : Sound config knows s) (serving : ¬ s.ended .intake = true) :
    Sound config knows (s.mapHost (·.takeEvent.1)) := by
  apply h.coalesces serving
  · unfold Host.takeEvent
    split
    · rfl
    · dsimp only
      split <;> rfl
  · unfold Host.takeEvent
    split
    · rfl
    · dsimp only
      split <;> rfl

theorem dispatch (h : Sound config knows s) (looping : s.dispatching = .looping) :
    Sound config knows s.dispatch := by
  have busy : s.dispatching ≠ .closed := by
    rw [looping]
    nofun
  have serving := h.joining busy
  unfold Service.dispatch
  split
  · exact h
  · next key queue _ =>
    exact {
      configured := h.configured
      numbered := h.numbered
      follows := h.follows
      manned := by
        intro n p found
        rcases h.manned n p found with ended | ⟨hand, mem, runs⟩
        · exact .inl ended
        · refine .inr ⟨hand, ?_, runs⟩
          simp only [Workforce.trigger]
          split
          · exact List.mem_append_left _ mem
          · exact mem
      deserted := fun closed => absurd closed busy
      joined := fun left => absurd serving left
      flushed := by
        intro returned
        rw [show _ = s.stage from rfl, serving] at returned
        cases returned }

/-- The tasks wind down, and the workers go on. -/
theorem winds (h : Sound config knows s) (ended : Task → Bool) (dispatching : Dispatching)
    (signalled : Bool) (deserted : dispatching = .closed → s.force.hands = [])
    (joined : s.stage ≠ .joining →
      ({ s with ended, dispatching, signalled } : Service).joined = true) :
    Sound config knows { s with ended, dispatching, signalled } where
  configured := h.configured
  numbered := h.numbered
  follows := h.follows
  manned := h.manned
  deserted := deserted
  joined left := ⟨joined left, (h.joined left).2⟩
  flushed := h.flushed

theorem endTask (h : Sound config knows s) (task : Task) :
    Sound config knows (s.move knows (.endTask task)) := by
  apply h.winds _ _ _ h.deserted
  intro left
  have joined := (h.joined left).1
  simp only [Service.joined, Bool.and_eq_true, Bool.or_eq_true, decide_eq_true_eq] at joined ⊢
  simp [joined]

theorem drain (h : Sound config knows s) : Sound config knows (s.move knows .drain) := by
  simp only [Service.move]
  split
  · next hears =>
    have serving : s.stage = .joining := by
      apply h.joining
      rw [hears.2]
      nofun
    exact h.winds s.ended .draining s.signalled nofun fun left => absurd serving left
  · exact h

theorem endDispatch (h : Sound config knows s) :
    Sound config knows (s.move knows .endDispatch) := by
  simp only [Service.move]
  split
  · next alone =>
    have serving : s.stage = .joining := by
      apply h.joining
      rw [alone.1]
      nofun
    exact h.winds s.ended .closed true (fun _ => List.isEmpty_iff.mp alone.2)
      fun left => absurd serving left
  · exact h

theorem flushIntake (h : Sound config knows s) :
    Sound config knows (s.move knows .flushIntake) := by
  simp only [Service.move]
  split
  · next ready =>
    exact {
      configured := h.configured
      numbered := h.numbered
      follows := h.follows
      manned := h.manned
      deserted := h.deserted
      joined := fun _ => ⟨ready.1, rfl⟩
      flushed := nofun }
  · exact h

theorem flushRequeue (h : Sound config knows s) :
    Sound config knows (s.move knows .flushRequeue) := by
  simp only [Service.move]
  split
  · next flushing =>
    exact {
      configured := h.configured
      numbered := h.numbered
      follows := h.follows
      manned := h.manned
      deserted := h.deserted
      joined := fun _ => h.joined (by rw [flushing]; nofun)
      flushed := fun _ => rfl }
  · exact h

/-- A worker takes a turn, so the host has not returned. -/
theorem manages (h : Sound config knows s) {i : Nat} {hand : Hand}
    (found : s.force.hands[i]? = some hand) (force : Workforce) (passages : List Passage)
    (config_eq : force.host.config = s.force.host.config)
    (numbered : passages.length = force.begun)
    (follows : ∀ p ∈ passages,
      (((Host.start config).engine knows).reconcile p.key).Leaves p.past p.left)
    (manned : ∀ n p, passages[n]? = some p →
      (∃ outcome, p.left = .done outcome) ∨ ∃ h ∈ force.hands, h.duty = .running n) :
    Sound config knows { s with force, passages } := by
  have busy : s.dispatching ≠ .closed := by
    intro closed
    rw [h.deserted closed] at found
    cases found
  have serving := h.joining busy
  exact {
    configured := config_eq.trans h.configured
    numbered := numbered
    follows := follows
    manned := manned
    deserted := fun closed => absurd closed busy
    joined := fun left => absurd serving left
    flushed := by
      intro returned
      rw [show _ = s.stage from rfl, serving] at returned
      cases returned }

theorem engine_eq (h : Sound config knows s) :
    s.force.host.engine knows = (Host.start config).engine knows := by
  simp [Host.engine, Host.start, h.configured]

/-- A worker takes a turn in which no pass begins, and none ends that has more to ask. -/
theorem works (h : Sound config knows s) {i : Nat} {hand : Hand}
    (found : s.force.hands[i]? = some hand) (outcome : Except SyncError Action)
    (idle : hand.duty ≠ .permitted)
    (ended : ∀ n p, hand.duty = .running n → s.passages[n]? = some p →
      ∃ outcome, p.left = .done outcome) :
    Sound config knows { s with force := s.force.work i outcome } := by
  have begun : (s.force.work i outcome).begun = s.force.begun := by
    apply Workforce.begun_work
    intro key permitted
    rw [found] at permitted
    cases permitted
    exact idle rfl
  refine h.manages found _ _ (Workforce.config_work _ _ _) (h.numbered.trans begun.symm)
    h.follows ?_
  intro n p passage
  rcases h.manned n p passage with ended | ⟨other, mem, runs⟩
  · exact .inl ended
  · by_cases same : hand = other
    · exact .inl (ended n p (same ▸ runs) passage)
    · have elsewhere : s.force.hands[i]? ≠ some other := by
        rw [found]
        exact fun eq => same (Option.some.inj eq)
      exact .inr ⟨other, Workforce.mem_work mem runs i elsewhere outcome, runs⟩

/-- A pass makes its next request. -/
theorem asks (h : Sound config knows s) {i pass : Nat} {key k : String} {past : List Exchange}
    {q : Request} {next : q.Answer → Program (Except SyncError Action)}
    (found : s.force.hands[i]? = some ⟨k, .running pass⟩)
    (passage : s.passages[pass]? = some ⟨key, past, .ask q next⟩) (a : q.Answer) :
    Sound config knows
      { s with passages := s.passages.set pass ⟨key, ⟨q, a⟩ :: past, next a⟩ } := by
  refine h.manages found s.force _ rfl ?_ ?_ ?_
  · simpa using h.numbered
  · intro p mem
    rcases List.mem_or_eq_of_mem_set mem with old | rfl
    · exact h.follows p old
    · exact (h.follows _ (List.mem_of_getElem? passage)).step a
  · intro n p there
    by_cases same : pass = n
    · subst same
      exact .inr ⟨_, List.mem_of_getElem? found, rfl⟩
    · rw [List.getElem?_set_ne same] at there
      exact h.manned n p there

/-- A worker that has got its permit begins a pass. -/
theorem begins (h : Sound config knows s) {i : Nat} {key : String}
    (found : s.force.hands[i]? = some ⟨key, .permitted⟩) :
    Sound config knows
      { s with
        force := s.force.begin i key
        passages := s.passages ++
          [{ key, left := (s.force.host.engine knows).reconcile key }] } := by
  have turn : s.force.work i (.ok .done) = s.force.begin i key := by
    simp [Workforce.work, found]
  refine h.manages found _ _ rfl ?_ ?_ ?_
  · simp [Workforce.begin, h.numbered]
  · intro p mem
    rcases List.mem_append.mp mem with old | new
    · exact h.follows p old
    · cases List.mem_singleton.mp new
      rw [h.engine_eq]
      exact .start
  · intro n p there
    by_cases old : n < s.passages.length
    · rw [List.getElem?_append_left old] at there
      rcases h.manned n p there with ended | ⟨other, mem, runs⟩
      · exact .inl ended
      · have elsewhere : s.force.hands[i]? ≠ some other := by
          rintro same
          rw [found] at same
          cases same
          cases runs
        exact .inr ⟨other, turn ▸ Workforce.mem_work mem runs i elsewhere (.ok .done), runs⟩
    · have new : n = s.force.begun := by
        have := (List.getElem?_eq_some_iff.mp there).1
        rw [List.length_append, List.length_singleton] at this
        have := h.numbered
        omega
      obtain ⟨lt, -⟩ := List.getElem?_eq_some_iff.mp found
      exact .inr ⟨⟨key, .running s.force.begun⟩, List.mem_set lt _, new ▸ rfl⟩

theorem work (h : Sound config knows s) (i : Nat) (answers : (q : Request) → q.Answer) :
    Sound config knows (s.work knows i answers) := by
  unfold Service.work
  split
  · next k pass found =>
    split
    · exact h
    · next passage => exact h.asks found passage _
    · next key past outcome passage =>
      refine h.works found outcome nofun ?_
      intro n p runs there
      cases runs
      rw [passage] at there
      cases there
      exact ⟨outcome, rfl⟩
  · next found => exact h.begins found
  · next running permitted =>
    cases found : s.force.hands[i]? with
    | none =>
      have still : s.force.work i (.ok .done) = s.force := by simp [Workforce.work, found]
      rw [still]
      exact h
    | some hand =>
      apply h.works found
      · rintro rest
        exact permitted hand.key (by rw [found, ← rest])
      · intro n p runs
        exact absurd (by rw [found, ← runs]) (running hand.key n)

theorem move (h : Sound config knows s) (m : Motion) : Sound config knows (s.move knows m) := by
  cases m with
  | notify e =>
    simp only [Service.move]
    exact h.mapHost rfl (fun _ empty => empty) fun empty => empty
  | takeEvent =>
    simp only [Service.move]
    split
    · exact h
    · next serving => exact h.takeEvent serving
  | lag =>
    simp only [Service.move]
    split
    · exact h
    · exact h.mapHost rfl (fun _ => id) id
  | spot key =>
    simp only [Service.move]
    split
    · exact h
    · next serving => exact h.coalesces serving rfl rfl
  | send key =>
    simp only [Service.move]
    exact h.mapHost rfl (fun _ empty => empty) fun empty => empty
  | ringIntake key number => exact h.intakeRings key number
  | ringRequeue key number => exact h.requeueRings key number
  | dispatch =>
    simp only [Service.move]
    split
    · next looping => exact h.dispatch looping
    · exact h
  | work i answers => exact h.work i answers
  | signal => exact h.winds s.ended s.dispatching true h.deserted fun left => (h.joined left).1
  | endTask task => exact h.endTask task
  | drain => exact h.drain
  | endDispatch => exact h.endDispatch
  | flushIntake => exact h.flushIntake
  | flushRequeue => exact h.flushRequeue

theorem moves (h : Sound config knows s) (motions : List Motion) :
    Sound config knows (motions.foldl (Service.move knows) s) := by
  induction motions generalizing s with
  | nil => exact h
  | cons m motions ih => exact ih (h.move m)

theorem closed_of_returned (h : Sound config knows s) (returned : s.stage = .returned) :
    s.dispatching = .closed :=
  closed_of_joined (h.joined (by rw [returned]; nofun)).1

/-- A host that has returned does nothing any more. -/
theorem idle (h : Sound config knows s) (returned : s.stage = .returned) (m : Motion) :
    (s.move knows m).passages = s.passages ∧ (s.move knows m).force.log = s.force.log ∧
      (s.move knows m).stage = .returned := by
  have closed := h.closed_of_returned returned
  have nobody := h.deserted closed
  cases m with
  | work i answers =>
    have still : s.work knows i answers = s := by
      simp [Service.work, Workforce.work, nobody]
    simp [Service.move, still, returned]
  | notify | send | ringIntake | ringRequeue | signal | endTask => exact ⟨rfl, rfl, returned⟩
  | takeEvent | lag | spot =>
    simp only [Service.move]
    split <;> exact ⟨rfl, rfl, returned⟩
  | dispatch | drain | endDispatch | flushIntake | flushRequeue =>
    simp [Service.move, closed, returned]

theorem idles (h : Sound config knows s) (returned : s.stage = .returned) (motions : List Motion) :
    (motions.foldl (Service.move knows) s).passages = s.passages ∧
      (motions.foldl (Service.move knows) s).force.log = s.force.log ∧
      (motions.foldl (Service.move knows) s).stage = .returned := by
  induction motions generalizing s with
  | nil => exact ⟨rfl, rfl, returned⟩
  | cons m motions ih =>
    obtain ⟨passages, log, stays⟩ := h.idle returned m
    obtain ⟨passages', log', stays'⟩ := ih (h.move m) stays
    exact ⟨passages'.trans passages, log'.trans log, stays'⟩

end Sound

/-! ## What a return means -/

/-- When a host returns, every pass that has begun has done all that it had to do, and whatever
happens afterwards, no pass begins or goes on, and nothing waits in the debouncers. -/
theorem shutdown_complete (config : HostConfig) (knows : String → Bool) (motions : List Motion)
    (returned : (play config knows motions).stage = .returned) :
    let s := play config knows motions
    (∀ p ∈ s.passages, ∃ outcome,
      (((Host.start config).engine knows).reconcile p.key).Leaves p.past (.done outcome)) ∧
    ∀ later,
      let t := play config knows (motions ++ later)
      t.passages = s.passages ∧ t.force.log = s.force.log ∧ t.force.hands = [] ∧
        t.force.host.intake.pendingCount = 0 ∧ t.force.host.requeue.pendingCount = 0 := by
  intro s
  have h : Sound config knows s := Sound.opening.moves motions
  have closed := h.closed_of_returned returned
  constructor
  · intro p mem
    obtain ⟨n, found⟩ := List.mem_iff_getElem?.mp mem
    rcases h.manned n p found with ⟨outcome, ended⟩ | ⟨hand, works, -⟩
    · exact ⟨outcome, ended ▸ h.follows p mem⟩
    · rw [h.deserted closed] at works
      cases works
  · intro later t
    have go_on : t = later.foldl (move knows) s := List.foldl_append
    obtain ⟨passages, log, stays⟩ := h.idles returned later
    have sound := h.moves later
    rw [← go_on] at passages log stays sound
    exact ⟨passages, log, sound.deserted (sound.closed_of_returned stays),
      (sound.joined (by rw [stays]; nofun)).2, sound.flushed stays⟩

/-- A store that agrees to everything, and a downstream that is out of order. -/
def outOfOrder (record : Record) : (q : Request) → q.Answer
  | .store (.get _) => .ok record
  | .store (.create r) => .ok r
  | .store (.update r) | .store (.updateStatus r) => .ok (r.token + 1)
  | .store (.delete _) => .ok ()
  | .store .list => .ok [record.key]
  | .now => ⟨0, 0⟩
  | .sleep _ => ()
  | .coalescing _ => false
  | .aggregate _ sources => .ok ⟨.null, sources.length, sources.map (·.owner)⟩
  | .credentials _ => .ok ⟨none⟩
  | .push .. => .error ⟨.timeout, "late"⟩
  | .teardown .. => .ok ()

/-- The host is told to stop when a pass has asked its downstream and not yet entered the answer.
Then `r` is triggered again, `s` queues up and `t` waits for quiet. -/
def lastShift : List Motion :=
  let record := ({ resourceType := "t" } : Template).instantiate "r" ⟨⟨"k", "n", "a"⟩, 0, []⟩ ⟨0, 0⟩
  let goOn := Motion.work 0 (outOfOrder record)
  [.send "r", .dispatch] ++ List.replicate 12 goOn ++
    [.signal, .send "r", .dispatch, .send "s", .spot "t"] ++ List.replicate 30 goOn ++
    [.drain, .endTask .intake, .endTask .watcher, .endTask .resync, .endTask .signals,
      .endDispatch, .flushIntake, .flushRequeue]

/-- The host lets that pass and the one after it do all that they have to do, then returns, and
never looks at `s` and `t`. -/
theorem lastShift_complete :
    (play {} (fun _ => true) lastShift).stage = .returned ∧
    (play {} (fun _ => true) lastShift).passages.map (·.key) = ["r", "r"] ∧
    (∀ p ∈ (play {} (fun _ => true) lastShift).passages, ∃ outcome,
      (((Host.start {}).engine fun _ => true).reconcile p.key).Leaves p.past (.done outcome)) ∧
    ∀ later,
      let t := play {} (fun _ => true) (lastShift ++ later)
      t.passages.map (·.key) = ["r", "r"] ∧ t.force.host.intake.pendingCount = 0 ∧
        t.force.host.requeue.pendingCount = 0 := by
  have returned : (play {} (fun _ => true) lastShift).stage = .returned := by decide +kernel
  have passes : (play {} (fun _ => true) lastShift).passages.map (·.key) = ["r", "r"] := by
    decide +kernel
  obtain ⟨complete, nothing⟩ := shutdown_complete {} (fun _ => true) lastShift returned
  refine ⟨returned, passes, complete, ?_⟩
  intro later t
  obtain ⟨same, -, -, intake, requeue⟩ := nothing later
  have keys : t.passages.map (·.key) = ["r", "r"] := by rw [same, passes]
  exact ⟨keys, intake, requeue⟩

end Service

end Tributary
