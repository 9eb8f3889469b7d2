import Mathlib.Data.List.Induction
import Mathlib.Data.List.Perm.Subperm
import Tributary.Proofs.Workforce

/-!
# The workers of a site

A site follows every request of a pass; a workforce only sees passes begin and end. Each move of
a site is none, one or two turns of a workforce (`Site.act_staffs`): whoever gets a permit on a site
begins its pass in the same move. So every run of a site is one of a workforce (`Site.play_staffs`),
and what holds of a workforce whoever goes on next holds of a site.
-/

namespace Tributary

/-- What the worker of a site does is what a worker of a workforce does. -/
inductive Worker.Does : Worker → Duty → Prop
  | asking : Does .asking .asking
  | waiting : Does .waiting .waiting
  | running (left : Program (Except SyncError Action)) (pass : Nat) :
      Does (.running left) (.running pass)
  | returned (outcome : Except SyncError Action) : Does (.returned outcome) (.returned outcome)
  | settled : Does .settled .settled

/-- Both have workers for the same keys, which do the same. -/
structure Crewed (workers : String → Option Worker) (hands : List Hand) : Prop where
  does : ∀ h ∈ hands, ∃ worker, workers h.key = some worker ∧ worker.Does h.duty
  staffed : ∀ key worker, workers key = some worker → ∃ h ∈ hands, h.key = key

namespace Crewed

variable {workers : String → Option Worker} {hands : List Hand} {i : Nat} {key : String}
  {duty duty' : Duty} {worker : Worker}

/-- The worker of a key has a hand. -/
theorem exists_hand (crewed : Crewed workers hands) (works : workers key = some worker) :
    ∃ (i : Nat) (duty : Duty), hands[i]? = some ⟨key, duty⟩ ∧ worker.Does duty := by
  obtain ⟨⟨_, duty⟩, mem, rfl⟩ := crewed.staffed key worker works
  obtain ⟨same, works', does⟩ := crewed.does _ mem
  obtain rfl := Option.some.inj (works'.symm.trans works)
  obtain ⟨i, at_i⟩ := List.mem_iff_getElem?.mp mem
  exact ⟨i, duty, at_i, does⟩

/-- Whatever comes of one worker, the others have the hands of the others. -/
theorem others (crewed : Crewed workers hands) (once : (hands.map (·.key)).Nodup)
    (at_i : hands[i]? = some ⟨key, duty⟩) :
    Crewed (fun k => if k = key then none else workers k) (hands.eraseIdx i) := by
  obtain ⟨before, after, rfl, -, erase⟩ := exists_split at_i
  rw [erase]
  constructor
  · intro h mem
    have apart : h.key ≠ key := fun same => key_apart once (same ▸ List.mem_map_of_mem mem)
    rw [if_neg apart]
    exact crewed.does h (List.perm_middle.mem_iff.mpr (List.mem_cons_of_mem _ mem))
  · intro k other works
    by_cases same : k = key
    · rw [if_pos same] at works
      cases works
    · rw [if_neg same] at works
      obtain ⟨h, mem, rfl⟩ := crewed.staffed k other works
      rcases List.mem_cons.mp (List.perm_middle.mem_iff.mp mem) with rfl | mem
      · exact absurd rfl same
      · exact ⟨h, mem, rfl⟩

/-- One more worker, for a key that has none. -/
theorem insert (crewed : Crewed (fun k => if k = key then none else workers k) hands)
    (does : worker.Does duty) {hands' : List Hand} (perm : hands'.Perm (⟨key, duty⟩ :: hands)) :
    Crewed (fun k => if k = key then some worker else workers k) hands' where
  does h mem := by
    rcases List.mem_cons.mp (perm.mem_iff.mp mem) with rfl | mem
    · exact ⟨worker, if_pos rfl, does⟩
    · obtain ⟨other, works, does⟩ := crewed.does h mem
      by_cases same : h.key = key
      · rw [if_pos same] at works
        cases works
      · rw [if_neg same] at works ⊢
        exact ⟨other, works, does⟩
  staffed k other works := by
    by_cases same : k = key
    · exact ⟨⟨key, duty⟩, perm.mem_iff.mpr List.mem_cons_self, same.symm⟩
    · rw [if_neg same] at works
      obtain ⟨h, mem, rfl⟩ := crewed.staffed k other (by rw [if_neg same, works])
      exact ⟨h, perm.mem_iff.mpr (List.mem_cons_of_mem _ mem), rfl⟩

/-- A worker that stays does something else. -/
theorem set (crewed : Crewed workers hands) (once : (hands.map (·.key)).Nodup)
    (at_i : hands[i]? = some ⟨key, duty⟩) (does : worker.Does duty') :
    Crewed (fun k => if k = key then some worker else workers k) (hands.set i ⟨key, duty'⟩) := by
  obtain ⟨before, after, -, set, erase⟩ := exists_split at_i
  have others := crewed.others once at_i
  rw [erase] at others
  rw [set]
  exact others.insert does List.perm_middle

/-- A key that had no worker gets one. -/
theorem hire (crewed : Crewed workers hands) (idle : key ∉ hands.map (·.key)) :
    Crewed (fun k => if k = key then some .asking else workers k)
      (hands ++ [⟨key, .asking⟩]) := by
  have nobody : (fun k => if k = key then none else workers k) = workers := by
    funext k
    split
    · next same =>
      cases works : workers k with
      | none => rfl
      | some worker =>
        obtain ⟨h, mem, mine⟩ := crewed.staffed k worker works
        exact absurd (mine.trans same ▸ List.mem_map_of_mem mem) idle
    · rfl
  have others : Crewed (fun k => if k = key then none else workers k) hands := by
    rw [nobody]
    exact crewed
  exact others.insert .asking List.perm_append_comm

end Crewed

/-- The worker of a key that waits is one of the hands, and gets a permit. -/
theorem exists_promote {hands : List Hand} {key : String} (mem : ⟨key, .waiting⟩ ∈ hands) :
    ∃ i : Nat, hands[i]? = some ⟨key, .waiting⟩ ∧
      promote key hands = hands.set i ⟨key, .permitted⟩ ∧
      (promote key hands)[i]? = some ⟨key, .permitted⟩ := by
  obtain ⟨before, after, rfl, promoted⟩ := promote_split mem
  exact ⟨before.length, by simp, by simp [promoted], by simp [promoted]⟩

/-- Whoever has a permit begins its pass. -/
theorem Workforce.turn_permitted {w : Workforce} {i : Nat} {key : String}
    (permitted : w.hands[i]? = some ⟨key, .permitted⟩) :
    w.turn (.work i (.ok .done)) = w.begin i key := by
  rw [turn, work, permitted]

namespace Site

variable {jobs : Nat → Job} {s : Site jobs} {w : Workforce} {passes : Nat} {key : String}

/-- A site has the dispatcher and the workers of a workforce. -/
structure Staffs (s : Site jobs) (w : Workforce) : Prop where
  dispatcher : s.host.dispatcher = w.host.dispatcher
  crewed : Crewed s.workers w.hands

theorem opening_staffs (jobs : Nat → Job) (config : HostConfig) (memory : Memory) :
    (opening jobs config memory).Staffs (Workforce.start config) where
  dispatcher := rfl
  crewed := ⟨nofun, nofun⟩

/-! ## A move is a few turns -/

theorem dispatch_staffs (staffs : s.Staffs w)
    (staffed : Staffed passes w.host.dispatcher w.hands) :
    ∃ turns : List Workforce.Turn, s.dispatch.Staffs (turns.foldl Workforce.turn w) := by
  obtain ⟨same, crewed⟩ := staffs
  cases queue : s.host.queue with
  | nil => exact ⟨[], by simpa [dispatch, Host.dispatch, queue] using ⟨same, crewed⟩⟩
  | cons key rest =>
    refine ⟨[.trigger key], ?_⟩
    by_cases employed : w.host.dispatcher.inFlight.contains key = true
    · constructor <;> simp [dispatch, Host.dispatch, queue, Dispatcher.trigger, same, employed,
        Workforce.turn, Workforce.trigger, crewed]
    · have idle : key ∉ w.hands.map (·.key) := fun mem => employed ((staffed.known key).mpr mem)
      have hired := crewed.hire idle
      constructor <;> simp [dispatch, Host.dispatch, queue, Dispatcher.trigger, same, employed,
        Workforce.turn, Workforce.trigger, employ, hired]

/-- A worker that gets a permit at once begins its pass in the same move. -/
theorem acquire_staffs (knows : String → Bool) (staffs : s.Staffs w)
    (staffed : Staffed passes w.host.dispatcher w.hands) (asks : s.workers key = some .asking) :
    ∃ turns : List Workforce.Turn, (s.acquire knows key).Staffs (turns.foldl Workforce.turn w) := by
  obtain ⟨same, crewed⟩ := staffs
  obtain ⟨i, duty, at_i, does⟩ := crewed.exists_hand asks
  cases does
  have asked : w.turn (.work i (.ok .done)) = w.ask i key := by
    rw [Workforce.turn, Workforce.work, at_i]
  cases free : w.host.dispatcher.free with
  | zero =>
    refine ⟨[.work i (.ok .done)], ?_⟩
    have waits := crewed.set staffed.once at_i .waiting
    rw [List.foldl_cons, asked]
    constructor <;> simp [acquire, Dispatcher.acquire, same, free, Workforce.ask, employ, waits]
  | succ n =>
    refine ⟨[.work i (.ok .done), .work i (.ok .done)], ?_⟩
    have permitted : (w.ask i key).hands[i]? = some ⟨key, .permitted⟩ := by
      simp [Workforce.ask, Dispatcher.acquire, free, (List.getElem?_eq_some_iff.mp at_i).1]
    -- A workforce takes a second turn to begin the pass.
    have runs := crewed.set staffed.once at_i
      (.running ((s.host.engine knows).reconcile key) w.begun)
    rw [List.foldl_cons, asked, List.foldl_cons, Workforce.turn_permitted permitted]
    constructor
    · simp [acquire, Dispatcher.acquire, same, free, Workforce.ask, Workforce.begin, begin, employ]
    · simpa [acquire, Dispatcher.acquire, same, free, Workforce.ask, Workforce.begin, begin, employ,
        Host.engine] using runs

/-- A permit that is given back goes to whoever has waited longest, whose pass begins in the same
move. -/
theorem finish_staffs (knows : String → Bool) (staffs : s.Staffs w)
    (staffed : Staffed passes w.host.dispatcher w.hands) {outcome : Except SyncError Action}
    (ended : s.workers key = some (.running (.done outcome))) :
    ∃ turns : List Workforce.Turn,
      (s.finish knows key outcome).Staffs (turns.foldl Workforce.turn w) := by
  obtain ⟨same, crewed⟩ := staffs
  obtain ⟨i, _, at_i, does⟩ := crewed.exists_hand ended
  cases does with
  | running _ pass =>
    have finished : w.turn (.work i outcome) = w.finish i key outcome := by
      rw [Workforce.turn, Workforce.work, at_i]
    have returned := crewed.set staffed.once at_i (.returned outcome)
    cases waiting : w.host.dispatcher.waiting with
    | nil =>
      refine ⟨[.work i outcome], ?_⟩
      rw [List.foldl_cons, finished]
      constructor <;> simp [finish, Dispatcher.giveBack, same, waiting, Workforce.finish, employ,
        returned]
    | cons other rest =>
      -- Who waits still does when the permit is back, and takes the second turn.
      have back := staffed.giveBack at_i outcome
      have waits := (back.waits other).mp (waiting ▸ List.mem_cons_self)
      obtain ⟨j, at_j, promoted, permitted⟩ := exists_promote waits
      have permitted : (w.finish i key outcome).hands[j]? = some ⟨other, .permitted⟩ := by
        simpa [Workforce.finish, Dispatcher.giveBack, waiting] using permitted
      have runs := returned.set back.once at_j
        (.running ((s.host.engine knows).reconcile other) w.begun)
      refine ⟨[.work i outcome, .work j (.ok .done)], ?_⟩
      rw [List.foldl_cons, finished, List.foldl_cons, Workforce.turn_permitted permitted]
      constructor
      · simp [finish, Dispatcher.giveBack, same, waiting, Workforce.finish, Workforce.begin, begin,
          employ]
      · simpa [finish, Dispatcher.giveBack, same, waiting, Workforce.finish, Workforce.begin, begin,
          employ, promoted, Host.engine] using runs

theorem settle_staffs (staffs : s.Staffs w)
    (staffed : Staffed passes w.host.dispatcher w.hands) {outcome : Except SyncError Action}
    (returned : s.workers key = some (.returned outcome)) :
    ∃ turns : List Workforce.Turn,
      Staffs ({ s with host := (s.host.settle key outcome).1 }.employ key (some .settled))
        (turns.foldl Workforce.turn w) := by
  obtain ⟨same, crewed⟩ := staffs
  obtain ⟨i, _, at_i, does⟩ := crewed.exists_hand returned
  cases does
  have settled := crewed.set staffed.once at_i .settled
  refine ⟨[.work i outcome], ?_⟩
  constructor <;> simp [same, Workforce.turn, Workforce.work, at_i, Workforce.settle, employ,
    settled]

theorem goOn_staffs (staffs : s.Staffs w) (staffed : Staffed passes w.host.dispatcher w.hands)
    (settled : s.workers key = some .settled) :
    ∃ turns : List Workforce.Turn, (s.goOn key).Staffs (turns.foldl Workforce.turn w) := by
  obtain ⟨same, crewed⟩ := staffs
  obtain ⟨i, _, at_i, does⟩ := crewed.exists_hand settled
  cases does
  refine ⟨[.work i (.ok .done)], ?_⟩
  by_cases dirty : w.host.dispatcher.inFlight.get? key = some true
  · have asks := crewed.set staffed.once at_i .asking
    constructor <;> simp [goOn, Dispatcher.again, same, dirty, Workforce.turn, Workforce.work, at_i,
      Workforce.goOn, employ, asks]
  · have leaves := crewed.others staffed.once at_i
    constructor <;> simp [goOn, Dispatcher.again, same, dirty, Workforce.turn, Workforce.work, at_i,
      Workforce.goOn, employ, leaves]

/-- A pass that makes a request goes on running. -/
theorem employ_staffs (staffs : s.Staffs w) (staffed : Staffed passes w.host.dispatcher w.hands)
    {left : Program (Except SyncError Action)} (runs : s.workers key = some (.running left))
    (left' : Program (Except SyncError Action)) :
    Crewed (s.employ key (some (.running left'))).workers w.hands := by
  obtain ⟨i, _, at_i, does⟩ := staffs.crewed.exists_hand runs
  cases does with
  | running _ pass =>
    have crewed := staffs.crewed.set staffed.once at_i (.running left' pass)
    obtain ⟨bound, same⟩ := List.getElem?_eq_some_iff.mp at_i
    rwa [← same, List.set_getElem_self] at crewed

theorem work_staffs (knows : String → Bool)
    (aggregate : String → List Contribution → Except SyncError Aggregation) (staffs : s.Staffs w)
    (staffed : Staffed passes w.host.dispatcher w.hands) (key : String) (around : Surroundings) :
    ∃ turns : List Workforce.Turn,
      (s.work knows aggregate key around).Staffs (turns.foldl Workforce.turn w) := by
  unfold work
  split
  · exact ⟨[], staffs⟩
  · exact ⟨[], staffs⟩
  · next asks => exact acquire_staffs knows staffs staffed asks
  · next q next runs => exact ⟨[], staffs.dispatcher, employ_staffs staffs staffed runs _⟩
  · next ended => exact finish_staffs knows staffs staffed ended
  · next returned => exact settle_staffs staffs staffed returned
  · next settled => exact goOn_staffs staffs staffed settled

/-- Every move of a site is a few turns of its workers. -/
theorem act_staffs (knows : String → Bool)
    (aggregate : String → List Contribution → Except SyncError Aggregation) (staffs : s.Staffs w)
    (staffed : Staffed passes w.host.dispatcher w.hands) (act : Act) :
    ∃ turns : List Workforce.Turn,
      (s.act knows aggregate act).Staffs (turns.foldl Workforce.turn w) := by
  cases act with
  | call i around =>
    refine ⟨[], ?_⟩
    unfold Site.act call
    dsimp only
    split <;> exact ⟨staffs.dispatcher, staffs.crewed⟩
  | takeEvent => exact ⟨[], by simpa [Site.act] using staffs.dispatcher, staffs.crewed⟩
  | ringIntake => exact ⟨[], by simpa [Site.act] using staffs.dispatcher, staffs.crewed⟩
  | ringRequeue => exact ⟨[], by simpa [Site.act] using staffs.dispatcher, staffs.crewed⟩
  | resync =>
    refine ⟨[], ?_⟩
    unfold Site.act resync
    dsimp only
    split <;> exact ⟨staffs.dispatcher, staffs.crewed⟩
  | dispatch => exact dispatch_staffs staffs staffed
  | work key around => exact work_staffs knows aggregate staffs staffed key around

/-! ## Whole runs -/

/-- Whatever a site does, its workers take turns as those of a workforce do. -/
theorem play_staffs (knows : String → Bool)
    (aggregate : String → List Contribution → Except SyncError Aggregation) (config : HostConfig)
    (memory : Memory) (acts : List Act) :
    ∃ turns, ((opening jobs config memory).play knows aggregate acts).Staffs
      (Workforce.play config turns) := by
  induction acts using List.reverseRecOn with
  | nil => exact ⟨[], opening_staffs jobs config memory⟩
  | append_singleton acts act ih =>
    obtain ⟨turns, staffs⟩ := ih
    obtain ⟨more, staffs⟩ :=
      act_staffs knows aggregate staffs (Workforce.play_staffed config turns) act
    refine ⟨turns ++ more, ?_⟩
    rw [play, List.foldl_append, Workforce.play, List.foldl_append]
    exact staffs

/-- However a host is kept busy, no more of its passes run together than it has permits. -/
theorem length_le_passes (knows : String → Bool)
    (aggregate : String → List Contribution → Except SyncError Aggregation) (config : HostConfig)
    (memory : Memory) (acts : List Act) {keys : List String} (distinct : keys.Nodup)
    (run : ∀ key ∈ keys, ∃ left,
      ((opening jobs config memory).play knows aggregate acts).workers key =
        some (.running left)) : keys.length ≤ config.passes := by
  obtain ⟨turns, -, crewed⟩ := play_staffs knows aggregate config memory acts
  have staffed := Workforce.play_staffed config turns
  generalize Workforce.play config turns = w at crewed staffed
  have hands : keys ⊆ (w.hands.filter (·.duty.isRunning)).map (·.key) := by
    intro key mem
    obtain ⟨left, runs⟩ := run key mem
    obtain ⟨i, duty, at_i, does⟩ := crewed.exists_hand runs
    cases does
    exact List.mem_map.mpr
      ⟨_, List.mem_filter.mpr ⟨List.mem_of_getElem? at_i, rfl⟩, rfl⟩
  calc keys.length ≤ ((w.hands.filter (·.duty.isRunning)).map (·.key)).length :=
        (List.subperm_of_subset distinct hands).length_le
    _ = w.hands.countP (·.duty.isRunning) := by
        rw [List.length_map, List.countP_eq_length_filter]
    _ ≤ config.passes := staffed.running_le

end Site

end Tributary
