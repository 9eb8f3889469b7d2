import Tributary.Proofs.Hosting
import Tributary.Proofs.Undisturbed

/-!
# No change is overlooked

A key is attended to at any time (`Site.Attended`): the host still owes it a look, or its worker
will leave its record as it should be, if nobody disturbs it. Whoever disturbs it makes the host
owe it another look. So a host that is at rest has left every record either synchronised or failed
as it is (`Site.settled_of_atRest`).
-/

namespace Tributary

open Host (triggersPass)

/-! ## What a pass leaves behind -/

namespace Exchange

/-- An event was published that starts a pass. -/
def announces (x : Exchange) : Bool := x.event?.any fun e => triggersPass e.change

theorem exists_of_announces {x : Exchange} (h : x.announces = true) :
    ∃ e, x.event? = some e ∧ triggersPass e.change = true := by
  unfold announces at h
  cases published : x.event? with
  | none => simp [published] at h
  | some e => exact ⟨e, rfl, by simpa [published] using h⟩

theorem exists_of_event {x : Exchange} {e : Event} (h : x.event? = some e) :
    ∃ c a, x = ⟨.store c, .ok a⟩ ∧ c.event? = some e := by
  unfold event? at h
  split at h
  · next c a =>
    cases a with
    | ok a => exact ⟨c, a, rfl, h⟩
    | error => cases h
  · cases h

end Exchange

/-- Whatever is stored needs no pass until it changes. -/
def Settled (aggregate : String → List Contribution → Except SyncError Aggregation)
    (v : Option Record) : Prop :=
  ∀ r, v = some r →
    (r.status.phase = .synced ∧ r.needsTeardown = false ∧
      ∃ a, aggregate r.resourceType r.sources = .ok a ∧ r.status.configHash = a.hash) ∨
    (r.status.phase = .failed ∧ r.generation ≤ r.status.observedGeneration)

theorem settled_none (aggregate : String → List Contribution → Except SyncError Aggregation) :
    Settled aggregate none := fun _ h => by cases h

namespace Pass

variable {aggregate : String → List Contribution → Except SyncError Aggregation}

/-- No change waits for quiet, and aggregation is a function. -/
def Steady (aggregate : String → List Contribution → Except SyncError Aggregation)
    (x : Exchange) : Prop :=
  (∀ key, x ≠ ⟨.coalescing key, true⟩) ∧
    ∀ type sources a, x = ⟨.aggregate type sources, a⟩ → a = aggregate type sources

/-- A pass has started another one, has to be tried again or has left nothing to do. -/
def Concludes (aggregate : String → List Contribution → Except SyncError Aggregation)
    (past : List Exchange) (result : Except SyncError Action) (v : Option Record) : Prop :=
  (∃ x ∈ past, x.announces = true) ∨ (∃ delay, result = .ok (.requeue delay)) ∨
    Settled aggregate v

theorem Rests.settled {r : Record} (h : Rests aggregate r) : Settled aggregate (some r) := by
  rintro _ ⟨⟩
  exact .inl ⟨h.synced, h.none, h.current⟩

theorem SetAside.settled {knows : Bool} {r : Record} {past : List Exchange} {v : Option Record}
    (h : SetAside knows r past v) (parked : Backoff.parked r = true) : Settled aggregate v := by
  have kept := parked_iff.1 parked
  cases h <;> (rintro _ ⟨⟩; exact .inr kept)

theorem Course.concludes {c : Circumstances} {r : Record} {past : List Exchange} {action : Action}
    {v : Option Record} (h : Course c r past action v)
    (steady : ¬c.answers ⟨.coalescing c.key, true⟩) :
    Concludes c.aggregate past (.ok action) v := by
  cases h with
  | mishap mishap =>
    cases mishap with
    | early => exact .inr (.inl ⟨_, rfl⟩)
    | busy busy => exact absurd busy steady
    | failed _ entered =>
      obtain ⟨delay, rfl⟩ | ⟨_, failed, seen⟩ := entered
      · exact .inr (.inl ⟨delay, rfl⟩)
      · refine .inr (.inr ?_)
        rintro _ ⟨⟩
        exact .inr ⟨failed, seen⟩
  | parked parked aside => exact .inr (.inr (aside.settled parked))
  | deleted => exact .inr (.inr (settled_none _))
  | cutBack _ _ _ _ edited =>
    obtain ⟨made, token, mem⟩ := edited
    exact .inl ⟨_, mem, rfl⟩
  | synchronised _ _ _ rests => exact .inr (.inr rests.settled)

end Pass

open Pass in
theorem Engine.reconcile_concludes (e : Engine) (key : String)
    (aggregate : String → List Contribution → Except SyncError Aggregation) (v : Option Record) :
    (e.reconcile key).Amid (undisturbed key (Steady aggregate)) (Concludes aggregate) [] v := by
  let c : Circumstances :=
    { engine := e, key, answers := Steady aggregate, aggregate
      functional := fun _ _ a steady => steady.2 _ _ a rfl }
  refine (reconcile_undisturbed c v).mono fun past result v' led => ?_
  obtain ⟨action, rfl, course⟩ := led
  obtain ⟨_, rfl, _⟩ | ⟨r, _, course⟩ := course
  · exact .inr (.inr (settled_none _))
  · exact course.concludes fun steady => steady.1 _ rfl

/-! ## What a request does to the records -/

theorem Serves.untouched {faulty : StoreError → Prop} {m m' : Memory} {x : Exchange}
    (serves : Serves faulty m x.request x.answer m') (sound : m.Sound) {key : String}
    (foreign : ∀ e, x.event? = some e → e.key ≠ key) :
    m'.records.get? key = m.records.get? key := by
  cases published : x.event? with
  | none =>
    refine congrArg (·.records.get? key) (serves.same ?_)
    obtain ⟨q, a⟩ := x
    cases q with
    | store c =>
      cases a with
      | ok a => exact (congrArg Option.isSome published : c.event?.isSome = false)
      | error => rfl
    | _ => rfl
  | some e =>
    obtain ⟨c, a, rfl, event⟩ := Exchange.exists_of_event published
    have other : key ≠ e.key := (foreign e published).symm
    have granted : m.Grants c a m' := Serves.granted serves
    clear serves foreign published
    cases granted with
    | get | list => rfl
    | create | update | delete =>
      cases event
      simp [other]
    | updateStatus found =>
      cases event
      rw [Memory.get?_put, Memory.key_statusUpdated, (sound _ _ found).1, if_neg other]

namespace Protocol

variable {p : Protocol} {past : List Exchange} {x : Exchange} {e : Event}

theorem key_of_event (allowed : p.Allows past x.request) (published : x.event? = some e) :
    e.key = p.key := by
  obtain ⟨c, a, rfl, event⟩ := Exchange.exists_of_event published
  cases c with
  | create r =>
    cases event
    exact allowed.1
  | update r | updateStatus r =>
    cases event
    obtain ⟨v, _, mine, same, _⟩ := allowed
    exact same.trans mine
  | delete r =>
    cases event
    exact allowed.2.1
  | get | list => cases event

end Protocol

/-- Only passes write the status. -/
theorem Job.triggers_of_event {j : Job} (outside : ∀ e key, j ≠ .reconcile e key)
    {past : List Exchange} {x : Exchange} {e : Event} (allowed : j.protocol.Allows past x.request)
    (published : x.event? = some e) : triggersPass e.change = true := by
  obtain ⟨c, a, rfl, event⟩ := Exchange.exists_of_event published
  cases c with
  | create | update | delete =>
    cases event
    rfl
  | updateStatus r =>
    obtain ⟨v, _, _, _, _, marks⟩ := allowed
    cases j with
    | reconcile e key => exact absurd rfl (outside e key)
    | register | unregister | requestDeletion => exact marks.elim
  | get | list => cases event

/-! ## What is kept -/

namespace Site

variable {jobs : Nat → Job} {s : Site jobs}
  {aggregate : String → List Contribution → Except SyncError Aggregation}

open Pass (undisturbed Steady Concludes)

/-- The worker of a key, or its absence, leaves the record as it should be, if nobody disturbs
it. -/
def Attends (aggregate : String → List Contribution → Except SyncError Aggregation) (key : String)
    (v : Option Record) : Option Worker → Prop
  | none | some .settled => Settled aggregate v
  | some .asking | some .waiting => True
  | some (.running left) => ∃ past, (∀ x ∈ past, x.announces = false) ∧
      left.Amid (undisturbed key (Steady aggregate)) (Concludes aggregate) past v
  | some (.returned outcome) => (∃ delay, outcome = .ok (.requeue delay)) ∨ Settled aggregate v

/-- A key that is looked at again, or need not be. -/
def Attended (aggregate : String → List Contribution → Except SyncError Aggregation)
    (s : Site jobs) (key : String) : Prop :=
  s.host.Owes key ∨ Attends aggregate key (s.memory.records.get? key) (s.workers key)

/-- A key that the first resync has still to find or to queue. -/
structure Missed (s : Site jobs) (key : String) : Prop where
  resynced : s.resynced = false
  unemployed : s.workers key = none
  sending : ∀ keys, s.sending = some keys → key ∈ keys

/-- What holds at any time. -/
structure Sound (aggregate : String → List Contribution → Except SyncError Aggregation)
    (s : Site jobs) : Prop where
  memory : s.memory.Sound
  callers : ∀ i, ∃ past ends, (s.callers i).Ensures (jobs i).protocol.Asks ends past
  passes : ∀ key left, s.workers key = some (.running left) →
    ∃ past ends, left.Ensures (Pass.protocol key).Asks ends past
  employed : ∀ key, (s.workers key).isSome = true →
    s.host.dispatcher.inFlight.contains key = true
  waiting : ∀ key ∈ s.host.dispatcher.waiting, s.workers key = some .waiting
  distinct : s.host.dispatcher.waiting.Nodup
  attended : ∀ key, s.Attended aggregate key ∨ s.Missed key

theorem sound_opening (config : HostConfig) {m : Memory} (h : m.Sound) :
    (opening jobs config m).Sound aggregate where
  memory := h
  callers i := ⟨_, _, (jobs i).ensures⟩
  passes _ _ running := by cases running
  employed _ some := by cases some
  waiting _ mem := by cases mem
  distinct := List.nodup_nil
  attended key := .inr ⟨rfl, rfl, fun _ sending => by cases sending⟩

/-- Whoever is doing something does not wait for a permit. -/
theorem Sound.ne_of_waiting (sound : s.Sound aggregate) {key : String}
    (busy : s.workers key ≠ some .waiting) : ∀ k ∈ s.host.dispatcher.waiting, k ≠ key := by
  rintro _ mem rfl
  exact busy (sound.waiting _ mem)

/-- Nobody misses a key that has a worker. -/
theorem Sound.attended_of_employed (sound : s.Sound aggregate) {key : String} {worker : Worker}
    (there : s.workers key = some worker) :
    s.host.Owes key ∨ Attends aggregate key (s.memory.records.get? key) (some worker) := by
  obtain attended | missed := sound.attended key
  · exact there ▸ attended
  · cases there.symm.trans missed.unemployed

/-- What the host does by itself leaves all that is owed owed. -/
theorem Sound.host (sound : s.Sound aggregate) {h : Host}
    (waiting : h.dispatcher.waiting = s.host.dispatcher.waiting)
    (contains : ∀ key, s.host.dispatcher.inFlight.contains key = true →
      h.dispatcher.inFlight.contains key = true)
    (owes : ∀ key, s.host.Owes key → h.Owes key) : Sound aggregate { s with host := h } where
  memory := sound.memory
  callers := sound.callers
  passes := sound.passes
  employed key some := contains key (sound.employed key some)
  waiting := waiting ▸ sound.waiting
  distinct := waiting ▸ sound.distinct
  attended key := (sound.attended key).imp (.imp_left (owes key)) fun missed =>
    ⟨missed.resynced, missed.unemployed, missed.sending⟩

/-- What the worker of a key does leaves other keys alone. -/
theorem Sound.employ (sound : s.Sound aggregate) {h : Host} {m : Memory} {key : String}
    {worker : Option Worker} (memory : m.Sound)
    (untouched : ∀ k, k ≠ key → m.records.get? k = s.memory.records.get? k)
    (owes : ∀ k, k ≠ key → s.host.Owes k → h.Owes k)
    (contains : ∀ k, k ≠ key → s.host.dispatcher.inFlight.contains k = true →
      h.dispatcher.inFlight.contains k = true)
    (employed : worker.isSome = true → h.dispatcher.inFlight.contains key = true)
    (waiting : ∀ k ∈ h.dispatcher.waiting, (k = key ∧ worker = some .waiting) ∨
      (k ≠ key ∧ k ∈ s.host.dispatcher.waiting))
    (distinct : h.dispatcher.waiting.Nodup)
    (passes : ∀ left, worker = some (.running left) →
      ∃ past ends, left.Ensures (Pass.protocol key).Asks ends past)
    (attended : h.Owes key ∨ Attends aggregate key (m.records.get? key) worker) :
    Sound aggregate ({ s with memory := m, host := h }.employ key worker) where
  memory := memory
  callers := sound.callers
  passes k left := by
    by_cases same : k = key
    · subst same
      simpa [Site.employ] using passes left
    · simpa [Site.employ, same] using sound.passes k left
  employed k some := by
    by_cases same : k = key
    · subst same
      exact employed (by simpa [Site.employ] using some)
    · exact contains k same (sound.employed k (by simpa [Site.employ, same] using some))
  waiting k mem := by
    obtain ⟨rfl, rfl⟩ | ⟨other, mem⟩ := waiting k mem
    · simp [Site.employ]
    · simpa [Site.employ, other] using sound.waiting k mem
  distinct := distinct
  attended k := by
    by_cases same : k = key
    · subst same
      exact .inl (attended.imp_right fun attends => by simpa [Site.employ] using attends)
    · have unchanged : ({ s with memory := m, host := h }.employ key worker).workers k =
          s.workers k := by simp [Site.employ, same]
      refine (sound.attended k).imp (fun attended => ?_) fun missed => ?_
      · refine attended.imp (owes k same) fun attends => ?_
        rw [unchanged]
        exact (untouched k same).symm ▸ attends
      · exact ⟨missed.resynced, unchanged.trans missed.unemployed, missed.sending⟩

/-! ## Callers -/

theorem Sound.call (sound : s.Sound aggregate) (outside : ∀ i e key, jobs i ≠ .reconcile e key)
    (i : Nat) (around : Surroundings) : (s.call i around).Sound aggregate := by
  unfold Site.call
  split
  · exact sound
  · next q next asks =>
    have serves := around.serves (fun _ => False) s.memory q
    generalize around.answer s.memory q = served at serves ⊢
    obtain ⟨a, m⟩ := served
    obtain ⟨past, ends, keeps⟩ := sound.callers i
    rw [asks] at keeps
    refine ⟨serves.sound sound.memory, fun j => ?_, sound.passes, sound.employed, sound.waiting,
      sound.distinct, fun key => ?_⟩
    · by_cases same : i = j
      · subst same
        simp only [dif_pos]
        exact ⟨_, ends, keeps.2 a (serves.honest sound.memory)⟩
      · simp only [same, dif_neg, not_false_eq_true]
        exact sound.callers j
    · by_cases own : ∃ e, Exchange.event? ⟨q, a⟩ = some e ∧ e.key = key
      · obtain ⟨e, published, rfl⟩ := own
        exact .inl (.inl (.of_publish published
          (Job.triggers_of_event (outside i) keeps.1.2 published)))
      · have untouched := Serves.untouched (x := ⟨q, a⟩) serves sound.memory
          fun e published same => own ⟨e, published, same⟩
        refine (sound.attended key).imp (.imp (·.publish _) fun attends => ?_) fun missed =>
          ⟨missed.resynced, missed.unemployed, missed.sending⟩
        exact untouched.symm ▸ attends

/-! ## The host -/

theorem Sound.resync (sound : s.Sound aggregate) : s.resync.Sound aggregate := by
  unfold Site.resync
  split
  · next none =>
    refine { sound with attended := fun key => ?_ }
    by_cases listed : key ∈ s.memory.records.keys
    · refine (sound.attended key).imp_right fun missed => ⟨missed.resynced, missed.unemployed, ?_⟩
      rintro _ ⟨⟩
      exact listed
    · refine .inl ((sound.attended key).elim id fun missed => .inr ?_)
      rw [missed.unemployed, Table.get?_eq_none_of_not_mem listed]
      exact settled_none _
  · next first rest sending =>
    refine { sound.host (h := s.host.enqueue [first]) rfl (fun _ => id)
      (fun _ owes => owes.enqueue _) with
      attended := fun key => ?_ }
    obtain attended | missed := sound.attended key
    · exact .inl (attended.imp_left (·.enqueue _))
    · by_cases same : key = first
      · exact .inl (.inl (.of_enqueue (by simp [same])))
      · refine .inr ⟨missed.resynced, missed.unemployed, ?_⟩
        rintro _ ⟨⟩
        simpa [same] using missed.sending _ sending
  · next sending =>
    refine { sound with attended := fun key => ?_ }
    obtain attended | missed := sound.attended key
    · exact .inl attended
    · cases missed.sending _ sending

theorem Sound.dispatch (sound : s.Sound aggregate) : s.dispatch.Sound aggregate := by
  have waiting := s.host.waiting_dispatch
  have contains := s.host.contains_dispatch
  have owes (key : String) (owes : s.host.Owes key) := owes.dispatch
  have started := s.host.fresh_dispatch
  unfold Site.dispatch
  generalize s.host.dispatch = dispatched at *
  obtain ⟨h, fresh⟩ := dispatched
  dsimp only at waiting contains owes started ⊢
  cases fresh with
  | none =>
    exact sound.host waiting contains fun key old =>
      (owes key old).resolve_right fun none => by cases none
  | some key =>
    obtain ⟨unemployed, employed⟩ := started key rfl
    dsimp only
    refine sound.employ sound.memory (fun _ _ => rfl) (fun k other old => ?_)
      (fun k _ => contains k) (fun _ => employed) (fun k mem => .inr ?_) (waiting ▸ sound.distinct)
      (fun _ running => by cases running) (.inr trivial)
    · exact (owes k old).resolve_right fun same => other (Option.some.inj same).symm
    · have mem : k ∈ s.host.dispatcher.waiting := waiting ▸ mem
      refine ⟨?_, mem⟩
      rintro rfl
      have := sound.employed k (by rw [sound.waiting k mem]; rfl)
      cases unemployed.symm.trans this

/-! ## Workers -/

variable {knows : String → Bool} {key : String}

/-- A worker that is permitted to begin a pass. -/
theorem Sound.begin (sound : s.Sound aggregate) (h : Host)
    (owes : ∀ k, k ≠ key → s.host.Owes k → h.Owes k)
    (contains : ∀ k, s.host.dispatcher.inFlight.contains k = true →
      h.dispatcher.inFlight.contains k = true)
    (there : (s.workers key).isSome = true)
    (waiting : ∀ k ∈ h.dispatcher.waiting, k ≠ key ∧ k ∈ s.host.dispatcher.waiting)
    (distinct : h.dispatcher.waiting.Nodup) :
    (begin knows { s with host := h } key).Sound aggregate := by
  refine sound.employ sound.memory (fun _ _ => rfl) owes (fun k _ => contains k)
    (fun _ => contains key (sound.employed key there)) (fun k mem => .inr (waiting k mem)) distinct
    ?_ (.inr ⟨[], fun _ none => (by cases none), Engine.reconcile_concludes _ _ _ _⟩)
  rintro _ ⟨⟩
  exact ⟨[], _, Engine.reconcile_ensures _ _⟩

theorem Sound.acquire (sound : s.Sound aggregate) (asking : s.workers key = some .asking) :
    (s.acquire knows key).Sound aggregate := by
  have there : (s.workers key).isSome = true := by rw [asking]; rfl
  have other : ∀ k ∈ s.host.dispatcher.waiting, k ≠ key :=
    sound.ne_of_waiting (by simp [asking])
  cases free : s.host.dispatcher.free with
  | zero =>
    simp only [Site.acquire, Dispatcher.acquire, free, Bool.false_eq_true, if_false]
    refine sound.employ sound.memory (fun _ _ => rfl) (fun _ _ owes => owes.dispatcher id)
      (fun _ _ => id) (fun _ => sound.employed key there) (fun k mem => ?_) ?_
      (fun _ running => by cases running) (.inr trivial)
    · obtain mem | mem := List.mem_append.1 mem
      · exact .inr ⟨other k mem, mem⟩
      · exact .inl ⟨List.mem_singleton.1 mem, rfl⟩
    · refine List.nodup_append.2 ⟨sound.distinct, by simp, fun k mem k' mem' => ?_⟩
      rw [List.mem_singleton.1 mem']
      exact other k mem
  | succ n =>
    simp only [Site.acquire, Dispatcher.acquire, free, if_true]
    exact sound.begin _ (fun _ _ owes => owes.dispatcher id) (fun _ => id) there
      (fun k mem => ⟨other k mem, mem⟩) sound.distinct

variable (aggregate) in
theorem answer_serves (s : Site jobs) (around : Surroundings) (q : Request) :
    Serves (fun _ => False) s.memory q (s.answer aggregate around q).1
      (s.answer aggregate around q).2 := by
  cases q with
  | store c => exact .inl ⟨_, rfl⟩
  | _ => rfl

variable (aggregate) in
/-- A pass goes on as if no change waited for quiet, or one does. -/
theorem answer_steady (s : Site jobs) (around : Surroundings) (q : Request) :
    Steady aggregate ⟨q, (s.answer aggregate around q).1⟩ ∨
      ∃ k, q = .coalescing k ∧ s.host.intake.isPending k = true := by
  cases q with
  | coalescing k =>
    by_cases pending : s.host.intake.isPending k = true
    · exact .inr ⟨k, rfl, pending⟩
    · refine .inl ⟨fun k' same => ?_, fun _ _ _ same => by cases same⟩
      injection same with asked answered
      exact pending answered
  | aggregate type sources =>
    refine .inl ⟨fun _ same => (by cases same), ?_⟩
    rintro _ _ _ ⟨⟩
    rfl
  | _ => exact .inl ⟨fun _ same => (by cases same), fun _ _ _ same => by cases same⟩

theorem eq_key_of_coalescing {k : String} {past : List Exchange}
    {next : Bool → Program (Except SyncError Action)} (sound : s.memory.Sound)
    (amid : Program.Amid (undisturbed key (Steady aggregate)) (Concludes aggregate)
      (.ask (.coalescing k) next) past (s.memory.records.get? key)) : k = key := by
  have steady : Steady aggregate ⟨.coalescing k, false⟩ :=
    ⟨fun _ same => (by cases same), fun _ _ _ same => by cases same⟩
  exact (amid _ false _ rfl steady ⟨s.memory, s.memory, sound, rfl, rfl, rfl⟩).1

/-- A pass makes its next request. -/
theorem Sound.ask (sound : s.Sound aggregate) {q : Request}
    {next : q.Answer → Program (Except SyncError Action)}
    (running : s.workers key = some (.running (.ask q next))) (around : Surroundings) :
    Sound aggregate
      ({ s with
          memory := (s.answer aggregate around q).2
          host := s.host.publish ⟨q, (s.answer aggregate around q).1⟩ }.employ key
        (some (.running (next (s.answer aggregate around q).1)))) := by
  have serves := answer_serves aggregate s around q
  have steady := answer_steady aggregate s around q
  generalize s.answer aggregate around q = served at serves steady ⊢
  obtain ⟨a, m⟩ := served
  dsimp only at serves steady ⊢
  obtain ⟨past, ends, keeps⟩ := sound.passes key _ running
  have own (e : Event) (published : Exchange.event? ⟨q, a⟩ = some e) : e.key = key :=
    Protocol.key_of_event (x := ⟨q, a⟩) keeps.1.2 published
  refine sound.employ (serves.sound sound.memory) (fun k other => ?_)
    (fun _ _ owes => owes.publish _) (fun _ _ => id)
    (fun _ => sound.employed key (by rw [running]; rfl))
    (fun k mem => .inr ⟨sound.ne_of_waiting (by simp [running]) k mem, mem⟩)
    sound.distinct ?_ ?_
  · refine Serves.untouched (x := ⟨q, a⟩) serves sound.memory fun e published same => ?_
    exact other (same.symm.trans (own e published))
  · rintro _ ⟨⟩
    exact ⟨_, ends, keeps.2 a (serves.honest sound.memory)⟩
  · obtain owes | ⟨past, quiet, amid⟩ := sound.attended_of_employed running
    · exact .inl (owes.publish _)
    · cases announced : Exchange.announces ⟨q, a⟩ with
      | true =>
        obtain ⟨e, published, triggers⟩ := Exchange.exists_of_announces announced
        obtain rfl := own e published
        exact .inl (.of_publish published triggers)
      | false =>
        obtain steady | ⟨k, rfl, pending⟩ := steady
        · refine .inr ⟨⟨q, a⟩ :: past, ?_, ?_⟩
          · rintro x (_ | ⟨_, mem⟩)
            · exact announced
            · exact quiet x mem
          · exact (amid _ a _ rfl steady ⟨s.memory, m, sound.memory, rfl, serves, rfl⟩).2
        · obtain rfl := eq_key_of_coalescing sound.memory amid
          exact .inl (Host.Owes.publish (.intake pending) _)

/-- A pass has ended. -/
theorem Sound.finish (sound : s.Sound aggregate) {outcome : Except SyncError Action}
    (running : s.workers key = some (.running (.done outcome))) :
    (s.finish knows key outcome).Sound aggregate := by
  have there : (s.workers key).isSome = true := by rw [running]; rfl
  have attended : s.host.Owes key ∨
      Attends aggregate key (s.memory.records.get? key) (some (.returned outcome)) := by
    refine (sound.attended_of_employed running).imp_right fun attends => ?_
    obtain ⟨past, quiet, ⟨x, mem, announced⟩ | concluded⟩ := attends
    · cases announced.symm.trans (quiet x mem)
    · exact concluded
  -- First the permit is given back, then it goes to whoever has waited longest.
  have returned {d : Dispatcher} (same : d.inFlight = s.host.dispatcher.inFlight)
      (waiting : d.waiting.Sublist s.host.dispatcher.waiting) :
      Sound aggregate ({ s with host := { s.host with dispatcher := d } }.employ key
        (some (.returned outcome))) := by
    refine sound.employ sound.memory (fun _ _ => rfl) (fun _ _ owes => owes.dispatcher (same ▸ id))
      (fun _ _ => same ▸ id) (fun _ => same ▸ sound.employed key there)
      (fun k mem => .inr ⟨?_, waiting.subset mem⟩) (sound.distinct.sublist waiting)
      (fun _ running => by cases running)
      (attended.imp_left fun owes => owes.dispatcher (same ▸ id))
    exact sound.ne_of_waiting (by simp [running]) k (waiting.subset mem)
  cases waiting : s.host.dispatcher.waiting with
  | nil =>
    simp only [Site.finish, Dispatcher.giveBack, waiting]
    exact returned rfl (waiting ▸ .refl _)
  | cons other rest =>
    simp only [Site.finish, Dispatcher.giveBack, waiting]
    have sound' := returned (d := { s.host.dispatcher with waiting := rest }) rfl
      (waiting ▸ List.sublist_cons_self other rest)
    have waits := sound.waiting other (waiting ▸ List.mem_cons_self)
    have distinct := List.nodup_cons.1 (waiting ▸ sound.distinct)
    refine sound'.begin _ (fun _ _ => id) (fun _ => id) ?_ (fun k mem => ⟨?_, mem⟩) distinct.2
    · by_cases same : other = key
      · simp [Site.employ, same]
      · simp [Site.employ, same, waits]
    · rintro rfl
      exact distinct.1 mem

theorem Sound.settle (sound : s.Sound aggregate) {outcome : Except SyncError Action}
    (returned : s.workers key = some (.returned outcome)) :
    Sound aggregate
      ({ s with host := (s.host.settle key outcome).1 }.employ key (some .settled)) := by
  have same := s.host.dispatcher_settle key outcome
  refine sound.employ sound.memory (fun _ _ => rfl) (fun _ _ owes => owes.settle _ _)
    (fun _ _ => same ▸ id) (fun _ => same ▸ sound.employed key (by rw [returned]; rfl))
    (fun k mem => .inr ⟨?_, same ▸ mem⟩) (same ▸ sound.distinct)
    (fun _ running => by cases running) ?_
  · exact sound.ne_of_waiting (by simp [returned]) k (same ▸ mem)
  · obtain owes | ⟨delay, rfl⟩ | settled := sound.attended_of_employed returned
    · exact .inl (owes.settle _ _)
    · exact .inl (.of_settle delay)
    · exact .inr settled

theorem Sound.goOn (sound : s.Sound aggregate) (settled : s.workers key = some .settled) :
    (s.goOn key).Sound aggregate := by
  have waiting (k : String) (mem : k ∈ s.host.dispatcher.waiting) :
      k ≠ key ∧ k ∈ s.host.dispatcher.waiting :=
    ⟨sound.ne_of_waiting (by simp [settled]) k mem, mem⟩
  by_cases dirty : s.host.dispatcher.inFlight.get? key = some true
  · simp only [Site.goOn, Dispatcher.again, dirty, if_true]
    refine sound.employ sound.memory (fun _ _ => rfl)
      (fun k other owes => owes.dispatcher (by simp [other]))
      (fun k other => by simp [Table.contains, other]) (fun _ => by simp [Table.contains])
      (fun k mem => .inr (waiting k mem)) sound.distinct (fun _ running => by cases running)
      (.inr trivial)
  · simp only [Site.goOn, Dispatcher.again, dirty, if_false]
    refine sound.employ sound.memory (fun _ _ => rfl)
      (fun k other owes => owes.dispatcher (by simp [other]))
      (fun k other => by simp [Table.contains, other]) (fun some => by cases some)
      (fun k mem => .inr (waiting k mem)) sound.distinct (fun _ running => by cases running) ?_
    exact (sound.attended_of_employed settled).imp_left fun owes =>
      owes.dispatcher fun marked => absurd marked dirty

theorem Sound.work (sound : s.Sound aggregate) (key : String) (around : Surroundings) :
    (s.work knows aggregate key around).Sound aggregate := by
  unfold Site.work
  split
  · exact sound
  · exact sound
  · next asking => exact sound.acquire asking
  · next running => exact sound.ask running around
  · next running => exact sound.finish running
  · next returned => exact sound.settle returned
  · next settled => exact sound.goOn settled

/-! ## Runs -/

theorem Sound.act (sound : s.Sound aggregate) (outside : ∀ i e key, jobs i ≠ .reconcile e key)
    (a : Act) : (s.act knows aggregate a).Sound aggregate := by
  cases a with
  | call i around => exact sound.call outside i around
  | takeEvent => exact sound.host (by simp) (by simp) fun _ owes => owes.takeEvent
  | ringIntake key number =>
    exact sound.host (by simp) (by simp) fun _ owes => owes.intakeRings key number
  | ringRequeue key number =>
    exact sound.host (by simp) (by simp) fun _ owes => owes.requeueRings key number
  | resync => exact sound.resync
  | dispatch => exact sound.dispatch
  | work key around => exact sound.work key around

theorem Sound.play (sound : s.Sound aggregate) (outside : ∀ i e key, jobs i ≠ .reconcile e key)
    (acts : List Act) : (s.play knows aggregate acts).Sound aggregate := by
  induction acts generalizing s with
  | nil => exact sound
  | cons a acts ih => exact ih (sound.act outside a)

theorem not_owes_of_atRest (rest : s.atRest = true) (key : String) : ¬s.host.Owes key := by
  simp only [atRest, Bool.and_eq_true, decide_eq_true_eq, List.isEmpty_iff] at rest
  obtain ⟨⟨⟨⟨⟨undelivered, intake⟩, requeue⟩, queue⟩, idle⟩, _⟩ := rest
  intro owes
  cases owes with
  | event published =>
    rw [undelivered] at published
    cases published
  | intake waits => cases waits.symm.trans (Debouncer.not_isPending intake key)
  | requeue waits => cases waits.symm.trans (Debouncer.not_isPending requeue key)
  | queued queued =>
    rw [queue] at queued
    cases queued
  | dirty dirty => cases dirty.symm.trans (Table.get?_of_isEmpty idle key)

theorem resynced_of_atRest (rest : s.atRest = true) : s.resynced = true := by
  simp only [atRest, Bool.and_eq_true] at rest
  exact rest.2

theorem unemployed_of_atRest (sound : s.Sound aggregate) (rest : s.atRest = true) (key : String) :
    s.workers key = none := by
  simp only [atRest, Bool.and_eq_true] at rest
  cases worker : s.workers key with
  | none => rfl
  | some _ =>
    have employed := sound.employed key (by rw [worker]; rfl)
    simp [Table.contains, Table.get?_of_isEmpty rest.1.2] at employed

/-- Whatever is stored when the host is at rest is synchronised with what its contributions ask
for, or it has failed and not changed since. -/
theorem settled_of_atRest (outside : ∀ i e key, jobs i ≠ .reconcile e key) (config : HostConfig)
    {m : Memory} (sound : m.Sound) (knows : String → Bool)
    (aggregate : String → List Contribution → Except SyncError Aggregation) (acts : List Act)
    (rest : ((opening jobs config m).play knows aggregate acts).atRest = true) {key : String}
    {r : Record}
    (found : ((opening jobs config m).play knows aggregate acts).memory.records.get? key = some r) :
    (r.status.phase = .synced ∧ r.needsTeardown = false ∧
      ∃ a, aggregate r.resourceType r.sources = .ok a ∧ r.status.configHash = a.hash) ∨
    (r.status.phase = .failed ∧ r.generation ≤ r.status.observedGeneration) := by
  have kept : Sound aggregate ((opening jobs config m).play knows aggregate acts) :=
    (sound_opening config sound).play outside acts
  generalize (opening jobs config m).play knows aggregate acts = s at rest found kept
  have attends := (kept.attended key).elim (·.resolve_left (not_owes_of_atRest rest key))
    fun missed => by cases missed.resynced.symm.trans (resynced_of_atRest rest)
  rw [unemployed_of_atRest kept rest key] at attends
  exact attends r found

/-- `a` and `b` register, and `b` leaves again. -/
def comers : Nat → Job := Job.roster [.joins "a", .joins "b", .leaves "b"]

/-- A host takes in what has happened to the key `r`, and its worker goes on for so long. -/
def bustle (moves : Nat) : List Act :=
  List.replicate 4 .takeEvent ++ (List.range 8).map (.ringIntake "r") ++
    List.replicate 2 .dispatch ++ List.replicate moves (.work "r" {})

/-- `b` comes when the host has looked at what `a` asks for, and leaves in the middle of a pass. -/
def season : List Act :=
  List.replicate 2 .resync ++ List.replicate 3 (.call 0 {}) ++ bustle 30 ++
    List.replicate 3 (.call 1 {}) ++ bustle 5 ++ List.replicate 3 (.call 2 {}) ++ bustle 30 ++
    bustle 30 ++ bustle 30

/-- What comes of it, if an aggregation lists the contributors. -/
def afterSeason : Site comers :=
  (opening comers {} {}).play (fun _ => true)
    (fun _ sources => .ok ⟨.null, sources.length, sources.map (·.owner)⟩) season

/-- When the host is at rest again, what `a` asks for is downstream. -/
theorem season_settled : afterSeason.atRest = true ∧
    ∃ r, afterSeason.memory.records.get? "r" = some r ∧ r.sources.map (·.owner.name) = ["a"] ∧
      r.status.phase = .synced ∧ r.needsTeardown = false := by
  have rest : afterSeason.atRest = true := by decide +kernel
  have found : (afterSeason.memory.records.get? "r").map (fun r =>
      (r.status.phase, r.sources.map (·.owner.name))) = some (.synced, ["a"]) := by decide +kernel
  obtain ⟨r, found, same⟩ := Option.map_eq_some_iff.1 found
  obtain ⟨synced, sources⟩ := Prod.mk.inj same
  have outside (i : Nat) (e : Engine) (key : String) : comers i ≠ .reconcile e key := by
    obtain _ | _ | _ | _ := i <;> exact fun same => by cases same
  unfold afterSeason at rest found ⊢
  obtain ⟨_, none, _⟩ | ⟨failed, _⟩ :=
    settled_of_atRest outside {} Memory.sound_empty _ _ season rest found
  · exact ⟨rest, r, found, sources, synced, none⟩
  · cases synced.symm.trans failed

end Site

end Tributary
