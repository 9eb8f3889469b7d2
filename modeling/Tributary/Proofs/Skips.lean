import Tributary.Proofs.Scene
import Tributary.Proofs.Vouching

/-!
# Skipping what is downstream

A pass that finds a record synchronised and its hash unchanged calls nothing. The last attempt
was then a call for a configuration of that very hash, and it was taken, unless nothing was found
to be cut back (`Run.skipped_vouched`). In the latter case the hash that is entered was never
taken by the downstream (`loss_skipped`).
-/

namespace Tributary

open Exchange (isMissing)
open Pass (among Aggregating Rested)

/-- What the passes over a record have done. -/
def passLog (jobs : Nat → Job) (key : String) (history : List Move) : List Exchange :=
  (history.filter fun mv => (jobs mv.member).passes key).map (·.exchange)

/-- Whose pass over a record has moved last. -/
def latestPass (jobs : Nat → Job) (key : String) (history : List Move) : Option Nat :=
  (history.find? fun mv => (jobs mv.member).passes key).map (·.member)

section

variable {jobs : Nat → Job} {key : String} (mv : Move)

theorem passLog_cons (pass : (jobs mv.member).passes key = true) (history : List Move) :
    passLog jobs key (mv :: history) = mv.exchange :: passLog jobs key history := by
  simp [passLog, pass]

theorem passLog_cons_of_not (other : (jobs mv.member).passes key = false) (history : List Move) :
    passLog jobs key (mv :: history) = passLog jobs key history := by
  simp [passLog, other]

theorem latestPass_cons (pass : (jobs mv.member).passes key = true) (history : List Move) :
    latestPass jobs key (mv :: history) = some mv.member := by
  simp [latestPass, pass]

theorem latestPass_cons_of_not (other : (jobs mv.member).passes key = false)
    (history : List Move) : latestPass jobs key (mv :: history) = latestPass jobs key history := by
  simp [latestPass, other]

theorem passes_of_latestPass {history : List Move} {i : Nat}
    (latest : latestPass jobs key history = some i) : (jobs i).passes key = true := by
  obtain ⟨mv, found, rfl⟩ := Option.map_eq_some_iff.1 latest
  simpa using List.find?_some found

/-- What is not a pass leaves the last pass where it was. -/
theorem latestPass_of_not {history : List Move} {i : Nat}
    (other : (jobs mv.member).passes key = false)
    (latest : latestPass jobs key (mv :: history) = some i) :
    latestPass jobs key history = some i ∧ own i (mv :: history) = own i history := by
  rw [latestPass_cons_of_not mv other] at latest
  refine ⟨latest, own_cons_of_ne (fun same => ?_) history⟩
  rw [same, passes_of_latestPass latest] at other
  cases other

end

theorem OnePassAtATime.tail {jobs : Nat → Job} {key : String} {mv : Move} {history : List Move}
    (alone : OnePassAtATime jobs key (mv :: history)) : OnePassAtATime jobs key history := by
  rintro later last between first earlier rfl
  exact alone (mv :: later) last between first earlier rfl

/-- A pass that moves is either the one that has moved last or has not moved before. -/
theorem OnePassAtATime.own_eq_nil {jobs : Nat → Job} {key : String} {mv : Move}
    {history : List Move} (alone : OnePassAtATime jobs key (mv :: history))
    (pass : (jobs mv.member).passes key = true)
    (other : latestPass jobs key history ≠ some mv.member) : own mv.member history = [] := by
  cases moved : own mv.member history with
  | nil => rfl
  | cons x past =>
    have split : own mv.member history = [] ++ x :: past := moved
    obtain ⟨between, first, earlier, rfl, mine, _, none, _⟩ := exists_of_own split
    have quiet (y : Move) (hy : y ∈ between) : ¬ (jobs y.member).passes key = true := by
      intro passes
      have same :=
        (alone [] _ between first earlier rfl mine.symm (mine ▸ pass) y hy passes).trans mine
      have : y.exchange ∈ own mv.member between :=
        List.mem_map.2 ⟨y, List.mem_filter.2 ⟨hy, by simpa using same⟩, rfl⟩
      rw [none] at this
      cases this
    refine absurd ?_ other
    have found : (between ++ first :: earlier).find? (fun mv => (jobs mv.member).passes key) =
        some first := by
      rw [List.find?_append, List.find?_eq_none.2 quiet]
      simp [mine, pass]
    rw [latestPass, found]
    exact congrArg some mine

/-- What is left of a program is determined by what it has done. -/
theorem Program.Leaves.unique {α : Type} {p rest rest' : Program α} {past : List Exchange}
    (l : p.Leaves past rest) (l' : p.Leaves past rest') : rest = rest' := by
  induction l generalizing rest' with
  | start => cases l'; rfl
  | step h a ih =>
    cases l' with
    | step h' =>
      cases ih h'
      rfl

theorem upsert_ne_nil (source : Contribution) (sources : List Contribution) :
    upsert source sources ≠ [] := by
  cases sources with
  | nil => simp [upsert]
  | cons s rest =>
    unfold upsert
    split <;> simp

namespace Job

variable {j : Job} {past : List Exchange} {v w : Option Record} {key : String}

/-- What holds when a job has ended with an aggregation. -/
def Stops : (j : Job) → List Exchange → j.Result → Option Record → Prop
  | .reconcile .., past, result, v =>
    result = .ok .done → Aggregating past → ∃ copy, Rested past copy v
  | .register .., _, _, _ | .unregister .., _, _, _ | .requestDeletion .., _, _, _ => True

/-- A pass that ends with nothing left to do. -/
def Finishes : (j : Job) → j.Result → Prop
  | .reconcile .., result => result = .ok .done
  | .register .., _ | .unregister .., _ | .requestDeletion .., _ => False

theorem rested_of_stops {result : j.Result} (h : j.Stops past result v)
    (finishes : j.Finishes result) (aggregating : Aggregating past) :
    ∃ copy, Rested past copy v := by
  cases j with
  | reconcile e k => exact h finishes aggregating
  | register | unregister | requestDeletion => exact finishes.elim

theorem stops_of_others {result : j.Result} (h : j.Stops past result v) (others : Others v w) :
    j.Stops past result w := by
  cases j with
  | reconcile e k =>
    intro done aggregating
    obtain ⟨copy, rested⟩ := h done aggregating
    obtain ⟨u, rfl, grows⟩ := rested.stored
    cases others with
    | grown grows' => exact ⟨copy, { rested with stored := ⟨_, rfl, grows.trans grows'⟩ }⟩
  | register | unregister | requestDeletion => trivial

theorem grows_of_edits {v r : Record} {token : Nat} (other : j.passes key = false)
    (mine : j.protocol.key = key) (edits : j.protocol.edits past v r) (newer : v.token < token)
    (now : Instant) : v.GrowsInto (r.updated v token now) := by
  have follows := edits_follow edits
  have grows (hkey : r.key = v.key) (externalId : r.externalId = v.externalId)
      (guard : r.pendingTeardown = v.pendingTeardown)
      (emptied : r.sources = [] → v.sources = [] ∨ r.teardownRequested = true)
      (teardown : v.teardownRequested = true → r.teardownRequested = true)
      (deletion : v.deletionRequested = true → r.deletionRequested = true) :
      v.GrowsInto (r.updated v token now) :=
    { key := hkey
      status := rfl
      externalId := externalId
      guard := guard
      older := follows.le
      sources := fun same => by
        cases follows with
        | same agrees => exact agrees.sources
        | raised next => exact absurd (same.symm.trans next) (by omega)
      emptied := emptied
      teardown := teardown
      deletion := deletion
      token := Nat.le_of_lt newer
      same := fun carried => absurd carried (Nat.ne_of_gt newer) }
  cases j with
  | register policy k template source =>
    obtain rfl : r = Registry.contribute source v := edits
    unfold Registry.contribute at grows ⊢
    split at grows
    · next lacks =>
      rw [if_pos lacks]
      exact grows rfl rfl rfl (fun empty => absurd empty (upsert_ne_nil _ _)) id id
    · next present =>
      rw [if_neg present]
      exact grows rfl rfl rfl .inl id id
  | unregister policy k owner =>
    obtain rfl : r = (Registry.withdraw owner v).1 := edits
    unfold Registry.withdraw at grows ⊢
    split at grows
    · next present =>
      rw [if_pos present]
      exact grows rfl rfl rfl (fun _ => .inr rfl) (fun _ => rfl) id
    · next absent =>
      rw [if_neg absent]
      exact grows rfl rfl rfl .inl id id
  | requestDeletion policy k =>
    obtain rfl : r = Registry.condemn v := edits
    exact grows rfl rfl rfl .inl id fun _ => rfl
  | reconcile e k => exact absurd mine (of_decide_eq_false other)

theorem amid {faulty : StoreError → Prop} (pass : j.passes key = true)
    (accounted : Accounted (lastAttempt past) v) :
    j.program.Amid (among faulty key) j.Stops past v := by
  cases j with
  | reconcile e k =>
    obtain rfl : k = key := of_decide_eq_true pass
    exact e.reconcile_amid accounted
  | register | unregister | requestDeletion => cases pass

end Job

namespace Run

variable {faulty : StoreError → Prop} {jobs : Nat → Job} {start m : Memory}
  {history earlier : List Move} {mv : Move} {key : String}

theorem turns (run : Run faulty (Job.crew jobs) start (mv :: earlier) m) (h : start.Sound)
    (key : String) : Turns faulty key (mv.before.records.get? key) mv.exchange
      (mv.after.records.get? key) :=
  have ⟨before, serves, _⟩ := run.last
  ⟨mv.before, mv.after, before.sound h, rfl, serves, rfl⟩

/-- What is not a pass leaves the record to itself, or registers or withdraws something. -/
theorem others (run : Run faulty (Job.crew jobs) start (mv :: earlier) m) (h : start.Sound)
    (other : (jobs mv.member).passes key = false) :
    Others (mv.before.records.get? key) (mv.after.records.get? key) := by
  have committed := run.committed h key
  have turns := run.turns h key
  generalize mv.exchange = x, mv.before.records.get? key = v, mv.after.records.get? key = w,
    own mv.member earlier = past, jobs mv.member = j at *
  have foreign (mine : j.protocol.key = key) : ∀ e, j ≠ .reconcile e key := by
    rintro e rfl
    simp [Job.passes] at other
  cases committed with
  | kept none v => exact .refl v
  | created token mine hkey creates =>
    cases j with
    | register =>
      obtain ⟨now, rfl⟩ := creates
      exact .created rfl fun synced => by cases synced
    | unregister | requestDeletion | reconcile => exact creates.elim
  | @edited v r token now mine hkey read edits =>
    have turns : Turns faulty key (some v) (Update.written .spec r (.ok token)) _ := turns
    obtain ⟨_, _, ⟨⟩, _, _, newer, _⟩ := turns.wrote hkey
    exact .grown (Job.grows_of_edits other mine edits newer now)
  | marked token mine hkey read marks =>
    cases j with
    | reconcile e k => exact absurd (congrArg (Job.reconcile e) mine) (foreign mine e)
    | register | unregister | requestDeletion => exact marks.elim
  | deleted mine hkey read deletes =>
    cases j with
    | reconcile e k => exact absurd (congrArg (Job.reconcile e) mine) (foreign mine e)
    | register | unregister | requestDeletion => exact deletes.elim

/-- Every record is accounted for, and the pass that has moved last goes on as it should. -/
theorem accounted (run : Run faulty (Job.crew jobs) start history m) (h : start.Sound)
    (alone : OnePassAtATime jobs key history)
    (first : Accounted none (start.records.get? key)) :
    Accounted (lastAttempt (passLog jobs key history)) (m.records.get? key) ∧
      ∀ i rest, latestPass jobs key history = some i →
        ((Job.crew jobs).program i).Leaves (own i history) rest →
          (∃ base, passLog jobs key history = own i history ++ base) ∧
            rest.Amid (among faulty key) (jobs i).Stops (passLog jobs key history)
              (m.records.get? key) := by
  induction run with
  | start => exact ⟨first, fun _ _ latest => by cases latest⟩
  | @move past m m' run i q next a left serves ih =>
    obtain ⟨accounted, goesOn⟩ := ih alone.tail
    have whole : Run faulty (Job.crew jobs) start (⟨i, ⟨q, a⟩, m, m'⟩ :: past) m' :=
      run.move i left serves
    cases pass : (jobs i).passes key with
    | false =>
      have others := whole.others h pass
      rw [passLog_cons_of_not ⟨i, ⟨q, a⟩, m, m'⟩ pass]
      refine ⟨accounted.others others, fun j rest latest left => ?_⟩
      obtain ⟨latest, same⟩ := latestPass_of_not _ pass latest
      rw [same] at left ⊢
      obtain ⟨base, amid⟩ := goesOn j rest latest left
      exact ⟨base, amid.others (fun others' => others.trans others')
        fun past result stops => Job.stops_of_others stops others⟩
    | true =>
      have before : (∃ base, passLog jobs key past = own i past ++ base) ∧
          (Program.ask q next).Amid (among faulty key) (jobs i).Stops (passLog jobs key past)
            (m.records.get? key) := by
        by_cases latest : latestPass jobs key past = some i
        · exact goesOn i _ latest left
        · have fresh := alone.own_eq_nil pass latest
          rw [fresh] at left
          have same := left.unique .start
          rw [same, fresh]
          exact ⟨⟨_, rfl⟩, Job.amid pass accounted⟩
      obtain ⟨⟨base, split⟩, amid⟩ := before
      obtain ⟨kept, amid⟩ := amid _ a _ (.refl _) trivial (whole.turns h key)
      rw [passLog_cons ⟨i, ⟨q, a⟩, m, m'⟩ pass,
        latestPass_cons ⟨i, ⟨q, a⟩, m, m'⟩ pass]
      refine ⟨kept, ?_⟩
      rintro j rest ⟨⟩ left'
      rw [own_cons_self ⟨i, ⟨q, a⟩, m, m'⟩ past] at left' ⊢
      obtain rfl := (left.step a).unique left'
      exact ⟨⟨base, by rw [split]; rfl⟩, amid⟩

end Run

theorem lastRead_append_of_some {since : List Exchange} {v : Record}
    (read : lastRead since = some v) (base : List Exchange) :
    lastRead (since ++ base) = some v := by
  rw [lastRead, List.findSome?_append]
  exact congrArg (·.or (lastRead base)) read

/-- If a pass has nothing to do for a hash, the last attempt was a call for a configuration of
that hash, and the downstream has taken it, unless it has found nothing. -/
theorem Run.skipped_vouched {faulty : StoreError → Prop} {jobs : Nat → Job} {start m : Memory}
    {earlier : List Move} {mv : Move} (run : Run faulty (Job.crew jobs) start (mv :: earlier) m)
    (h : start.Sound) (key : String) (alone : OnePassAtATime jobs key (mv :: earlier))
    (first : Accounted none (start.records.get? key))
    (pass : (jobs mv.member).passes key = true) {type : String} {sources : List Contribution}
    {a : Aggregation} (aggregated : mv.exchange = ⟨.aggregate type sources, .ok a⟩)
    {result : (jobs mv.member).Result} (finishes : (jobs mv.member).Finishes result)
    (ended : (jobs mv.member).program.Leaves (own mv.member (mv :: earlier)) (.done result)) :
    ∃ v w x, lastRead (own mv.member earlier) = some v ∧ v.sources = sources ∧
      m.records.get? key = some w ∧ w.status = v.status ∧
      v.status.phase = .synced ∧ v.status.configHash = a.hash ∧
      lastAttempt (passLog jobs key earlier) = some x ∧ x.Attests a.hash ∧
      (x.Takes a.hash ↔ x.isMissing = false) := by
  obtain ⟨_, goesOn⟩ := run.accounted h alone first
  obtain ⟨⟨base, split⟩, stops⟩ := goesOn mv.member _ (latestPass_cons mv pass earlier) ended
  have log : passLog jobs key (mv :: earlier) =
      ⟨.aggregate type sources, .ok a⟩ :: passLog jobs key earlier := by
    rw [passLog_cons mv pass, aggregated]
  rw [log] at stops split
  obtain ⟨v, rested⟩ := Job.rested_of_stops stops finishes ⟨_, _, rfl, rfl⟩
  obtain ⟨_, _, head, same⟩ := rested.aggregated
  cases head
  obtain ⟨w, stored, grows⟩ := rested.stored
  obtain ⟨x, last, attests⟩ := rested.vouched
  rw [same] at attests
  have asked := Job.protocol_of_passes pass ▸ (run.allowed h).2
  rw [aggregated] at asked
  obtain ⟨u, read, _⟩ := asked
  rw [own_cons_self, List.cons_append] at split
  have known := rested.read
  rw [lastRead_cons_of_none rfl, (List.cons.inj split).2, lastRead_append_of_some read] at known
  obtain rfl : u = v := Option.some.inj known
  refine ⟨u, w, x, read, rfl, stored, grows.status, rested.synced, same, ?_, attests,
    attests.takes_iff⟩
  rw [← last, lastAttempt_cons_of_not rfl]

/-- Passes that are made one after the other, as their numbers say. -/
theorem onePassAtATime_of_sorted {jobs : Nat → Job} {key : String} {history : List Move}
    (sorted : ((history.map (·.member)).filter fun i => (jobs i).passes key).Pairwise (· ≥ ·)) :
    OnePassAtATime jobs key history := by
  rintro later last between first earlier rfl same pass mv hmv other
  obtain ⟨before, after, rfl⟩ := List.append_of_mem hmv
  have order : [last.member, mv.member, first.member].Pairwise (· ≥ ·) := by
    refine sorted.sublist ?_
    simp only [List.map_append, List.map_cons, List.filter_append, List.append_assoc,
      List.cons_append, List.filter_cons, other, same, pass, if_true]
    refine .trans ?_ (List.sublist_append_right _ _)
    refine .cons_cons _ (.trans ?_ (List.sublist_append_right _ _))
    refine .cons_cons _ (.trans ?_ (List.sublist_append_right _ _))
    exact .cons_cons _ (List.nil_sublist _)
  simp only [List.pairwise_cons, List.mem_cons, List.not_mem_nil, or_false, forall_eq_or_imp,
    forall_eq] at order
  omega

/-- `a` and `b` register and `b` leaves again, before anything has looked at the record. Then two
passes look at it, one after the other. -/
def deserters : Nat → Job := Job.roster [.joins "a", .joins "b", .leaves "b", .looks, .looks]

def desertion (around : Surroundings) : Scene (Job.crew deserters) :=
  (Scene.opening (Job.crew deserters) {}).play around
    [0, 0, 0, 1, 1, 1, 2, 2, 2, 3, 3, 3, 3, 3, 3, 3, 3, 3, 3, 4, 4, 4, 4, 4]

/-- Nothing is left of a pass, and nothing is left to do. -/
def Pass.finished : Program (Except SyncError Action) → Bool
  | .done (.ok .done) => true
  | _ => false

theorem Pass.eq_done_of_finished {p : Program (Except SyncError Action)}
    (h : finished p = true) : p = .done (.ok .done) := by
  unfold finished at h
  split at h
  · rfl
  · cases h

/-- The second pass relies on what the first one has cut back. -/
theorem desertion_vouched :
    ∃ mv earlier v x, (desertion {}).history = mv :: earlier ∧
      lastRead (own 4 earlier) = some v ∧ lastAttempt (passLog deserters "r" earlier) = some x ∧
      x.Takes v.status.configHash := by
  have real : Scene.Real (fun _ => False) {} (desertion {}) := Scene.real_play _
  have alone : OnePassAtATime deserters "r" (desertion {}).history :=
    onePassAtATime_of_sorted (by decide +kernel)
  have ended : (desertion {}).left 4 = .done (.ok .done) :=
    Pass.eq_done_of_finished (by decide +kernel)
  have found : (lastAttempt (passLog deserters "r" (desertion {}).history.tail)).map (·.isMissing) =
      some false := by decide +kernel
  have left := real.left 4
  rw [ended] at left
  obtain ⟨⟨i, x, old, new⟩, earlier, split, member, sources, a, aggregated⟩ :
      ∃ mv earlier, (desertion {}).history = mv :: earlier ∧ mv.member = 4 ∧
        ∃ sources a, mv.exchange = ⟨.aggregate "t" sources, .ok a⟩ := ⟨_, _, rfl, rfl, _, _, rfl⟩
  have run := real.run
  obtain rfl : i = 4 := member
  rw [split] at run alone left found
  have first : Accounted none (({} : Memory).records.get? "r") := fun _ h => by cases h
  have finishes : (deserters 4).Finishes (.ok .done) := rfl
  obtain ⟨v, w, x, read, _, _, _, _, same, last, _, taken⟩ :=
    run.skipped_vouched Memory.sound_empty "r" alone first rfl aggregated finishes left
  rw [List.tail_cons, last] at found
  exact ⟨_, _, v, x, split, read, last, same ▸ taken.2 (Option.some.inj found)⟩

/-- As above, but nothing is found to be cut back. -/
def loss : Scene (Job.crew deserters) := desertion { teardown := .error ⟨.notFound, "zone"⟩ }

/-- The first pass enters the hash all the same, and the second one relies on it. -/
theorem loss_skipped :
    OnePassAtATime deserters "r" loss.history ∧ loss.left 4 = .done (.ok .done) ∧
      ∃ mv earlier v a x, loss.history = mv :: earlier ∧
        mv.exchange = ⟨.aggregate "t" v.sources, .ok a⟩ ∧ lastRead (own 4 earlier) = some v ∧
        v.status.phase = .synced ∧ v.status.configHash = a.hash ∧
        lastAttempt (passLog deserters "r" earlier) = some x ∧ ¬ x.Takes a.hash :=
  ⟨onePassAtATime_of_sorted (by decide +kernel), Pass.eq_done_of_finished (by decide +kernel),
    _, _, _, _, _, rfl, rfl, rfl, rfl, rfl, rfl, fun takes => by cases takes⟩

end Tributary
