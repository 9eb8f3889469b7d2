import Tributary.Proofs.Commits
import Tributary.Proofs.Scene

/-!
# Changes that are tried again

A change that meets a conflict is made once more, to the version that is stored by then. All the
same it takes effect once or not at all: what it commits is what it makes of the version stored
right before, and nothing of the half that it does not write (`Run.amends`). Nothing is assumed
of anybody else who works on the store at the same time.
-/

namespace Tributary

/-- How many writes were tried. -/
def writes (past : List Exchange) : Nat := past.countP (·.request.isWrite)

@[simp] theorem writes_cons (x : Exchange) (past : List Exchange) :
    writes (x :: past) = writes past + if x.request.isWrite = true then 1 else 0 :=
  List.countP_cons

/-- No write was granted. -/
def Uncommitted (past : List Exchange) : Prop := ∀ x ∈ past, x.isCommit = false

theorem Uncommitted.cons {past : List Exchange} (h : Uncommitted past) {x : Exchange}
    (hx : x.isCommit = false) : Uncommitted (x :: past) := by
  intro y hy
  cases hy with
  | head => exact hx
  | tail _ hy => exact h y hy

theorem Program.Leaves.ensures_after {α : Type} {asks : List Exchange → Request → Prop}
    {ends : List Exchange → α → Prop} {p rest : Program α} {since base : List Exchange}
    (l : p.Leaves since rest) (honest : ∀ x ∈ since, x.Honest) (h : p.Ensures asks ends base) :
    rest.Ensures asks ends (since ++ base) := by
  induction l with
  | start => exact h
  | @step past q next l a ih =>
    have before := ih fun x hx => honest x (List.mem_cons_of_mem _ hx)
    exact before.2 a (honest _ List.mem_cons_self)

namespace Update

variable {β : Type} {policy : RetryPolicy} {half : Half} {change : Record → Record × β}
  {base : List Exchange} {copy : Record}

/-- What a change asks after what it has done since it began. A write is made of the version
read last, as long as there are tries left and none was granted. -/
def Asks (policy : RetryPolicy) (half : Half) (change : Record → Record × β) (key : String)
    (base past : List Exchange) (q : Request) : Prop :=
  ∃ since, past = since ++ base ∧
    (q.isWrite = true → writes since < policy.maxAttempts ∧ Uncommitted since ∧
      ∃ v, lastRead past = some v ∧ v.key = key ∧ q = .store (writing half (change v).1))

/-- A change ends after a write that was granted, or without one, or with a version that cannot
be read again. -/
def Ends (half : Half) (change : Record → Record × β) (base past : List Exchange) :
    Except SyncError β → Record → Prop
  | .ok b, _ => ∃ x v token before,
      past = x :: written half (change v).1 (.ok token) :: before ++ base ∧
      x.isCommit = false ∧ Uncommitted before ∧ lastRead (before ++ base) = some v ∧
      b = (change v).2
  | .error e, _ => ∃ since, past = since ++ base ∧
      (Uncommitted since ∨ ∃ key error before,
        since = ⟨.store (.get key), .error error⟩ :: before ∧ e = .store error)

variable (keeps : ∀ r, (change r).1.key = r.key)

include keeps in
theorem tries_ensures (since : List Exchange) (n : Nat)
    (read : lastRead (since ++ base) = some copy) (none : Uncommitted since)
    (left : writes since + n ≤ policy.maxAttempts) :
    (tries policy half change n).Ensures (Asks policy half change copy.key base)
      (Ends half change base) copy (since ++ base) := by
  induction n generalizing since copy with
  | zero => exact ⟨since, rfl, .inl none⟩
  | succ n ih =>
    have asked (more : List Exchange) (q : Request) (other : q.isWrite = false) :
        Asks policy half change copy.key base (more ++ (since ++ base)) q :=
      ⟨more ++ since, (List.append_assoc ..).symm, fun write => absurd (other.symm.trans write)
        (by simp)⟩
    unfold tries
    simp only [Session.ensures_get, Session.ensures_set, ensures_put]
    refine ⟨⟨since, rfl, fun _ => ⟨by omega, none, copy, read, rfl, rfl⟩⟩, fun answer => ?_⟩
    cases answer with
    | ok token =>
      refine (ensures_refresh _).2 ⟨asked [_] _ rfl, fun r _ => ?_, fun e => ?_⟩
      · exact ⟨_, copy, token, since, rfl, rfl, none, read, rfl⟩
      · exact ⟨_ :: _ :: since, rfl, .inr ⟨_, e, _, rfl, rfl⟩⟩
    | error error =>
      have refused : Uncommitted (written half (change copy).1 (.error error) :: since) :=
        none.cons (isCommit_written _ _ _)
      by_cases conflict : error.isConflict = true
      · simp only [conflict, if_true]
        refine ⟨asked [_] _ rfl, fun waited _ => ?_⟩
        refine (ensures_refresh _).2 ⟨asked [_, _] _ rfl, fun r hr => ?_, fun e => ?_⟩
        · rw [← hr.trans (keeps copy)]
          refine ih (_ :: _ :: _ :: since) rfl ((refused.cons rfl).cons rfl) ?_
          have tried : writes (⟨.store (.get (change copy).1.key), .ok r⟩ ::
              ⟨.sleep policy.conflictDelay, waited⟩ ::
                written half (change copy).1 (.error error) :: since) = writes since + 1 := by
            rw [writes_cons, writes_cons, writes_cons, isWrite_written]
            rfl
          omega
        · exact ⟨_ :: _ :: _ :: since, rfl, .inl ((refused.cons rfl).cons rfl)⟩
      · simp only [conflict]
        exact ⟨_ :: since, rfl, .inl refused⟩

end Update

/-! ## What a change commits -/

namespace Program

variable {α : Type} {p rest : Program α} {since before : List Exchange} {x : Exchange}

/-- What was done at some point was asked then. -/
theorem Leaves.asked (l : p.Leaves (since ++ x :: before) rest) :
    ∃ next, p.Leaves before (.ask x.request next) := by
  generalize hpast : since ++ x :: before = past at l
  induction l generalizing since with
  | start => cases since <;> cases hpast
  | @step past q next l a ih =>
    cases since with
    | nil =>
      obtain ⟨rfl, rfl⟩ := List.cons.inj hpast
      exact ⟨next, l⟩
    | cons y since => exact ih (List.cons.inj hpast).2

end Program

/-- A move that replaces the stored version by what a change makes of it, as far as its half
goes. All other records stay as they are. -/
structure Move.Replaces {β : Type} (mv : Move) (half : Half) (change : Record → Record × β)
    (key : String) (v : Record) : Prop where
  stored : mv.before.records.get? key = some v
  written : mv.exchange = Update.written half (change v).1 (.ok mv.before.nextToken)
  made : ∃ now, mv.after.records.get? key =
    some (half.merged (change v).1 v mv.before.nextToken now)
  others : ∀ k, k ≠ key → mv.after.records.get? k = mv.before.records.get? k

/-- What a change that member `i` has begun has come to after some moves. -/
structure Amends {β : Type} (i : Nat) (policy : RetryPolicy) (half : Half)
    (change : Record → Record × β) (key : String) (moves : List Move)
    (left : Program (Except SyncError β × Record)) : Prop where
  /-- No more writes are tried than the policy allows. -/
  bounded : writes (own i moves) ≤ policy.maxAttempts
  /-- Whatever is committed replaces the stored version, and nothing was committed before. -/
  replaces : ∀ later mv earlier, moves = later ++ mv :: earlier → mv.member = i →
    mv.exchange.isCommit = true →
      (∃ v, mv.Replaces half change key v) ∧ Uncommitted (own i earlier)
  /-- A change that succeeds has been committed once and answers for the version that it
  replaced. -/
  once : ∀ b copy, left = .done (.ok b, copy) → ∃ later mv earlier v,
    moves = later ++ mv :: earlier ∧ mv.member = i ∧ mv.Replaces half change key v ∧
      b = (change v).2 ∧ Uncommitted (own i later) ∧ Uncommitted (own i earlier)
  /-- A change that runs out of tries, or whose last write fails, has not been committed. -/
  never : ∀ e copy, left = .done (.error e, copy) →
    ((∃ key attempts, e = .retriesExhausted key attempts) ∨
      ∃ x past, own i moves = x :: past ∧ x.request.isWrite = true) →
    Uncommitted (own i moves)

namespace Run

variable {β : Type} {faulty : StoreError → Prop} {crew : Crew} {start m : Memory}
  {moves before : List Move} {i : Nat} {policy : RetryPolicy} {half : Half}
  {change : Record → Record × β} {copy : Record} {left : Program (Except SyncError β × Record)}

theorem replaces {mv : Move} {earlier : List Move} {v : Record}
    (run : Run faulty crew start (mv :: earlier) m) (h : start.Sound)
    (keeps : (change v).1.key = v.key ∧ (change v).1.token = v.token)
    (read : lastRead (own mv.member earlier) = some v)
    (asked : mv.exchange.request = .store (Update.writing half (change v).1))
    (granted : mv.exchange.isCommit = true) : mv.Replaces half change v.key v := by
  obtain ⟨prior, serves, _⟩ := run.last
  obtain ⟨token, written⟩ := Update.exists_written asked granted
  rw [written] at serves
  obtain ⟨stored, now, found, current, rfl, after⟩ := serves.wrote
  obtain rfl : stored = v := prior.eq_lastRead h read (keeps.1 ▸ found) (keeps.2 ▸ current)
  have key := half.key_merged keeps.1 mv.before.nextToken now
  refine ⟨keeps.1 ▸ found, written, ⟨now, ?_⟩, fun k other => ?_⟩
  · rw [after, Memory.get?_put, key, if_pos rfl]
  · rw [after, Memory.get?_put, key, if_neg other]

variable (run : Run faulty crew start (moves ++ before) m) (h : start.Sound)
  (keeps : ∀ r, (change r).1.key = r.key ∧ (change r).1.token = r.token)
  (read : lastRead (own i before) = some copy)
  (goes : ((Update.changing policy half change).start copy).Leaves (own i moves) left)

include read keeps in
theorem changing_ensures :
    ((Update.changing policy half change).start copy).Ensures
      (Update.Asks policy half change copy.key (own i before))
      (fun past result => Update.Ends half change (own i before) past result.1 result.2)
      (own i before) :=
  Update.tries_ensures (fun r => (keeps r).1) [] _ read (by simp [Uncommitted])
    (Nat.le_of_eq (Nat.zero_add _))

include run h in
theorem honest_of_append {x : Exchange} (hx : x ∈ own i moves) : x.Honest :=
  run.honest h i x (by rw [own_append]; exact List.mem_append_left _ hx)

include run h keeps read goes

/-- What was asked in the course of a change. -/
theorem asked_changing {later earlier : List Move} {mv : Move}
    (split : moves = later ++ mv :: earlier) (mine : mv.member = i)
    (write : mv.exchange.request.isWrite = true) :
    writes (own i earlier) < policy.maxAttempts ∧ Uncommitted (own i earlier) ∧
      ∃ v, lastRead (own i (earlier ++ before)) = some v ∧ v.key = copy.key ∧
        mv.exchange.request = .store (Update.writing half (change v).1) := by
  have parts : own i moves = own i later ++ mv.exchange :: own i earlier := by
    rw [split, own_append, ← mine, own_cons_self]
  have honest (x : Exchange) (hx : x ∈ own i earlier) : x.Honest :=
    run.honest_of_append h (i := i) (by simp [parts, hx])
  rw [parts] at goes
  obtain ⟨next, l⟩ := goes.asked
  obtain ⟨since, same, rule⟩ := (l.ensures_after honest (changing_ensures keeps read)).1
  obtain rfl := List.append_cancel_right same
  rw [own_append]
  exact rule write

theorem ended_changing {result : Except SyncError β × Record} (done : left = .done result) :
    Update.Ends half change (own i before) (own i moves ++ own i before) result.1 result.2 :=
  (done ▸ goes).ensures_after (fun _ => run.honest_of_append h) (changing_ensures keeps read)

theorem replaces_changing {later earlier : List Move} {mv : Move}
    (split : moves = later ++ mv :: earlier) (mine : mv.member = i)
    (granted : mv.exchange.isCommit = true) :
    Uncommitted (own i earlier) ∧ ∃ v, lastRead (own i (earlier ++ before)) = some v ∧
      mv.Replaces half change copy.key v := by
  obtain ⟨_, none, v, read', key, write⟩ :=
    run.asked_changing h keeps read goes split mine (isWrite_of_isCommit granted)
  refine ⟨none, v, read', ?_⟩
  subst split mine
  rw [List.append_assoc] at run
  exact key ▸ run.upto_move.replaces h (keeps v) read' write granted

theorem bounded_changing (earlier : List Move) :
    ∀ later, moves = later ++ earlier → writes (own i earlier) ≤ policy.maxAttempts := by
  induction earlier with
  | nil => exact fun _ _ => Nat.zero_le _
  | cons mv earlier ih =>
    intro later split
    have before := ih (later ++ [mv]) (by simp [split])
    by_cases mine : mv.member = i
    · rw [← mine, own_cons_self, mine, writes_cons]
      by_cases write : mv.exchange.request.isWrite = true
      · rw [if_pos write]
        exact (run.asked_changing h keeps read goes split mine write).1
      · rw [if_neg write]
        exact before
    · rw [own_cons_of_ne mine]
      exact before

theorem amends : Amends i policy half change copy.key moves left where
  bounded := run.bounded_changing h keeps read goes moves [] rfl
  replaces _ _ _ split mine granted :=
    have ⟨first, v, _, replaces⟩ := run.replaces_changing h keeps read goes split mine granted
    ⟨⟨v, replaces⟩, first⟩
  once b c done := by
    obtain ⟨x, v, token, past, same, unwritten, _, read', answer⟩ :=
      run.ended_changing h keeps read goes done
    have parts : own i moves = [x] ++ Update.written half (change v).1 (.ok token) :: past :=
      List.append_cancel_right same
    obtain ⟨later, mv, earlier, split, mine, written, last, first⟩ := exists_of_own parts
    have granted : mv.exchange.isCommit = true := by simp [written, Except.isOk, Except.toBool]
    obtain ⟨none, v', read'', replaces⟩ :=
      run.replaces_changing h keeps read goes split mine granted
    rw [own_append, first] at read''
    obtain rfl : v' = v := Option.some.inj (read''.symm.trans read')
    refine ⟨later, mv, earlier, v', split, mine, replaces, answer, ?_, none⟩
    rw [last]
    exact Uncommitted.cons (by simp [Uncommitted]) unwritten
  never e c done cause := by
    obtain ⟨since, same, none | ⟨key, error, past, rfl, rfl⟩⟩ :=
      run.ended_changing h keeps read goes done
    · exact List.append_cancel_right same ▸ none
    · obtain ⟨_, _, other⟩ | ⟨x, past', last, write⟩ := cause
      · cases other
      · have same := last.symm.trans (List.append_cancel_right same)
        obtain ⟨rfl, _⟩ := List.cons.inj same
        cases write

end Run

/-! ## Three changes at once -/

/-- A change to the record `r`, as it is read before. -/
def amending (half : Half) (change : Record → Record × Unit) : Program (Except SyncError Unit) := do
  match ← Program.request (.store (.get "r")) with
  | .ok r => return (← (Update.changing {} half change).start r).1
  | .error e => return .error (.store e)

def raised (r : Record) : Record × Unit := ({ r with generation := r.generation + 1 }, ())

def counted (r : Record) : Record × Unit :=
  ({ r with status := { r.status with configVersion := r.status.configVersion + 1 } }, ())

/-- One creates the record, two change a half of it each, and one deletes it. -/
def contest : Crew where
  Result _ := Except SyncError Unit
  program
    | 0 => do
      let _ ← Program.request (.store (.create (.blank "r" "t" "live" ⟨0, 0⟩)))
      return .ok ()
    | 1 => amending .spec raised
    | 2 => amending .status counted
    | 3 => do
      match ← Program.request (.store (.get "r")) with
      | .ok r =>
        let _ ← Program.request (.store (.delete r))
        return .ok ()
      | .error e => return .error (.store e)
    | _ => .done (.ok ())

/-- The change of the status comes first and the other one is tried again. -/
def race : Scene contest :=
  (Scene.opening contest {}).play {} [0, 1, 2, 2, 1, 2, 1, 1, 1, 1, 3, 3]

/-- The version that both changes are first made of. -/
def draft : Record := { Record.blank "r" "t" "live" ⟨0, 0⟩ with token := 1 }

theorem race_amends :
    ∃ c, Amends 1 {} .spec raised draft.key (race.history.take 10) (.done (.ok (), c)) := by
  have run : Run (· = .unreachable) contest {} (race.history.take 10 ++ race.history.drop 10)
      race.memory := by
    rw [List.take_append_drop]
    exact (Scene.real_play _).run
  let recounted : Record := { draft with status := (counted draft).1.status, token := 2 }
  have l0 : ((Update.changing {} .spec raised).start draft).Leaves [] _ := .start
  have l1 := l0.step (.error (.conflict "r" 1 2))
  have l2 := l1.step ()
  have l3 := l2.step (.ok recounted)
  have l4 := l3.step (.ok 3)
  have l5 := l4.step (.ok { (raised recounted).1 with token := 3 })
  exact ⟨_, run.amends Memory.sound_empty (fun _ => ⟨rfl, rfl⟩) rfl l5⟩

end Tributary
