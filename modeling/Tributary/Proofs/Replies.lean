import Tributary.Proofs.Amendments
import Tributary.Proofs.Contributions
import Tributary.Proofs.Teardowns

/-!
# Replies

What is told to whoever registers or withdraws. If the store refuses nothing but stale writes, a
call that ends well has done what it says, and one that does not has either spent its tries, and
changed nothing, or lost the record: a pass has deleted it between two requests of the call
(`Run.replies`). A call that has lost the record says that it is not found, even if it has already
made its change (`dissolution_unacknowledged`).
-/

namespace Tributary

theorem Program.ensures_of_forall {α : Type} {asks : List Exchange → Request → Prop}
    {ends : List Exchange → α → Prop} (every : ∀ past q, asks past q) (all : ∀ past a, ends past a)
    {p : Program α} {past : List Exchange} : p.Ensures asks ends past := by
  induction p generalizing past with
  | done a => exact all past a
  | ask q next ih => exact ⟨every past q, fun a _ => ih a⟩

/-! ## Calls that give up -/

namespace Exchange

/-- The record is there: it was read, or it could not be created for it. -/
def meets : Exchange → Bool
  | ⟨.store (.get _), .ok _⟩ => true
  | ⟨.store (.create _), .error (.alreadyExists _)⟩ => true
  | _ => false

/-- A call was refused for a stale token. -/
def isConflict : Exchange → Bool
  | ⟨.store _, .error e⟩ => e.isConflict
  | _ => false

end Exchange

/-- Something is to be made of the version that carries the same token. -/
def Request.isConditional : Request → Bool
  | .store (.update _) | .store (.updateStatus _) | .store (.delete _) => true
  | _ => false

/-- Whether nothing is tried any more after an error: a stale write is made once more, and a record
that is already there is joined. -/
def Store.Call.isFinal : Store.Call → StoreError → Bool
  | .create _, .alreadyExists _ => false
  | .update _, e | .updateStatus _, e | .delete _, e => !e.isConflict
  | _, _ => true

/-- How a call comes to give up: the last try was in vain, or the store has refused something for
good. That it has lost the record it can only say of one that it has met. -/
inductive Fruitless (key : String) (attempts : Nat) : List Exchange → SyncError → Prop
  | exhausted {r : Record} {before : List Exchange} (none : Uncommitted before) :
      Fruitless key attempts (⟨.store (.get key), .ok r⟩ :: before)
        (.retriesExhausted key attempts)
  | refused {c : Store.Call} {error : StoreError} {before : List Exchange}
      (final : c.isFinal error = true)
      (met : error.isNotFound = true → (∃ r, c = .create r) ∨ ∃ x ∈ before, x.meets = true) :
      Fruitless key attempts (⟨.store c, .error error⟩ :: before) (.store error)

namespace Update

variable {β : Type} {policy : RetryPolicy} {change : Record → Record × β} {key : String}
  {copy : Record} {past : List Exchange}

/-- What the tries of a change come to: one of them was granted, and the record was read again, or
they were fruitless. -/
def Concludes (change : Record → Record × β) (key : String) (attempts : Nat)
    (past : List Exchange) : Except SyncError β → Record → Prop
  | .ok b, r => ∃ v token before, past = ⟨.store (.get key), .ok r⟩ ::
      written .spec (change v).1 (.ok token) :: before ∧
      lastRead before = some v ∧ Uncommitted before ∧ b = (change v).2
  | .error e, _ => Fruitless key attempts past e

theorem tries_concludes (keeps : ∀ r, (change r).1.key = r.key) (n : Nat)
    (hkey : copy.key = key) (read : lastRead past = some copy) (none : Uncommitted past)
    (met : ∃ x ∈ past, x.meets = true)
    (last : n = 0 → ∃ r before, past = ⟨.store (.get key), .ok r⟩ :: before) :
    (tries policy .spec change n).Ensures (fun _ _ => True)
      (Concludes change key policy.maxAttempts) copy past := by
  have later {past : List Exchange} (met : ∃ x ∈ past, x.meets = true) (x : Exchange) :
      ∃ y ∈ x :: past, y.meets = true := by
    obtain ⟨y, hy, meets⟩ := met
    exact ⟨y, .tail _ hy, meets⟩
  induction n generalizing copy past with
  | zero =>
    obtain ⟨r, before, rfl⟩ := last rfl
    exact hkey ▸ .exhausted fun x hx => none x (.tail _ hx)
  | succ n ih =>
    have made : (change copy).1.key = key := (keeps copy).trans hkey
    unfold tries
    simp only [Session.ensures_get, Session.ensures_set, ensures_put]
    refine ⟨trivial, fun answer => ?_⟩
    have met' := later met (written .spec (change copy).1 answer)
    cases answer with
    | ok token =>
      refine (ensures_refresh _).2 ⟨trivial, fun r _ => ?_, fun e => ?_⟩
      · exact ⟨copy, token, past, by rw [made], read, none, rfl⟩
      · exact .refused rfl fun _ => .inr met'
    | error error =>
      have refused : Uncommitted (written .spec (change copy).1 (.error error) :: past) :=
        none.cons rfl
      by_cases conflict : error.isConflict = true
      · simp only [conflict, if_true]
        refine ⟨trivial, fun waited _ =>
          (ensures_refresh _).2 ⟨trivial, fun r hr => ?_, fun e => ?_⟩⟩
        · rw [made] at hr ⊢
          refine ih hr rfl ((refused.cons rfl).cons rfl) ?_ fun _ => ⟨r, _, rfl⟩
          exact later (later met' _) _
        · exact .refused rfl fun _ => .inr (later met' _)
      · simp only [conflict]
        refine .refused ?_ fun _ => .inr met
        simpa [writing, Store.Call.isFinal] using conflict

theorem changing_concludes (keeps : ∀ r, (change r).1.key = r.key) (hkey : copy.key = key)
    (read : lastRead past = some copy) (none : Uncommitted past)
    (met : ∃ x ∈ past, x.meets = true) :
    (changing policy .spec change).Ensures (fun _ _ => True)
      (Concludes change key policy.maxAttempts) copy past :=
  tries_concludes keeps _ hkey read none met fun never =>
    absurd never (Nat.ne_of_gt policy.maxAttempts_pos)

end Update

namespace Registry

variable {policy : RetryPolicy} {key : String} {past : List Exchange}

/-- How a registration comes by its record: it creates it, finds in it what it was to enter, or
enters that into a version. -/
inductive Established (key : String) (template : Template) (source : Contribution)
    (attempts : Nat) : List Exchange → Except SyncError Record → Prop
  | created {now : Instant} {r : Record} {before : List Exchange}
      (unmet : ∀ x ∈ before, x.meets = false) :
      Established key template source attempts
        (⟨.store (.create (template.instantiate key source now)), .ok r⟩ :: before) (.ok r)
  | found {r : Record} {before : List Exchange} (there : r.lacks source = false) :
      Established key template source attempts (⟨.store (.get key), .ok r⟩ :: before) (.ok r)
  | entered {v r : Record} {token : Nat} {before : List Exchange}
      (read : lastRead before = some v) :
      Established key template source attempts (⟨.store (.get key), .ok r⟩ ::
        ⟨.store (.update (contribute source v)), .ok token⟩ :: before) (.ok r)
  | failed {e : SyncError} {past : List Exchange} (fruitless : Fruitless key attempts past e) :
      Established key template source attempts past (.error e)

/-- How a withdrawal ends: there is no record, or nothing in it of the owner, or the contribution
is taken out of a version, if it is still in it. -/
inductive Retracted (key : String) (owner : Owner) (attempts : Nat) :
    List Exchange → Except SyncError Bool → Prop
  | absent {k : String} :
      Retracted key owner attempts [⟨.store (.get key), .error (.notFound k)⟩] (.ok false)
  | nothing {r : Record} :
      Retracted key owner attempts [⟨.store (.get key), .ok r⟩] (.ok false)
  | tried {v r : Record} {token : Nat} {before : List Exchange} (read : lastRead before = some v)
      (none : Uncommitted before) :
      Retracted key owner attempts (⟨.store (.get key), .ok r⟩ ::
        ⟨.store (.update (withdraw owner v).1), .ok token⟩ :: before) (.ok (withdraw owner v).2)
  | failed {e : SyncError} {past : List Exchange} (fruitless : Fruitless key attempts past e) :
      Retracted key owner attempts past (.error e)

theorem Established.fruitless {template : Template} {source : Contribution} {attempts : Nat}
    {e : SyncError} (h : Established key template source attempts past (.error e)) :
    Fruitless key attempts past e := by
  cases h with
  | failed fruitless => exact fruitless

theorem Retracted.fruitless {owner : Owner} {attempts : Nat} {e : SyncError}
    (h : Retracted key owner attempts past (.error e)) : Fruitless key attempts past e := by
  cases h with
  | failed fruitless => exact fruitless

theorem join_established {template : Template} {source : Contribution} {r : Record}
    {before : List Exchange} (hkey : r.key = key) (none : Uncommitted before) :
    (join policy source r).Ensures (fun _ _ => True)
      (Established key template source policy.maxAttempts)
      (⟨.store (.get key), .ok r⟩ :: before) := by
  unfold join
  split
  · rw [Session.ensures_start]
    refine (Update.changing_concludes (fun r => (contribute_keeps source r).1) hkey rfl
      (none.cons rfl) ⟨_, .head _, rfl⟩).mono fun past result r' concluded => ?_
    cases result with
    | ok =>
      obtain ⟨v, token, before, rfl, read, _, _⟩ := concluded
      exact .entered read
    | error e => exact .failed concluded
  · next there => exact .found (by simpa using there)

theorem register_established (template : Template) (source : Contribution) :
    (register policy key template source).Ensures (fun _ _ => True)
      (Established key template source policy.maxAttempts) [] := by
  have none : Uncommitted [] := by simp [Uncommitted]
  have lost (e : StoreError) (before : List Exchange)
      (met : e.isNotFound = true → ∃ x ∈ before, x.meets = true) :
      Established key template source policy.maxAttempts
        (⟨.store (.get key), .error e⟩ :: before) (.error (.store e)) :=
    .failed (.refused rfl fun missing => .inr (met missing))
  refine ⟨trivial, fun a honest => ?_⟩
  cases a with
  | ok r => exact join_established honest none
  | error error =>
    cases error with
    | notFound =>
      refine ⟨trivial, fun now _ => ⟨trivial, fun a _ => ?_⟩⟩
      cases a with
      | ok r =>
        refine .created fun x hx => ?_
        simp only [List.mem_cons, List.not_mem_nil, or_false] at hx
        obtain rfl | rfl := hx <;> rfl
      | error error =>
        cases error with
        | alreadyExists =>
          refine ⟨trivial, fun a honest => ?_⟩
          cases a with
          | ok r => exact join_established honest (((none.cons rfl).cons rfl).cons rfl)
          | error error => exact lost _ _ fun _ => ⟨_, .head _, rfl⟩
        | _ => exact .failed (.refused rfl fun _ => .inl ⟨_, rfl⟩)
    | _ => exact lost _ _ fun missing => by cases missing

theorem unregister_retracted (owner : Owner) :
    (unregister policy key owner).Ensures (fun _ _ => True)
      (Retracted key owner policy.maxAttempts) [] := by
  have none : Uncommitted [] := by simp [Uncommitted]
  refine (Program.ensures_request _ _ _).2 ⟨trivial, fun a honest => ?_⟩
  cases a with
  | ok r =>
    dsimp only
    split
    · rw [Session.ensures_start]
      refine (Update.changing_concludes (fun r => (withdraw_keeps owner r).1) honest rfl
        (none.cons rfl) ⟨_, .head _, rfl⟩).mono fun past result r' concluded => ?_
      cases result with
      | ok b =>
        obtain ⟨v, token, before, rfl, read, uncommitted, rfl⟩ := concluded
        exact .tried read uncommitted
      | error e => exact .failed concluded
    · exact .nothing
  | error error =>
    cases error with
    | notFound => exact .absent
    | _ => exact .failed (.refused rfl fun missing => by cases missing)

end Registry

/-! ## Records that vanish -/

/-- What a member has done last is one of the moves. -/
theorem exists_latest_own {i : Nat} {history : List Move} {x : Exchange} {before : List Exchange}
    (h : own i history = x :: before) :
    ∃ later mv earlier, history = later ++ mv :: earlier ∧ mv.member = i ∧ mv.exchange = x ∧
      own i later = [] ∧ own i earlier = before :=
  exists_of_own (h.trans (List.nil_append _).symm)

/-- So is what it has done before that. -/
theorem exists_previous_own {i : Nat} {history : List Move} {x y : Exchange}
    {before : List Exchange} (h : own i history = y :: x :: before) :
    ∃ later mv earlier, history = later ++ mv :: earlier ∧ mv.member = i ∧ mv.exchange = x ∧
      own i later = [y] ∧ own i earlier = before :=
  exists_of_own (h.trans (List.singleton_append ..).symm)

/-- A pass has deleted the record between two requests of a member: the member has met it before,
and it is not there any more when the member asks for the last time. -/
def Vanished (jobs : Nat → Job) (key : String) (i : Nat) (history : List Move) : Prop :=
  ∃ after last between first earlier, history = after ++ last :: (between ++ first :: earlier) ∧
    own i after = [] ∧ last.member = i ∧ first.member = i ∧ first.exchange.meets = true ∧
    last.before.records.get? key = none ∧
    ∃ mv ∈ between, (jobs mv.member).passes key = true ∧ mv.exchange.removes key = true

/-- The store fails only by conflicts, with writes of what was read before. -/
structure Contended (faulty : StoreError → Prop) (history : List Move) : Prop where
  faults : ∀ e, faulty e → e.isConflict = true
  writes : ∀ mv ∈ history, mv.exchange.isConflict = true →
    mv.exchange.request.isConditional = true

theorem Contended.of_suffix {faulty : StoreError → Prop} {earlier history : List Move}
    (h : Contended faulty history) (suffix : earlier <:+ history) : Contended faulty earlier :=
  ⟨h.faults, fun mv hmv => h.writes mv (suffix.mem hmv)⟩

/-- A job that takes nothing down. -/
def Job.registers : Job → Bool
  | .register .. | .unregister .. | .requestDeletion .. => true
  | .reconcile .. => false

theorem Job.updates_of_registers {j : Job} (h : j.registers = true) {past : List Exchange}
    {c : Store.Call} {r : Record} (asked : j.protocol.Allows past (.store c))
    (write : c = .update r ∨ c = .updateStatus r ∨ c = .delete r) :
    c = .update r ∧ r.key = j.protocol.key := by
  obtain rfl | rfl | rfl := write
  · obtain ⟨v, _, mine, same, _⟩ := asked
    exact ⟨rfl, same.trans mine⟩
  · obtain ⟨_, _, _, _, _, marks⟩ := asked
    cases j with
    | register | unregister | requestDeletion => exact marks.elim
    | reconcile => cases h
  · obtain ⟨_, _, deletes⟩ := asked
    cases j with
    | register | unregister | requestDeletion => exact deletes.elim
    | reconcile => cases h

variable {faulty : StoreError → Prop} {jobs : Nat → Job} {start m : Memory}
  {history earlier : List Move} {mv : Move} {key : String} {i : Nat}

namespace Run

/-- Unless by a conflict, nothing is refused for good but for want of the record. -/
theorem missing_of_final (run : Run faulty (Job.crew jobs) start (mv :: earlier) m)
    (h : start.Sound) (contended : Contended faulty (mv :: earlier))
    (registers : (jobs mv.member).registers = true) {c : Store.Call} {error : StoreError}
    (refused : mv.exchange = ⟨.store c, .error error⟩) (final : c.isFinal error = true) :
    error = .notFound (jobs mv.member).protocol.key ∧
      mv.before.records.get? (jobs mv.member).protocol.key = none ∧ ∀ r, c ≠ .create r := by
  have asked := (run.allowed h).2
  obtain ⟨_, serves, _⟩ := run.last
  have writes := contended.writes mv (.head _)
  obtain ⟨i, x, old, new⟩ := mv
  obtain rfl : x = _ := refused
  dsimp only at asked serves registers ⊢
  have unconditional : error.isConflict = true → Request.isConditional (.store c) = true := writes
  have clash (conflict : error.isConflict = true) : False := by
    have conditional := unconditional conflict
    cases c with
    | update | updateStatus | delete => simp [Store.Call.isFinal, conflict] at final
    | get | create | list => cases conditional
  obtain ⟨now, performed⟩ | ⟨e, fault, same, _⟩ := serves
  · cases Memory.refuses_of_perform performed with
    | unread absent =>
      obtain rfl := asked
      exact ⟨rfl, absent, fun _ other => by cases other⟩
    | taken => cases final
    | gone write absent =>
      obtain ⟨rfl, mine⟩ := Job.updates_of_registers registers asked write
      rw [← mine]
      exact ⟨rfl, absent, fun _ other => by cases other⟩
    | stale => exact (clash rfl).elim
    | guarded =>
      cases (Job.updates_of_registers registers asked (.inr (.inr rfl))).1
  · obtain rfl := Except.error.inj same
    exact (clash (contended.faults _ fault)).elim

/-- Who meets a record has it in the store then. -/
theorem stored_of_meets (run : Run faulty (Job.crew jobs) start (mv :: earlier) m)
    (h : start.Sound) (contended : Contended faulty (mv :: earlier))
    (meets : mv.exchange.meets = true) :
    ∃ r, mv.after.records.get? (jobs mv.member).protocol.key = some r := by
  have key {c : Record} := run.key_of_reads h (i := mv.member) (c := c)
  have asked := (run.allowed h).2
  obtain ⟨before, serves, _⟩ := run.last
  have sound := before.sound h
  obtain ⟨i, x, old, new⟩ := mv
  dsimp only at asked serves key meets sound ⊢
  unfold Exchange.meets at meets
  split at meets
  · have stored := Serves.stored serves sound rfl
    rw [key ⟨_, _, rfl, rfl, rfl⟩] at stored
    exact ⟨_, stored⟩
  · obtain ⟨now, performed⟩ | ⟨e, fault, same, _⟩ := serves
    · have refuses := Memory.refuses_of_perform performed
      rw [Memory.eq_of_perform_error performed, ← asked.1]
      cases refuses with
      | taken there => exact Option.ne_none_iff_exists'.1 there
    · obtain rfl := Except.error.inj same
      cases contended.faults _ fault
  · cases meets

/-- What was there and is there no more was deleted by a pass. -/
theorem exists_removal {between : List Move} (run : Run faulty (Job.crew jobs) start
    (between ++ earlier) m) (h : start.Sound) {r : Record}
    (found : (memoryAfter start earlier).records.get? key = some r)
    (gone : m.records.get? key = none) :
    ∃ mv ∈ between, (jobs mv.member).passes key = true ∧ mv.exchange.removes key = true := by
  by_cases undeleted : Undeleted key between
  · obtain ⟨w, stored, _⟩ := run.lineage h found undeleted
    cases gone.symm.trans stored
  · obtain ⟨mv, hmv, removes⟩ : ∃ mv ∈ between, mv.exchange.removes key = true := by
      simpa [Undeleted] using undeleted
    obtain ⟨later, sooner, rfl⟩ := List.append_of_mem hmv
    rw [List.append_assoc] at run
    exact ⟨mv, hmv, (Job.passes_of_removes (run.upto_move.allowed h) removes).1, removes⟩

variable {x : Exchange} {past : List Exchange}

/-- Who has met a record and lacks it at its last request has lost it to a pass. -/
theorem vanished (run : Run faulty (Job.crew jobs) start history m) (h : start.Sound)
    (contended : Contended faulty history) (mine : (jobs i).protocol.key = key)
    (split : own i history = x :: past) (met : ∃ y ∈ past, y.meets = true)
    (missing : ∀ later mv earlier, history = later ++ mv :: earlier → mv.member = i →
      mv.exchange = x → own i earlier = past → mv.before.records.get? key = none) :
    Vanished jobs key i history := by
  obtain ⟨after, last, rest, rfl, member, same, asks, prior⟩ := exists_latest_own split
  obtain ⟨y, hy, meets⟩ := met
  obtain ⟨since, before, rfl⟩ := List.append_of_mem hy
  obtain ⟨between, first, earlier, rfl, member', rfl, _, _⟩ := exists_of_own prior
  have gone := missing _ _ _ rfl member same prior
  have early := run.upto_move.last.1
  have calm : Contended faulty (first :: earlier) :=
    contended.of_suffix ⟨after ++ last :: between, by simp⟩
  obtain ⟨r, there⟩ := early.upto_move.stored_of_meets h calm meets
  rw [member', mine] at there
  exact ⟨after, last, between, first, earlier, rfl, asks, member, member', meets, gone,
    early.exists_removal h there gone⟩

/-- Whose last request was a reading has not lost its record. -/
theorem not_vanished_of_got (run : Run faulty (Job.crew jobs) start history m)
    {r : Record} (split : own i history = ⟨.store (.get key), .ok r⟩ :: past) :
    ¬ Vanished jobs key i history := by
  rintro ⟨after, last, between, first, earlier, rfl, none, member, _, _, gone, _⟩
  rw [own_append, none, List.nil_append, ← member, own_cons_self] at split
  obtain ⟨_, serves, _⟩ := run.upto_move.last
  obtain ⟨i, x, old, new⟩ := last
  obtain rfl := (List.cons.inj split).1
  cases Serves.granted serves with
  | get found => cases gone.symm.trans found

/-- Who has met nothing before its last request has lost nothing. -/
theorem not_vanished_of_unmet (split : own i history = x :: past)
    (unmet : ∀ y ∈ past, y.meets = false) : ¬ Vanished jobs key i history := by
  rintro ⟨after, last, between, first, earlier, rfl, none, member, member', meets, _⟩
  rw [own_append, none, List.nil_append, ← member, own_cons_self, member] at split
  obtain ⟨_, rfl⟩ := List.cons.inj split
  have mem : first.exchange ∈ own i (between ++ first :: earlier) := by
    rw [own_append, ← member', own_cons_self]
    simp
  cases (unmet _ mem).symm.trans meets

/-- A call that gives up has spent its tries or lost its record. -/
theorem fruitless (run : Run faulty (Job.crew jobs) start history m) (h : start.Sound)
    (contended : Contended faulty history) (mine : (jobs i).protocol.key = key)
    (registers : (jobs i).registers = true) {attempts : Nat} {e : SyncError}
    (fruitless : Fruitless key attempts (own i history) e) :
    (e = .retriesExhausted key attempts ∧ Uncommitted (own i history) ∧
      ¬ Vanished jobs key i history) ∨
    (e = .store (.notFound key) ∧ Vanished jobs key i history) := by
  generalize split : own i history = all at fruitless
  cases fruitless with
  | exhausted none =>
    exact .inl ⟨rfl, split ▸ none.cons rfl, run.not_vanished_of_got split⟩
  | @refused c error before final met =>
    have missing (later : List Move) (mv : Move) (earlier : List Move)
        (parts : history = later ++ mv :: earlier) (member : mv.member = i)
        (same : mv.exchange = ⟨.store c, .error error⟩) :
        error = .notFound key ∧ mv.before.records.get? key = none ∧ ∀ r, c ≠ .create r := by
      subst parts member
      exact mine ▸ run.upto_move.missing_of_final h
        (contended.of_suffix (List.suffix_append ..)) registers same final
    obtain ⟨later, mv, earlier, parts, member, same, _, _⟩ := exists_latest_own split
    obtain ⟨rfl, _, read⟩ := missing later mv earlier parts member same
    obtain ⟨r, creates⟩ | met := met rfl
    · exact absurd creates (read r)
    · refine .inr ⟨rfl, run.vanished h contended mine split met ?_⟩
      exact fun later mv earlier parts member same _ =>
        (missing later mv earlier parts member same).2.1

end Run

/-! ## What is told -/

/-- What a call says that ends with a result: that all is done, that it has spent its tries and
changed nothing, or that there is no record. That it says iff it has lost the record. -/
structure Replied {β : Type} (jobs : Nat → Job) (key : String) (attempts i : Nat)
    (history : List Move) (Done : β → Prop) (result : Except SyncError β) : Prop where
  done : ∀ b, result = .ok b → Done b
  spent : ∀ e, result = .error e → e ≠ .store (.notFound key) →
    e = .retriesExhausted key attempts ∧ Uncommitted (own i history)
  lost : result = .error (.store (.notFound key)) ↔ Vanished jobs key i history

namespace Registry

/-- A registration has answered with the version that it read last. Its contribution is in that
version or in one that it has written itself. -/
def Stands (key : String) (source : Contribution) (i : Nat) (history : List Move) (r : Record) :
    Prop :=
  lastRead (own i history) = some r ∧ ∃ mv ∈ history, mv.member = i ∧ ∃ w,
    mv.after.records.get? key = some w ∧ w.sourceFor source.owner = some source ∧
      (mv.exchange.commits key = true ∨ w = r)

/-- A member has taken the contribution of an owner back. -/
def TookBack (key : String) (owner : Owner) (i : Nat) (history : List Move) : Prop :=
  ∃ mv ∈ history, mv.member = i ∧ mv.Withdraws key owner

end Registry

namespace Job

/-- What the requests of a job come to. -/
def Concludes : (j : Job) → List Exchange → j.Result → Prop
  | .register policy key template source =>
    Registry.Established key template source policy.maxAttempts
  | .unregister policy key owner => Registry.Retracted key owner policy.maxAttempts
  | .requestDeletion .. | .reconcile .. => fun _ _ => True

/-- What a job that a member has ended tells. -/
def Tells (jobs : Nat → Job) (i : Nat) (history : List Move) : (j : Job) → j.Result → Prop
  | .register policy key _ source, result =>
    Replied jobs key policy.maxAttempts i history (Registry.Stands key source i history) result
  | .unregister policy key owner, result =>
    Replied jobs key policy.maxAttempts i history
      (fun removed => removed = true ↔ Registry.TookBack key owner i history) result ∧
    (Registry.TookBack key owner i history →
      (result = .ok true ↔ ¬ Vanished jobs key i history))
  | .requestDeletion .., _ | .reconcile .., _ => True

theorem concludes (j : Job) : j.program.Ensures (fun _ _ => True) j.Concludes [] := by
  cases j with
  | register policy key template source => exact Registry.register_established template source
  | unregister policy key owner => exact Registry.unregister_retracted owner
  | requestDeletion | reconcile =>
    exact Program.ensures_of_forall (fun _ _ => trivial) fun _ _ => trivial

end Job

theorem Registry.sourceFor_contribute (source : Contribution) (r : Record) :
    (contribute source r).sourceFor source.owner = some source := by
  rw [Record.sourceFor, contribute_sources, find?_upsert, if_pos rfl]

/-- A granted write is the only one if none was granted before or after it. -/
theorem Uncommitted.unique {since since' before before' : List Exchange} {x y : Exchange}
    (split : since ++ x :: before = since' ++ y :: before') (committed : x.isCommit = true)
    (after : Uncommitted since') (none : Uncommitted before') : x = y ∧ before = before' := by
  induction since generalizing since' with
  | nil =>
    cases since' with
    | nil => exact List.cons.inj split
    | cons z since' =>
      obtain ⟨rfl, _⟩ := List.cons.inj split
      cases (after x (.head _)).symm.trans committed
  | cons z since ih =>
    cases since' with
    | nil =>
      obtain ⟨_, rfl⟩ := List.cons.inj split
      cases (none x (by simp)).symm.trans committed
    | cons z' since' =>
      exact ih (List.cons.inj split).2 fun w hw => after w (.tail _ hw)

theorem Move.Withdraws.isCommit {owner : Owner}
    (serves : Serves faulty mv.before mv.exchange.request mv.exchange.answer mv.after)
    (h : mv.Withdraws key owner) : mv.exchange.isCommit = true := by
  cases committed : mv.exchange.isCommit with
  | true => rfl
  | false =>
    have same := serves.same committed
    have gone := h.unregistered
    obtain ⟨v, _, stored, _, present, _⟩ := h
    exact absurd ⟨v, same ▸ stored, present⟩ gone

namespace Run

variable {owner : Owner} {source : Contribution} {template : Template} {attempts : Nat}

/-- A registration that ends well has entered its contribution or found it. -/
theorem stands (run : Run faulty (Job.crew jobs) start history m) (h : start.Sound)
    (mine : (jobs i).protocol.key = key) {r : Record}
    (established : Registry.Established key template source attempts (own i history) (.ok r)) :
    Registry.Stands key source i history r ∧ ¬ Vanished jobs key i history := by
  generalize split : own i history = all at established
  have got {x : Exchange} {past : List Exchange} (split : own i history = x :: past)
      (read : x.read? = some r) : ∃ mv ∈ history, mv.member = i ∧ mv.exchange = x ∧
        mv.after.records.get? key = some r ∧
        Serves faulty mv.before x.request x.answer mv.after := by
    obtain ⟨later, mv, earlier, rfl, rfl, rfl, _, _⟩ := exists_latest_own split
    have reads : Reads mv.member r (mv :: earlier) := ⟨mv, earlier, rfl, rfl, read⟩
    have stored := run.upto_move.stored_of_reads h reads
    rw [run.upto_move.key_of_reads h reads, mine] at stored
    exact ⟨mv, by simp, rfl, rfl, stored, run.upto_move.last.2.1⟩
  cases established with
  | @created now _ before unmet =>
    obtain ⟨mv, hmv, member, _, stored, serves⟩ := got split rfl
    have has : r.sourceFor source.owner = some source := by
      generalize mv.after = after at serves
      cases Serves.granted serves with
      | create => simp [Record.sourceFor, Template.instantiate]
    refine ⟨⟨?_, mv, hmv, member, r, stored, has, .inr rfl⟩, not_vanished_of_unmet split unmet⟩
    rw [split]
    rfl
  | found there =>
    obtain ⟨mv, hmv, member, _, stored, _⟩ := got split rfl
    have has : r.sourceFor source.owner = some source := by simpa [Record.lacks] using there
    refine ⟨⟨?_, mv, hmv, member, r, stored, has, .inr rfl⟩, run.not_vanished_of_got split⟩
    rw [split]
    rfl
  | @entered v _ token before read =>
    refine ⟨⟨by rw [split]; rfl, ?_⟩, run.not_vanished_of_got split⟩
    obtain ⟨later, mv, earlier, rfl, rfl, edit, _, _⟩ := exists_previous_own split
    obtain ⟨hkey, _, w, _, _, stored, sources⟩ := run.upto_move.edited h mine edit
    have has : w.sourceFor source.owner = some source := by
      rw [Record.sourceFor, sources]
      exact Registry.sourceFor_contribute source v
    refine ⟨mv, by simp, rfl, w, stored, has, .inl ?_⟩
    simp [edit, Exchange.commits, hkey]

/-- A withdrawal whose only granted write has made it has taken something back iff there was
something of the owner in the version that it was made of. -/
theorem tookBack_iff (run : Run faulty (Job.crew jobs) start history m) (h : start.Sound)
    (mine : (jobs i).protocol.key = key) {v r : Record} {token : Nat} {before : List Exchange}
    (split : own i history = ⟨.store (.get key), .ok r⟩ ::
      ⟨.store (.update (Registry.withdraw owner v).1), .ok token⟩ :: before)
    (read : lastRead before = some v) (none : Uncommitted before) :
    Registry.TookBack key owner i history ↔ (v.sourceFor owner).isSome = true := by
  constructor
  · rintro ⟨mv, hmv, rfl, withdraws⟩
    obtain ⟨later, earlier, rfl⟩ := List.append_of_mem hmv
    have parts : own mv.member (later ++ mv :: earlier) = [⟨.store (.get key), .ok r⟩] ++
        ⟨.store (.update (Registry.withdraw owner v).1), .ok token⟩ :: before := split
    rw [own_append, own_cons_self] at parts
    have got : Uncommitted [⟨.store (.get key), .ok r⟩] := by
      simp [Uncommitted, Exchange.isCommit, Store.Call.event?]
    obtain ⟨edit, prior⟩ :=
      Uncommitted.unique parts (withdraws.isCommit run.upto_move.last.2.1) got none
    obtain ⟨_, v', w, read', old, _⟩ := run.upto_move.edited h mine edit
    obtain rfl : v = v' := Option.some.inj (read.symm.trans (prior ▸ read'))
    obtain ⟨u, _, stored, _, present, _⟩ := withdraws
    obtain rfl : u = v := Option.some.inj (stored.symm.trans old)
    exact present
  · intro present
    obtain ⟨later, mv, earlier, rfl, rfl, edit, _, rfl⟩ := exists_previous_own split
    obtain ⟨_, v', w, read', old, new, sources⟩ := run.upto_move.edited h mine edit
    obtain rfl : v = v' := Option.some.inj (read.symm.trans read')
    exact ⟨mv, by simp, rfl, v, w, old, new, present,
      sources.trans (Registry.withdraw_sources owner v)⟩

/-- A withdrawal that ends well says whether something was taken back. -/
theorem retracts (run : Run faulty (Job.crew jobs) start history m) (h : start.Sound)
    (mine : (jobs i).protocol.key = key) {removed : Bool}
    (retracted : Registry.Retracted key owner attempts (own i history) (.ok removed)) :
    (removed = true ↔ Registry.TookBack key owner i history) ∧
      ¬ Vanished jobs key i history := by
  generalize split : own i history = all at retracted
  have took_none {x : Exchange} (split : own i history = [x]) (none : x.isCommit = false) :
      ¬ Registry.TookBack key owner i history := by
    rintro ⟨mv, hmv, rfl, withdraws⟩
    obtain ⟨later, earlier, rfl⟩ := List.append_of_mem hmv
    have mem : mv.exchange ∈ own mv.member (later ++ mv :: earlier) := by simp [own]
    rw [split] at mem
    obtain rfl := List.mem_singleton.1 mem
    cases none.symm.trans (withdraws.isCommit run.upto_move.last.2.1)
  cases retracted with
  | absent =>
    refine ⟨iff_of_false (by simp) (took_none split rfl), not_vanished_of_unmet split ?_⟩
    intro y hy
    cases hy
  | nothing =>
    exact ⟨iff_of_false (by simp) (took_none split rfl), run.not_vanished_of_got split⟩
  | tried read none =>
    refine ⟨?_, run.not_vanished_of_got split⟩
    rw [run.tookBack_iff h mine split read none]
    simp [Registry.withdraw, apply_ite]

end Run

namespace Replied

variable {β : Type} {Done : β → Prop} {attempts : Nat}

theorem of_done {b : β} (done : Done b) (there : ¬ Vanished jobs key i history) :
    Replied jobs key attempts i history Done (.ok b) where
  done := by
    rintro _ ⟨⟩
    exact done
  spent := by
    rintro _ ⟨⟩
  lost := iff_of_false (by simp) there

theorem of_fruitless {e : SyncError}
    (cause : (e = .retriesExhausted key attempts ∧ Uncommitted (own i history) ∧
      ¬ Vanished jobs key i history) ∨
      (e = .store (.notFound key) ∧ Vanished jobs key i history)) :
    Replied jobs key attempts i history Done (.error e) where
  done := by
    rintro _ ⟨⟩
  spent := by
    rintro _ ⟨⟩ other
    obtain ⟨exhausted, none, _⟩ | ⟨lost, _⟩ := cause
    · exact ⟨exhausted, none⟩
    · exact absurd lost other
  lost := by
    obtain ⟨rfl, _, there⟩ | ⟨rfl, vanished⟩ := cause
    · exact iff_of_false (by simp) there
    · exact iff_of_true rfl vanished

end Replied

theorem Run.tells (run : Run faulty (Job.crew jobs) start history m) (h : start.Sound)
    (contended : Contended faulty history) {j : Job} (job : jobs i = j) {result : j.Result}
    (concludes : j.Concludes (own i history) result) : j.Tells jobs i history result := by
  have mine : (jobs i).protocol.key = j.protocol.key := by rw [job]
  cases j with
  | register policy key template source =>
    have registers : (jobs i).registers = true := by rw [job]; rfl
    cases result with
    | ok r =>
      obtain ⟨stands, there⟩ := run.stands h mine concludes
      exact .of_done stands there
    | error e =>
      exact .of_fruitless (run.fruitless h contended mine registers concludes.fruitless)
  | unregister policy key owner =>
    have registers : (jobs i).registers = true := by rw [job]; rfl
    cases result with
    | ok removed =>
      obtain ⟨took, there⟩ := run.retracts h mine concludes
      refine ⟨.of_done took there, fun tookBack => ?_⟩
      exact iff_of_true (congrArg Except.ok (took.2 tookBack)) there
    | error e =>
      have cause := run.fruitless h contended mine registers concludes.fruitless
      refine ⟨.of_fruitless cause, ?_⟩
      rintro ⟨mv, hmv, rfl, withdraws⟩
      obtain ⟨_, none, _⟩ | ⟨_, vanished⟩ := cause
      · obtain ⟨later, earlier, rfl⟩ := List.append_of_mem hmv
        have committed := withdraws.isCommit run.upto_move.last.2.1
        cases (none mv.exchange (by simp [own])).symm.trans committed
      · exact iff_of_false (by simp) fun there => there vanished
  | requestDeletion | reconcile => trivial

/-- Over a store that fails only by conflicts, a registration or a withdrawal that ends well has
done what it says. If not, it has spent its tries and changed nothing, or it says that there is no
record: that is so iff a pass has deleted the record since the member met it, whatever the
member had done to it. -/
theorem Run.replies (run : Run faulty (Job.crew jobs) start history m) (h : start.Sound)
    (contended : Contended faulty history) {result : (jobs i).Result}
    (left : (jobs i).program.Leaves (own i history) (.done result)) :
    (jobs i).Tells jobs i history result :=
  run.tells h contended rfl (run.ended h (i := i) left (jobs i).concludes)

/-- `a` leaves and `b` joins while a pass looks at the record. -/
def parting : Nat → Job := Job.roster [.joins "a", .leaves "a", .joins "b", .looks]

/-- The withdrawal of `a` has been entered, and `b` has read the record, when the pass deletes it.
Then `a` asks for the record and `b` writes to it. -/
def dissolution : Scene (Job.crew parting) :=
  (Scene.opening (Job.crew parting) {}).play {} [0, 0, 0, 1, 2, 1, 3, 3, 3, 3, 3, 1, 2]

theorem dissolution_withdrawn :
    Registry.TookBack "r" ⟨"App", "ns", "a"⟩ 1 dissolution.history :=
  ⟨_, List.mem_of_getElem? (i := 7) rfl, rfl, _, _, rfl, rfl, by decide, by decide⟩

theorem dissolution_replies :
    Vanished parting "r" 1 dissolution.history ∧ Vanished parting "r" 2 dissolution.history := by
  have run : Run (fun _ => False) (Job.crew parting) {} dissolution.history dissolution.memory :=
    (Scene.real_play _).run
  have contended : Contended (fun _ => False) dissolution.history :=
    ⟨fun _ fault => fault.elim, by decide +kernel⟩
  have real : Scene.Real (fun _ => False) {} dissolution := Scene.real_play _
  have left₁ : (parting 1).program.Leaves (own 1 dissolution.history)
      (.done (.error (.store (.notFound "r")) : Except SyncError Bool)) := real.left 1
  have left₂ : (parting 2).program.Leaves (own 2 dissolution.history)
      (.done (.error (.store (.notFound "r")) : Except SyncError Record)) := real.left 2
  have withdrawal := run.replies Memory.sound_empty contended left₁
  have registration := run.replies Memory.sound_empty contended left₂
  exact ⟨withdrawal.1.lost.1 rfl, registration.lost.1 rfl⟩

/-- Both are told that there is no record, although the withdrawal has been made and `b` could
create a new one. -/
theorem dissolution_unacknowledged :
    (dissolution.left 1 : Program (Except SyncError Bool)) =
      .done (.error (.store (.notFound "r"))) ∧
    Registry.TookBack "r" ⟨"App", "ns", "a"⟩ 1 dissolution.history ∧
    (dissolution.left 2 : Program (Except SyncError Record)) =
      .done (.error (.store (.notFound "r"))) ∧
    dissolution.memory.records.get? "r" = none :=
  ⟨rfl, dissolution_withdrawn, rfl, rfl⟩

end Tributary
