import Tributary.Proofs.Replies

/-!
# Requests for deletion

Who asks for the deletion of a record first looks whether somebody else has asked already. That
look is not repeated when the write meets a conflict: a request that began before another one was
entered is entered as well, and counts the generation up once more although nothing changes
(`eagerness_twice`). So each request that says that it is new has been entered once, and it repeats
another one exactly if that one was entered after the look (`Run.condemned`).
-/

namespace Tributary

theorem Program.Ensures.both {α : Type} {asks₁ asks₂ asks : List Exchange → Request → Prop}
    {ends₁ ends₂ ends : List Exchange → α → Prop} {p : Program α} {past : List Exchange}
    (h₁ : p.Ensures asks₁ ends₁ past) (h₂ : p.Ensures asks₂ ends₂ past)
    (asked : ∀ past q, asks₁ past q → asks₂ past q → asks past q)
    (ended : ∀ past a, ends₁ past a → ends₂ past a → ends past a) : p.Ensures asks ends past := by
  induction p generalizing past with
  | done a => exact ended past a h₁ h₂
  | ask q next ih =>
    exact ⟨asked past q h₁.1 h₂.1, fun a honest => ih a (h₁.2 a honest) (h₂.2 a honest)⟩

namespace Registry

variable {policy : RetryPolicy} {key : String}

/-- A request writes what it makes of the version that it has read last, if it has found its record
not condemned and has not written yet. -/
def Condemning (key : String) (past : List Exchange) (q : Request) : Prop :=
  q.isWrite = true → ∃ r since v, past = since ++ [⟨.store (.get key), .ok r⟩] ∧
    r.deletionRequested = false ∧ Uncommitted past ∧ lastRead past = some v ∧ v.key = key ∧
    q = .store (.update (condemn v))

/-- How a request for deletion ends: there is no record, or it is condemned already, or it has been
condemned by this request. -/
inductive Requested (key : String) (attempts : Nat) :
    List Exchange → Except SyncError Bool → Prop
  | absent {k : String} :
      Requested key attempts [⟨.store (.get key), .error (.notFound k)⟩] (.ok false)
  | already {r : Record} (requested : r.deletionRequested = true) :
      Requested key attempts [⟨.store (.get key), .ok r⟩] (.ok false)
  | entered {v r : Record} {token : Nat} {before : List Exchange} :
      Requested key attempts
        (⟨.store (.get key), .ok r⟩ :: ⟨.store (.update (condemn v)), .ok token⟩ :: before)
        (.ok true)
  | failed {e : SyncError} {past : List Exchange} (fruitless : Fruitless key attempts past e) :
      Requested key attempts past (.error e)

theorem requestDeletion_condemns :
    (requestDeletion policy key).Ensures (Condemning key) (Requested key policy.maxAttempts)
      [] := by
  have none : Uncommitted [] := by simp [Uncommitted]
  refine (Program.ensures_request _ _ _).2 ⟨fun write => absurd write Bool.false_ne_true, ?_⟩
  intro a honest
  cases a with
  | error error =>
    cases error with
    | notFound => exact .absent
    | _ => exact .failed (.refused rfl fun missing => by cases missing)
  | ok r =>
    dsimp only
    split
    · next requested => exact .already requested
    · next new =>
      rw [Session.ensures_start]
      have keeps (r : Record) : (condemn r, ()).1.key = r.key := rfl
      have got : Uncommitted [⟨.store (.get key), .ok r⟩] := none.cons rfl
      have asks : Session.Ensures (Update.Asks policy .spec _ r.key _) (Update.Ends .spec _ _)
          (Update.changing policy .spec _) r [⟨.store (.get key), .ok r⟩] :=
        Update.tries_ensures keeps [] policy.maxAttempts rfl none (by simp [writes])
      have ends : Session.Ensures _ (Update.Concludes _ key policy.maxAttempts)
          (Update.changing policy .spec _) r [⟨.store (.get key), .ok r⟩] :=
        Update.changing_concludes keeps honest rfl got ⟨_, .head _, rfl⟩
      refine Program.Ensures.both asks ends ?_ ?_
      · rintro past q ⟨since, rfl, written⟩ - write
        obtain ⟨-, uncommitted, v, read, same, rfl⟩ := written write
        refine ⟨r, since, v, rfl, by simpa using new, ?_, read, same.trans honest, rfl⟩
        intro x hx
        exact (List.mem_append.1 hx).elim (uncommitted x) (got x)
      · rintro past ⟨result, copy⟩ - concluded
        cases result with
        | ok =>
          obtain ⟨v, token, before, rfl, -⟩ := concluded
          exact .entered
        | error e => exact .failed concluded

end Registry

/-! ## What a request commits -/

namespace Job

/-- A job that asks for the deletion of a record. -/
def condemns (key : String) : Job → Bool
  | .requestDeletion _ k => k = key
  | _ => false

variable {j : Job} {past : List Exchange} {key : String} {x : Exchange} {v w : Record}

theorem condemning (h : j.condemns key = true) :
    j.program.Ensures (Registry.Condemning key) (fun _ _ => True) [] := by
  cases j with
  | requestDeletion policy k =>
    obtain rfl : k = key := of_decide_eq_true h
    exact Registry.requestDeletion_condemns.mono fun _ _ _ => trivial
  | register | unregister | reconcile => cases h

theorem edits_condemn (h : j.protocol.edits past v w) (mine : j.protocol.key = key) :
    (w.deletionRequested = true ↔ v.deletionRequested = true ∨ j.condemns key = true) := by
  cases j with
  | register policy k template source =>
    obtain rfl : w = Registry.contribute source v := h
    unfold Registry.contribute
    split <;> simp [condemns, Record.upsertSource]
  | unregister policy k owner =>
    obtain rfl : w = (Registry.withdraw owner v).1 := h
    unfold Registry.withdraw
    split <;> simp [condemns, Record.removeSource]
  | requestDeletion policy k =>
    obtain rfl : w = Registry.condemn v := h
    have asks : condemns key (.requestDeletion policy k) = true := decide_eq_true mine
    simp [asks, Registry.condemn]
  | reconcile e k => simp [condemns, (Pass.Edits.agrees h).deletionRequested]

/-- Only requests for deletion condemn a record, and nobody takes that back. -/
theorem commit_condemns (h : Commit j.protocol past key x (some v) (some w)) :
    (w.deletionRequested = true ↔ v.deletionRequested = true ∨
      (j.condemns key = true ∧ x.commits key = true)) := by
  cases h with
  | kept none => simp [none]
  | @edited _ r token now mine hkey read edits =>
    have granted : Exchange.commits key ⟨.store (.update r), .ok token⟩ = true :=
      decide_eq_true hkey
    have made := edits_condemn edits mine
    rw [granted, and_iff_left rfl]
    exact made
  | marked token mine hkey read marks =>
    cases j with
    | reconcile e k => simp [condemns, Record.statusUpdated]
    | register | unregister | requestDeletion => exact marks.elim

end Job

theorem isCommit_of_commits {x : Exchange} {key : String} (h : x.commits key = true) :
    x.isCommit = true := by
  unfold Exchange.commits at h
  split at h
  all_goals first | rfl | cases h

/-- A request for deletion is entered: the stored version is condemned at a new generation, and
apart from its token and its stamp nothing else of it changes. -/
def Move.Condemns (jobs : Nat → Job) (key : String) (mv : Move) (v : Record) : Prop :=
  (jobs mv.member).condemns key = true ∧ mv.before.records.get? key = some v ∧
    ∃ token now, mv.after.records.get? key =
      some { v with
        deletionRequested := true, generation := v.generation + 1, token, updatedAt := now }

variable {faulty : StoreError → Prop} {jobs : Nat → Job} {start m : Memory}
  {history earlier later : List Move} {mv : Move} {key : String} {i : Nat} {v w : Record}

namespace Run

/-- In the life of a record it is condemned iff it was before or somebody has asked for its
deletion since. -/
theorem condemned_iff (run : Run faulty (Job.crew jobs) start (later ++ earlier) m)
    (h : start.Sound) (found : (memoryAfter start earlier).records.get? key = some v)
    (undeleted : Undeleted key later) (stored : m.records.get? key = some w) :
    (w.deletionRequested = true ↔ v.deletionRequested = true ∨
      ∃ x ∈ later, (jobs x.member).condemns key = true ∧ x.exchange.commits key = true) := by
  induction later generalizing m w with
  | nil =>
    rw [run.memory_eq] at stored
    obtain rfl : v = w := Option.some.inj (found.symm.trans stored)
    simp
  | cons mv later ih =>
    have before := run.last.1
    have undeleted' : Undeleted key later := fun x hx => undeleted x (.tail _ hx)
    obtain ⟨u, stored', -⟩ := before.lineage h found undeleted'
    have committed := run.committed h key
    rw [run.memory_eq] at stored
    rw [stored', show mv.after.records.get? key = some w from stored] at committed
    rw [Job.commit_condemns committed, ih before undeleted' stored', or_assoc]
    simp only [List.mem_cons, exists_eq_or_imp, or_comm]

/-- What a member that asks for a deletion has done when it writes. -/
theorem condemning (run : Run faulty (Job.crew jobs) start (mv :: earlier) m) (h : start.Sound)
    (asks : (jobs mv.member).condemns key = true) (granted : mv.exchange.isCommit = true) :
    ∃ r since v, own mv.member earlier = since ++ [⟨.store (.get key), .ok r⟩] ∧
      r.deletionRequested = false ∧ Uncommitted (own mv.member earlier) ∧
      mv.Condemns jobs key v := by
  obtain ⟨r, since, v, first, new, none, read, rfl, written⟩ :=
    run.asked h rfl (Job.condemning asks) (isWrite_of_isCommit granted)
  have replaces : mv.Replaces .spec (fun r => (Registry.condemn r, ())) v.key v :=
    run.replaces h ⟨rfl, rfl⟩ read written granted
  obtain ⟨now, made⟩ := replaces.made
  exact ⟨r, since, v, first, new, none, asks, replaces.stored, _, now, made⟩

theorem condemns_iff (run : Run faulty (Job.crew jobs) start (mv :: earlier) m) (h : start.Sound) :
    (∃ v, mv.Condemns jobs key v) ↔
      (jobs mv.member).condemns key = true ∧ mv.exchange.commits key = true := by
  constructor
  · rintro ⟨v, asks, stored, token, now, made⟩
    have committed := run.committed h key
    rw [stored, made] at committed
    refine ⟨asks, ?_⟩
    generalize hw : { v with
      deletionRequested := true, generation := v.generation + 1, token, updatedAt := now } = w
      at committed
    generalize mv.exchange = x at committed ⊢
    cases committed with
    | kept =>
      have same := congrArg Record.generation hw
      simp at same
    | edited _ _ _ hkey | marked _ _ hkey => exact decide_eq_true hkey
  · rintro ⟨asks, granted⟩
    obtain ⟨_, _, v, _, _, _, condemns⟩ := run.condemning h asks (isCommit_of_commits granted)
    exact ⟨v, condemns⟩

/-- A member that enters a request has looked at its record first, when it was not condemned. -/
theorem looked (run : Run faulty (Job.crew jobs) start (mv :: earlier) m) (h : start.Sound)
    (condemns : mv.Condemns jobs key v) :
    ∃ after first past r, earlier = after ++ first :: past ∧ first.member = mv.member ∧
      own mv.member past = [] ∧ first.after.records.get? key = some r ∧
      r.deletionRequested = false := by
  obtain ⟨asks, granted⟩ := (run.condemns_iff h).1 ⟨v, condemns⟩
  obtain ⟨r, since, -, look, new, -⟩ := run.condemning h asks (isCommit_of_commits granted)
  obtain ⟨after, first, past, rfl, member, read, -, none⟩ := exists_of_own look
  refine ⟨after, first, past, r, rfl, member, none, ?_, new⟩
  obtain ⟨-, serves, -⟩ := run.last.1.upto_move.last
  obtain ⟨i, x, old, new⟩ := first
  obtain rfl : x = _ := read
  cases Serves.granted serves with
  | get found => exact found

variable {since before : List Move} {x : Move}

/-- Once a request has been entered, the record stays condemned. -/
theorem condemned_after (run : Run faulty (Job.crew jobs) start (since ++ x :: before) m)
    (h : start.Sound) (undeleted : Undeleted key since) (condemns : x.Condemns jobs key v)
    (stored : m.records.get? key = some w) : w.deletionRequested = true := by
  obtain ⟨-, -, _, _, made⟩ := condemns
  exact (run.condemned_iff h made undeleted stored).2 (.inl rfl)

/-- A request that is entered after another one has looked at the record before that. -/
theorem overlaps (run : Run faulty (Job.crew jobs) start (mv :: (since ++ x :: before)) m)
    (h : start.Sound) (undeleted : Undeleted key since) (condemns : mv.Condemns jobs key v)
    (first : x.Condemns jobs key w) : own mv.member before ≠ [] := by
  intro late
  obtain ⟨asks, granted⟩ := (run.condemns_iff h).1 ⟨v, condemns⟩
  obtain ⟨-, -, -, -, -, none, -⟩ := run.condemning h asks (isCommit_of_commits granted)
  have entered := (run.last.1.upto_move.condemns_iff h).1 ⟨w, first⟩
  -- The other request is not its own: it has not written before.
  have other : x.member ≠ mv.member := fun same => by
    have mem : x.exchange ∈ own mv.member (since ++ x :: before) := by simp [own, same]
    cases (none _ mem).symm.trans (isCommit_of_commits entered.2)
  have late' : own mv.member (x :: before) = [] := (own_cons_of_ne other before).trans late
  obtain ⟨after, look, past, r, split, member, -, stored, new⟩ := run.looked h condemns
  obtain ⟨between, -, rest⟩ | ⟨between, rfl, rest⟩ := List.append_eq_append_iff.1 split
  · rw [rest, own_append, ← member, own_cons_self] at late'
    simp at late'
  · cases between with
    | nil =>
      obtain ⟨rfl, -⟩ := List.cons.inj rest
      exact other member
    | cons y between =>
      obtain ⟨rfl, rfl⟩ := List.cons.inj rest
      have upto :
          Run faulty (Job.crew jobs) start ((look :: between) ++ x :: before) look.after := by
        have run' := run.last.1
        rw [List.append_assoc] at run'
        exact run'.upto_move
      have undeleted' : Undeleted key (look :: between) := fun y hy => undeleted y (by simp_all)
      cases new.symm.trans (upto.condemned_after h undeleted' first stored)

/-- A request repeats another one iff that has been entered since it looked at the record. -/
theorem repeats_iff (run : Run faulty (Job.crew jobs) start (mv :: earlier) m) (h : start.Sound)
    (undeleted : Undeleted key earlier) (condemns : mv.Condemns jobs key v) :
    v.deletionRequested = true ↔ ∃ since x before w, earlier = since ++ x :: before ∧
      x.Condemns jobs key w ∧ own mv.member before ≠ [] := by
  constructor
  · intro already
    obtain ⟨after, look, past, r, rfl, member, -, stored, new⟩ := run.looked h condemns
    have undeleted' : Undeleted key after := fun x hx => undeleted x (by simp [hx])
    have cause := (run.last.1.condemned_iff h stored undeleted' condemns.2.1).1 already
    obtain ⟨x, mem, entered⟩ := cause.resolve_left (by simp [new])
    obtain ⟨since, before, rfl⟩ := List.append_of_mem mem
    have run' := run.last.1
    rw [List.append_assoc] at run'
    obtain ⟨w, first⟩ := (run'.upto_move.condemns_iff h).2 entered
    refine ⟨since, x, before ++ look :: past, w, by simp, first, ?_⟩
    rw [own_append, ← member, own_cons_self]
    simp
  · rintro ⟨since, x, before, w, rfl, first, -⟩
    have undeleted' : Undeleted key since := fun y hy => undeleted y (by simp [hy])
    exact run.last.1.condemned_after h undeleted' first condemns.2.1

end Run

/-! ## What a request answers -/

/-- Whether a request has said that it is new, and if not, that it has changed nothing. -/
def Job.Acknowledges (jobs : Nat → Job) (key : String) (i : Nat) (history : List Move) :
    (j : Job) → j.Result → Prop
  | .requestDeletion policy k, result => k = key →
    (result = .ok true ∧ ∃ mv ∈ history, mv.member = i ∧ ∃ v, mv.Condemns jobs key v) ∨
    ((result = .ok false ∨ result = .error (.retriesExhausted key policy.maxAttempts)) ∧
      Uncommitted (own i history))
  | .register .., _ | .unregister .., _ | .reconcile .., _ => True

/-- What requests for deletion do to a record while it is there, and what they answer. -/
structure Condemned (jobs : Nat → Job) (key : String) (history : List Move) : Prop where
  /-- A request writes at most once, and what it writes condemns the stored version: that raises the
  generation by one and changes nothing else. -/
  entered : ∀ later mv earlier, history = later ++ mv :: earlier →
    (jobs mv.member).condemns key = true → mv.exchange.isCommit = true →
      (∃ v, mv.Condemns jobs key v) ∧ Uncommitted (own mv.member earlier)
  /-- That version was condemned already iff another request has been entered since this one looked
  at the record for the first time. -/
  repeated : ∀ later mv earlier v, history = later ++ mv :: earlier → mv.Condemns jobs key v →
    (v.deletionRequested = true ↔ ∃ since x before w, earlier = since ++ x :: before ∧
      x.Condemns jobs key w ∧ own mv.member before ≠ [])
  /-- Of two requests that are entered the second one is such a repetition: none that looks after
  one has been entered is entered any more. -/
  overlapping : ∀ later mv since x before v w, history = later ++ mv :: (since ++ x :: before) →
    mv.Condemns jobs key v → x.Condemns jobs key w →
      v.deletionRequested = true ∧ own mv.member before ≠ []
  /-- A request that has ended says that it is new iff it has been entered. -/
  answered : ∀ i (result : (jobs i).Result),
    (jobs i).program.Leaves (own i history) (.done result) →
      (jobs i).Acknowledges jobs key i history result

theorem Job.requested (policy : RetryPolicy) (key : String) :
    (Job.requestDeletion policy key).program.Ensures (fun _ _ => True)
      (Registry.Requested key policy.maxAttempts) [] :=
  Registry.requestDeletion_condemns.both Registry.requestDeletion_condemns (fun _ _ _ _ => trivial)
    fun _ _ ended _ => ended

namespace Run

theorem not_vanished (undeleted : Undeleted key history) : ¬ Vanished jobs key i history := by
  rintro ⟨after, last, between, first, earlier, rfl, -, -, -, -, -, mv, mem, -, removes⟩
  cases (undeleted mv (by simp [mem])).symm.trans removes

theorem acknowledges (run : Run faulty (Job.crew jobs) start history m) (h : start.Sound)
    (contended : Contended faulty history) (undeleted : Undeleted key history) {j : Job}
    (job : jobs i = j) {result : j.Result}
    (left : j.program.Leaves (own i history) (.done result)) :
    j.Acknowledges jobs key i history result := by
  cases j with
  | register | unregister | reconcile => trivial
  | requestDeletion policy k =>
    rintro rfl
    have mine : (jobs i).protocol.key = k := by rw [job]; rfl
    have registers : (jobs i).registers = true := by rw [job]; rfl
    have asks : (jobs i).condemns k = true := by rw [job]; exact decide_eq_true rfl
    have ends := left.ensures (run.honest h i) (Job.requested policy k)
    generalize split : own i history = all at ends
    cases ends with
    | absent | already =>
      exact .inr ⟨.inl rfl, by simp [Uncommitted, Exchange.isCommit, Store.Call.event?]⟩
    | entered =>
      obtain ⟨later, mv, earlier, rfl, rfl, edit, -⟩ := exists_previous_own split
      have granted : mv.exchange.isCommit = true := by rw [edit]; rfl
      obtain ⟨-, -, v, -, -, -, condemns⟩ := run.upto_move.condemning h asks granted
      exact .inl ⟨rfl, mv, by simp, rfl, v, condemns⟩
    | failed fruitless =>
      rw [← split] at fruitless
      obtain ⟨rfl, none, -⟩ | ⟨-, vanished⟩ := run.fruitless h contended mine registers fruitless
      · exact .inr ⟨.inr rfl, split ▸ none⟩
      · exact absurd vanished (not_vanished undeleted)

/-- Over a store that fails only by conflicts and while the record is there, each request for its
deletion that says that it is new has raised the generation by one. It was not the first to do so
iff another one has been entered since it looked at the record. All others have changed nothing. -/
theorem condemned (run : Run faulty (Job.crew jobs) start history m) (h : start.Sound)
    (contended : Contended faulty history) (undeleted : Undeleted key history) :
    Condemned jobs key history where
  entered := by
    rintro later mv earlier rfl asks granted
    obtain ⟨-, -, v, -, -, none, condemns⟩ := run.upto_move.condemning h asks granted
    exact ⟨⟨v, condemns⟩, none⟩
  repeated := by
    rintro later mv earlier v rfl condemns
    have undeleted' : Undeleted key earlier := fun x hx => undeleted x (by simp [hx])
    exact run.upto_move.repeats_iff h undeleted' condemns
  overlapping := by
    rintro later mv since x before v w rfl condemns first
    have undeleted' : Undeleted key since := fun y hy => undeleted y (by simp [hy])
    exact ⟨run.upto_move.last.1.condemned_after h undeleted' first condemns.2.1,
      run.upto_move.overlaps h undeleted' condemns first⟩
  answered i result left := run.acknowledges h contended undeleted rfl left

end Run

/-- `a` registers, and three ask for the deletion of the record while `b` joins. -/
def eager : Nat → Job :=
  Job.roster [.joins "a", .requestDeletion {} "r", .requestDeletion {} "r", .joins "b",
    .requestDeletion {} "r"]

/-- Two of the requests look before either is entered, and the third one afterwards. -/
def eagerness : Scene (Job.crew eager) :=
  (Scene.opening (Job.crew eager) {}).play {}
    [0, 0, 0, 1, 2, 3, 1, 1, 3, 3, 2, 2, 2, 2, 2, 3, 3, 3, 3, 4]

theorem eagerness_condemned : Condemned eager "r" eagerness.history := by
  have run : Run (fun _ => False) (Job.crew eager) {} eagerness.history eagerness.memory :=
    (Scene.real_play _).run
  have undeleted : Undeleted "r" eagerness.history := by
    unfold Undeleted
    decide +kernel
  exact run.condemned Memory.sound_empty ⟨fun _ fault => fault.elim, by decide +kernel⟩ undeleted

/-- Both requests that looked early say that they are new, and each has counted the generation
up. -/
theorem eagerness_twice :
    Run (fun _ => False) (Job.crew eager) {} eagerness.history eagerness.memory ∧
    Contended (fun _ => False) eagerness.history ∧
    (eagerness.left 1 : Program (Except SyncError Bool)) = .done (.ok true) ∧
    (eagerness.left 2 : Program (Except SyncError Bool)) = .done (.ok true) ∧
    (eagerness.left 4 : Program (Except SyncError Bool)) = .done (.ok false) ∧
    (eagerness.memory.records.get? "r").map
      (fun r => (r.sources.map (·.owner.name), r.deletionRequested, r.generation)) =
        some (["a", "b"], true, 4) :=
  ⟨(Scene.real_play _).run, ⟨fun _ fault => fault.elim, by decide +kernel⟩, rfl, rfl, rfl,
    by decide +kernel⟩

end Tributary
