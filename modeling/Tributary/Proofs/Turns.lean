import Tributary.Proofs.Shelves
import Tributary.Rehearsal.World

/-!
# A call and its store

A store `Keeps` a table of records, in memory or in files. A `Turn` is a call with the store that
meets it: what it answers and leaves is what memory with that table answers and leaves
(`Turn.mirrors`), and which tokens it issues depends on the counter of the store. Whether a copy of
a record can be used, what a call changes and which event it publishes is read off from that.
-/

namespace Tributary

theorem Memory.put_of_update {m m' : Memory} {now : Instant} {r : Record} {token : Nat}
    (updated : m.update now r = (.ok token, m')) :
    ∃ v, m.records.get? r.key = some v ∧ token = m.nextToken ∧
      m' = m.put (r.updated v m.nextToken now) := by
  unfold update at updated
  cases found : m.current r with
  | error e => simp [found] at updated
  | ok v =>
    simp only [found, Prod.mk.injEq, Except.ok.injEq] at updated
    obtain ⟨rfl, rfl⟩ := updated
    exact ⟨v, (current_eq_ok.1 found).1, rfl, rfl⟩

namespace Rehearsal

namespace Backend

/-- The record that a store shows under a key. -/
def shown (b : Backend) (key : String) : Option Record :=
  (b.perform default (.get key)).1.toOption

/-- Where a store is with its tokens: memory at the next one, a directory at the last one, and at
zero if it has issued none since it was opened. -/
def counter : Backend → Nat
  | .memory m _ => m.nextToken
  | .directory d => d.lastToken

/-- A store that nothing has been asked of yet. -/
inductive Fresh : Backend → Prop
  | memory (folder : Folder) : Fresh (.memory {} folder)
  | directory {f : Folder} (ordered : f.entries.Ascending)
      (bare : f.isBare Directory.base = true) : Fresh (.directory (.openAt f))

end Backend

/-- One call of a store. -/
structure Turn where
  before : Backend
  now : Instant
  call : Store.Call

namespace Turn

def answer (t : Turn) : Store.Answer t.call := (t.before.perform t.now t.call).1

def after (t : Turn) : Backend := (t.before.perform t.now t.call).2

/-- What the store publishes when it meets the call. -/
def published (t : Turn) : Option Event :=
  match t.before with
  | .memory m _ => Store.published m t.now t.call
  | .directory d => Store.published d t.now t.call

def granted (t : Turn) : Bool := t.answer.isOk

/-- The token that the answer to a write tells. -/
def told? (t : Turn) : Option Nat := t.call.told? t.answer

/-- The version that a granted call writes. -/
def written? (t : Turn) : Option Record := t.call.written? t.before.shown t.now t.answer

/-- The token that is next when the call is made. -/
def next (t : Turn) : Nat :=
  match t.before with
  | .memory m _ => m.nextToken
  | .directory _ => t.after.counter

/-- The token that a call takes, also if nothing is written with it. -/
def issued? (t : Turn) : Option Nat :=
  if t.after.counter = t.before.counter then none else some t.next

/-- Whether a call changes what is stored under a key. -/
def changes (t : Turn) (key : String) : Bool := t.granted && t.call.event?.any (·.key = key)

/-- The files are there to be read and written, and what is written to them is read back as it
is. -/
structure Smooth (t : Turn) : Prop where
  reachable : t.answer ≠ .error .unreachable
  readable : ∀ d, t.before = .directory d → ∀ v ∈ t.written?, Record.ofDocument? v.document = some v

end Turn

/-! ## Stores as tables -/

namespace Backend

/-- The records of a store, which are all that it answers by. -/
def Keeps (b : Backend) (records : Table Record) : Prop :=
  match b with
  | .memory m _ => m.records = records ∧ m.Sound
  | .directory d => Directory.Keeps d.folder records

/-- A token that the counter of a store has passed. -/
def Passed (b : Backend) (token : Nat) : Prop :=
  match b with
  | .memory m _ => token < m.nextToken
  | .directory d => token ≤ d.lastToken

variable {b : Backend} {records : Table Record} {key : String} {r : Record}

theorem Keeps.own (keeps : b.Keeps records) (stored : records.get? key = some r) : r.key = key := by
  cases b with
  | memory m folder => exact (keeps.2 key r (keeps.1 ▸ stored)).1
  | directory d => exact (Directory.Keeps.kept keeps key r stored).own

theorem Keeps.shown (keeps : b.Keeps records) (key : String) : b.shown key = records.get? key := by
  cases b with
  | memory m folder =>
    obtain ⟨rfl, -⟩ := keeps
    change (m.find key).toOption = _
    unfold Memory.find
    cases m.records.get? key <;> rfl
  | directory d =>
    change (d.perform default (.get key)).1.toOption = _
    cases valid : Directory.checkKey key with
    | error e =>
      rw [Directory.perform_invalid rfl valid]
      cases stored : records.get? key with
      | none => rfl
      | some r =>
        rw [(Directory.Keeps.kept keeps key r stored).valid] at valid
        cases valid
    | ok =>
      have load : d.load key = _ := Directory.Keeps.load keeps key 0
      simp only [Directory.perform, valid, load, Memory.find]
      cases records.get? key <;> rfl

theorem Fresh.keeps (fresh : b.Fresh) : b.Keeps {} := by
  cases fresh with
  | memory folder => exact ⟨rfl, Memory.sound_empty⟩
  | directory ordered bare => exact (Directory.Keeps.of_bare ordered bare).openAt

theorem Keeps.reopen (keeps : b.Keeps records) : b.reopen.Keeps records := by
  cases b with
  | memory m folder => exact keeps
  | directory d => exact Directory.Keeps.openAt keeps

theorem perform_directory (d : Directory) (now : Instant) (c : Store.Call) :
    (Backend.directory d).perform now c =
      ((d.perform now c).1, .directory (d.perform now c).2) := rfl

end Backend

/-! ## One call -/

namespace Turn

variable {t : Turn} {records : Table Record}

theorem granted_iff : t.granted = true ↔ ∃ a, t.answer = .ok a := by
  unfold granted
  cases t.answer with
  | error e => simp [Except.isOk, Except.toBool]
  | ok a => simp [Except.isOk, Except.toBool]

/-- A call is answered as memory with the same records answers it, and leaves the same, unless its
key cannot name a file. -/
theorem mirrors (keeps : t.before.Keeps records) (smooth : t.Smooth) :
    (t.answer = (Memory.perform ⟨records, t.next⟩ t.now t.call).1 ∧
      t.after.Keeps (Memory.perform ⟨records, t.next⟩ t.now t.call).2.records) ∨
    ∃ key e, t.call.key? = some key ∧ records.get? key = none ∧
      Directory.checkKey key = .error e ∧ t.answer = .error e ∧ t.after = t.before := by
  obtain ⟨before, now, c⟩ := t
  cases before with
  | memory m folder =>
    obtain ⟨rfl, sound⟩ := keeps
    refine .inl ⟨rfl, rfl, ?_⟩
    change (m.perform now c).2.Sound
    cases answer : (m.perform now c).1 with
    | ok a => exact (Memory.grants_of_perform (Prod.ext answer rfl)).sound sound
    | error e =>
      have same : (m.perform now c).2 = m := Memory.eq_of_perform_error (Prod.ext answer rfl)
      rwa [same]
  | directory d =>
    have keeps : Directory.Keeps d.folder records := keeps
    by_cases valid : ∀ key ∈ c.key?, Directory.checkKey key = .ok ()
    · have shown : (Backend.directory d).shown = records.get? :=
        funext fun key => Backend.Keeps.shown (b := .directory d) keeps key
      have readable := smooth.readable d rfl
      simp only [written?, shown] at readable
      exact .inl (keeps.perform valid smooth.reachable readable)
    · right
      obtain ⟨key, about, invalid⟩ : ∃ key ∈ c.key?, ¬ Directory.checkKey key = .ok () := by
        simpa using valid
      cases checked : Directory.checkKey key with
      | ok => exact absurd checked invalid
      | error e =>
        have performed : (Backend.directory d).perform now c = (.error e, .directory d) := by
          rw [Backend.perform_directory, Directory.perform_invalid about checked]
        refine ⟨key, e, about, ?_, checked, congrArg Prod.fst performed,
          congrArg Prod.snd performed⟩
        cases stored : records.get? key with
        | none => rfl
        | some r => exact absurd (keeps.kept key r stored).valid invalid

theorem performed_of_granted (keeps : t.before.Keeps records) (smooth : t.Smooth)
    {a : t.call.Result} (answer : t.answer = .ok a) :
    ∃ m', Memory.perform ⟨records, t.next⟩ t.now t.call = (.ok a, m') ∧
      t.after.Keeps m'.records := by
  rcases mirrors keeps smooth with ⟨same, kept⟩ | ⟨_, _, _, _, _, refused, _⟩
  · exact ⟨_, Prod.ext (same.symm.trans answer) rfl, kept⟩
  · cases refused.symm.trans answer

theorem grants_of_granted (keeps : t.before.Keeps records) (smooth : t.Smooth)
    {a : t.call.Result} (answer : t.answer = .ok a) :
    ∃ m', (⟨records, t.next⟩ : Memory).Grants t.call a m' ∧ t.after.Keeps m'.records := by
  obtain ⟨m', performed, kept⟩ := performed_of_granted keeps smooth answer
  exact ⟨m', Memory.grants_of_perform performed, kept⟩

theorem refuses_of_refused (keeps : t.before.Keeps records) (smooth : t.Smooth)
    {e : StoreError} (answer : t.answer = .error e) :
    t.after.Keeps records ∧
      ((⟨records, t.next⟩ : Memory).Refuses t.call e ∨
        ∃ key, t.call.key? = some key ∧ records.get? key = none) := by
  rcases mirrors keeps smooth with ⟨same, kept⟩ | ⟨key, _, about, absent, _, _, unchanged⟩
  · have performed : Memory.perform ⟨records, t.next⟩ t.now t.call =
        (.error e, (Memory.perform ⟨records, t.next⟩ t.now t.call).2) :=
      Prod.ext (same.symm.trans answer) rfl
    rw [Memory.eq_of_perform_error performed] at kept
    exact ⟨kept, .inl (Memory.refuses_of_perform performed)⟩
  · exact ⟨unchanged ▸ keeps, .inr ⟨key, about, absent⟩⟩

/-! ### Tokens -/

theorem told?_error {c : Store.Call} (e : StoreError) : c.told? (.error e) = none := by
  cases c <;> rfl

theorem nextToken_of_grants {m m' : Memory} {c : Store.Call} {a : c.Result}
    (grants : m.Grants c a m') :
    m'.nextToken = m.nextToken ∧ c.told? (.ok a) = none ∨
      m'.nextToken = m.nextToken + 1 ∧ c.told? (.ok a) = some m.nextToken := by
  cases grants with
  | get | delete | list => exact .inl ⟨rfl, rfl⟩
  | create | update | updateStatus => exact .inr ⟨rfl, rfl⟩

theorem nextToken_perform (m : Memory) (now : Instant) (c : Store.Call) :
    (m.perform now c).2.nextToken = m.nextToken ∧ c.told? (m.perform now c).1 = none ∨
      (m.perform now c).2.nextToken = m.nextToken + 1 := by
  cases answer : (m.perform now c).1 with
  | error e =>
    have same : (m.perform now c).2 = m := Memory.eq_of_perform_error (Prod.ext answer rfl)
    rw [same]
    exact .inl ⟨rfl, told?_error e⟩
  | ok a =>
    rcases nextToken_of_grants (Memory.grants_of_perform (Prod.ext answer rfl)) with same | next
    · exact .inl same
    · exact .inr next.1

/-- What a write is told is the token that was issued for it. -/
theorem issued_of_told (keeps : t.before.Keeps records) (smooth : t.Smooth) {token : Nat}
    (told : t.told? = some token) : t.issued? = some token := by
  have counted : t.after.counter ≠ t.before.counter := by
    intro same
    obtain ⟨before, now, c⟩ := t
    cases before with
    | memory m folder =>
      have same : (m.perform now c).2.nextToken = m.nextToken := same
      have told : c.told? (m.perform now c).1 = some token := told
      rcases nextToken_perform m now c with ⟨-, nothing⟩ | next
      · cases nothing.symm.trans told
      · omega
    | directory d =>
      have same : (d.perform now c).2.lastToken = d.lastToken := same
      have told : c.told? (d.perform now c).1 = some token := told
      rcases Directory.lastToken_perform d now c with ⟨-, nothing⟩ | next
      · cases nothing.symm.trans told
      · omega
  rw [told?] at told
  cases answer : t.answer with
  | error e =>
    rw [answer, told?_error] at told
    cases told
  | ok a =>
    obtain ⟨m', grants, -⟩ := grants_of_granted keeps smooth answer
    rw [answer] at told
    rw [issued?, if_neg counted]
    rcases nextToken_of_grants grants with ⟨-, nothing⟩ | ⟨-, next⟩
    · cases nothing.symm.trans told
    · exact next.symm.trans told

/-- A token is above all that the counter had passed. -/
theorem lt_of_passed {token old : Nat} (issued : t.issued? = some token)
    (passed : t.before.Passed old) : old < token := by
  rw [issued?] at issued
  split at issued
  · cases issued
  · next counted =>
    obtain rfl := Option.some.inj issued
    obtain ⟨before, now, c⟩ := t
    cases before with
    | memory m folder => exact passed
    | directory d =>
      have counted : (d.perform now c).2.lastToken ≠ d.lastToken := counted
      have passed : old ≤ d.lastToken := passed
      change old < (d.perform now c).2.lastToken
      rcases Directory.lastToken_perform d now c with ⟨same, -⟩ | next
      · exact absurd same counted
      · omega

theorem passed_of_issued {token : Nat} (issued : t.issued? = some token) :
    t.after.Passed token := by
  rw [issued?] at issued
  split at issued
  · cases issued
  · next counted =>
    obtain rfl := Option.some.inj issued
    obtain ⟨before, now, c⟩ := t
    cases before with
    | memory m folder =>
      have counted : (m.perform now c).2.nextToken ≠ m.nextToken := counted
      change m.nextToken < (m.perform now c).2.nextToken
      rcases nextToken_perform m now c with ⟨same, -⟩ | next
      · exact absurd same counted
      · omega
    | directory d => exact Nat.le_refl _

/-- Counters do not go back. -/
theorem passed_after {old : Nat} (passed : t.before.Passed old) : t.after.Passed old := by
  obtain ⟨before, now, c⟩ := t
  cases before with
  | memory m folder =>
    have passed : old < m.nextToken := passed
    change old < (m.perform now c).2.nextToken
    rcases nextToken_perform m now c with ⟨same, -⟩ | next
    · omega
    · omega
  | directory d =>
    have passed : old ≤ d.lastToken := passed
    change old ≤ (d.perform now c).2.lastToken
    rcases Directory.lastToken_perform d now c with ⟨same, -⟩ | next
    · omega
    · omega

/-! ### Records -/

theorem unchanged_of_grants {m m' : Memory} {c : Store.Call} {a : c.Result}
    (own : ∀ key r, m.records.get? key = some r → r.key = key) (grants : m.Grants c a m')
    {key : String} (apart : c.event?.any (·.key = key) = false) :
    m'.records.get? key = m.records.get? key := by
  have put {v r : Record} (same : v.key = r.key) (apart : decide (r.key = key) = false) :
      (m.put v).records.get? key = m.records.get? key := by
    rw [Memory.get?_put, same, if_neg]
    rintro rfl
    simp at apart
  cases grants with
  | get | list => rfl
  | create => exact put rfl apart
  | update => exact put rfl apart
  | updateStatus found =>
    have same := own _ _ found
    exact put same apart
  | delete =>
    rw [Table.get?_erase, if_neg]
    rintro rfl
    simp [Store.Call.event?] at apart

theorem token_of_grants {m m' : Memory} {c : Store.Call} {a : c.Result}
    (own : ∀ key r, m.records.get? key = some r → r.key = key) (grants : m.Grants c a m')
    {key : String} (here : c.event?.any (·.key = key) = true) :
    (m'.records.get? key).map (·.token) = c.told? (.ok a) := by
  have put {v r : Record} (same : v.key = r.key) (token : v.token = m.nextToken)
      (here : decide (r.key = key) = true) :
      ((m.put v).records.get? key).map (·.token) = some m.nextToken := by
    rw [Memory.get?_put, same, if_pos (of_decide_eq_true here).symm, Option.map_some, token]
  cases grants with
  | get | list => cases here
  | create => exact put rfl rfl here
  | update => exact put rfl rfl here
  | updateStatus found =>
    have same := own _ _ found
    exact put same rfl here
  | delete =>
    rw [Table.get?_erase, if_pos (of_decide_eq_true here).symm]
    rfl

theorem changes_of_refused {e : StoreError} (answer : t.answer = .error e) (key : String) :
    t.changes key = false := by
  simp [changes, granted, answer, Except.isOk, Except.toBool]

theorem changes_of_granted {a : t.call.Result} (answer : t.answer = .ok a) (key : String) :
    t.changes key = t.call.event?.any (·.key = key) := by
  simp [changes, granted, answer, Except.isOk, Except.toBool]

/-- What a call leaves: other records are as they were, and the one it has changed has the token
that the call told, if it is still there. -/
theorem records_after (keeps : t.before.Keeps records) (smooth : t.Smooth) :
    ∃ records', t.after.Keeps records' ∧
      (∀ key, t.changes key = false → records'.get? key = records.get? key) ∧
      ∀ key, t.changes key = true → (records'.get? key).map (·.token) = t.told? := by
  cases answer : t.answer with
  | error e =>
    refine ⟨records, (refuses_of_refused keeps smooth answer).1, fun _ _ => rfl, ?_⟩
    intro key changed
    rw [changes_of_refused answer] at changed
    cases changed
  | ok a =>
    have own : ∀ key r, records.get? key = some r → r.key = key := fun _ _ => keeps.own
    obtain ⟨m', grants, kept⟩ := grants_of_granted keeps smooth answer
    refine ⟨m'.records, kept, ?_, ?_⟩
    · intro key unchanged
      rw [changes_of_granted answer] at unchanged
      exact unchanged_of_grants own grants unchanged
    · intro key changed
      rw [changes_of_granted answer] at changed
      rw [told?, answer]
      exact token_of_grants own grants changed

/-! ### Copies -/

/-- A copy with which the call changes or deletes a record. -/
def Uses (t : Turn) (r : Record) : Prop :=
  t.call = .update r ∨ t.call = .updateStatus r ∨ t.call = .delete r

theorem eq_of_uses {r r' : Record} (uses : t.Uses r) (uses' : t.Uses r') : r = r' := by
  unfold Uses at uses uses'
  obtain call | call | call := uses
  all_goals
    rw [call] at uses'
    simpa using uses'

/-- Why a copy of what is stored is refused. -/
theorem outdated_of_refuses {m : Memory} {r v : Record} {e : StoreError}
    (refuses : m.Refuses t.call e) (uses : t.Uses r) (stored : m.records.get? r.key = some v) :
    r.token ≠ v.token ∨ t.call = .delete r ∧ v.pendingTeardown = true := by
  unfold Uses at uses
  generalize call : t.call = c at refuses
  cases refuses with
  | unread => simp [call] at uses
  | taken => simp [call] at uses
  | gone write absent =>
    obtain rfl := eq_of_uses uses (call ▸ write)
    cases stored.symm.trans absent
  | stale write found other =>
    obtain rfl := eq_of_uses uses (call ▸ write)
    obtain rfl := Option.some.inj (stored.symm.trans found)
    exact .inl other
  | guarded found pending =>
    obtain rfl := eq_of_uses uses (.inr (.inr call))
    obtain rfl := Option.some.inj (stored.symm.trans found)
    exact .inr ⟨rfl, pending⟩

/-- A copy of a record that is not there is of no use. -/
theorem stored_of_grants {m m' : Memory} {r : Record} {a : t.call.Result}
    (grants : m.Grants t.call a m') (uses : t.Uses r) :
    ∃ v, m.records.get? r.key = some v ∧ r.token = v.token ∧
      (t.call = .delete r → v.pendingTeardown = false) := by
  obtain ⟨before, now, c⟩ := t
  obtain rfl | rfl | rfl := uses
  · cases grants with
    | update _ found current => exact ⟨_, found, current, nofun⟩
  · cases grants with
    | updateStatus found current => exact ⟨_, found, current, nofun⟩
  · cases grants with
    | delete found current released => exact ⟨_, found, current, fun _ => released⟩

/-- With a copy of what is stored, a call is granted exactly if the copy is not outdated; a record
whose teardown is pending is not deleted. -/
theorem granted_iff_of_uses (keeps : t.before.Keeps records) (smooth : t.Smooth) {r v : Record}
    (uses : t.Uses r) (stored : records.get? r.key = some v) :
    t.granted = true ↔ r.token = v.token ∧ (t.call = .delete r → v.pendingTeardown = false) := by
  rw [granted_iff]
  constructor
  · rintro ⟨a, answer⟩
    obtain ⟨m', grants, -⟩ := grants_of_granted keeps smooth answer
    obtain ⟨found, there, current, released⟩ := stored_of_grants grants uses
    obtain rfl := Option.some.inj (stored.symm.trans there)
    exact ⟨current, released⟩
  · rintro ⟨current, released⟩
    cases answer : t.answer with
    | ok a => exact ⟨a, rfl⟩
    | error e =>
      exfalso
      obtain refuses | ⟨key, about, absent⟩ := (refuses_of_refused keeps smooth answer).2
      · obtain outdated | ⟨removes, pending⟩ := outdated_of_refuses refuses uses stored
        · exact outdated current
        · rw [released removes] at pending
          cases pending
      · have here : t.call.key? = some r.key := by
          obtain call | call | call := uses <;> rw [call] <;> rfl
        obtain rfl := Option.some.inj (about.symm.trans here)
        cases stored.symm.trans absent

theorem shown_of_update (keeps : t.before.Keeps records) (smooth : t.Smooth)
    (granted : t.granted = true) {r : Record} (call : t.call = .update r) :
    ∃ v token, t.before.shown r.key = some v ∧ t.told? = some token ∧
      t.after.shown r.key = some (r.updated v token t.now) := by
  obtain ⟨a, answer⟩ := granted_iff.1 granted
  obtain ⟨m', performed, kept⟩ := performed_of_granted keeps smooth answer
  rw [told?, answer, keeps.shown, kept.shown]
  obtain ⟨before, now, c⟩ := t
  obtain rfl := call
  obtain ⟨v, found, rfl, rfl⟩ := Memory.put_of_update performed
  exact ⟨v, _, found, rfl, by simp⟩

theorem shown_of_updateStatus (keeps : t.before.Keeps records) (smooth : t.Smooth)
    (granted : t.granted = true) {r : Record} (call : t.call = .updateStatus r) :
    ∃ v token, t.before.shown r.key = some v ∧ t.told? = some token ∧
      t.after.shown r.key = some (r.statusUpdated v token) := by
  obtain ⟨a, answer⟩ := granted_iff.1 granted
  obtain ⟨m', grants, kept⟩ := grants_of_granted keeps smooth answer
  rw [told?, answer, keeps.shown, kept.shown]
  obtain ⟨before, now, c⟩ := t
  obtain rfl := call
  cases grants with
  | updateStatus found current =>
    have same := keeps.own found
    exact ⟨_, _, found, rfl, by simp [same]⟩

/-! ### Events -/

theorem published_with_answer (t : Turn) : t.published = t.call.published t.answer := by
  obtain ⟨before, now, c⟩ := t
  cases before <;> rfl

theorem published_eq (t : Turn) :
    t.published = if t.granted then t.call.event? else none := by
  rw [published_with_answer, granted]
  cases t.answer <;> rfl

/-- In any world, a call answers what the store answers, and what the store publishes is heard. -/
theorem perform_world {w : World} (backend : w.backend = t.before) (now : w.now = t.now) :
    w.perform t.call = (t.answer,
      { w with
        backend := t.after
        events := t.published.toList ++ w.events
        published := w.published ++ t.published.toList }) := by
  rw [published_with_answer]
  obtain ⟨before, instant, c⟩ := t
  subst backend now
  rfl

/-- The event of a call is about its key. -/
theorem event_apart {key : String} (apart : t.call.key? ≠ some key) :
    t.call.event?.any (·.key = key) = false := by
  generalize t.call = c at apart
  cases c with
  | get | list => rfl
  | create | update | updateStatus | delete =>
    exact decide_eq_false fun same => apart (congrArg some same)

theorem told?_of_delete {r : Record} (call : t.call = .delete r) : t.told? = none := by
  obtain ⟨before, now, c⟩ := t
  obtain rfl := call
  unfold told?
  cases (Turn.mk before now (.delete r)).answer <;> rfl

end Turn

end Rehearsal

end Tributary
