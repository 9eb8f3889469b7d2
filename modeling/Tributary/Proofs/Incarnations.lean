import Tributary.Proofs.Restarts
import Tributary.Proofs.Turns

/-!
# Tokens over the life of a store

Whatever is asked of a store, and however often a directory is opened again, its tokens ascend,
and the token of a record is that of the latest write to it since it was created
(`lawful_of_turns`). So a write with a copy is granted exactly if nothing was written since the
copy was read, and a copy of a record that has been deleted is of no use with the next one under
its key. The clock has to be right only when a directory issues its first token after it has been
opened: it must not be behind a token that was issued before.
-/

namespace Tributary.Rehearsal

namespace Backend

/-- A directory that has issued nothing since it was opened. -/
def Opened (b : Backend) : Prop := ∃ d, b = .directory d ∧ d.lastToken = 0

/-- A token that a store does not issue again, unless it was just opened and the clock is
behind. -/
def Spent (b : Backend) (token : Nat) : Prop := b.Opened ∨ b.Passed token

end Backend

namespace Turn

variable {t : Turn}

/-- The token under a key after a call, given the one before it. -/
def leaves (key : String) (old : Option Nat) (t : Turn) : Option Nat :=
  if t.changes key then t.told? else old

/-- The first token after a directory was opened is issued when the clock has reached all that were
issued before. -/
def Timely (earlier : List Turn) (t : Turn) : Prop :=
  t.before.Opened → t.issued? ≠ none →
    ∀ old ∈ earlier.filterMap issued?, old ≤ t.now.micros.toNat

theorem lt_of_opened {token old : Nat} (issued : t.issued? = some token) (opened : t.before.Opened)
    (clock : old ≤ t.now.micros.toNat) : old < token := by
  rw [issued?] at issued
  split at issued
  · cases issued
  · next counted =>
    obtain rfl := Option.some.inj issued
    obtain ⟨before, now, c⟩ := t
    obtain ⟨d, rfl, -⟩ := opened
    have counted : (d.perform now c).2.lastToken ≠ d.lastToken := counted
    have clock : old ≤ now.micros.toNat := clock
    change old < (d.perform now c).2.lastToken
    rcases Directory.lastToken_perform d now c with ⟨same, -⟩ | next
    · exact absurd same counted
    · omega

/-- A token is above all that were issued before it. -/
theorem lt_of_issued {token : Nat} {earlier : List Turn} (issued : t.issued? = some token)
    (timely : t.Timely earlier) {old : Nat} (before : old ∈ earlier.filterMap issued?)
    (spent : t.before.Spent old) : old < token := by
  rcases spent with opened | passed
  · exact lt_of_opened issued opened (timely opened (by simp [issued]) old before)
  · exact lt_of_passed issued passed

/-- A token that has been spent stays so. -/
theorem spent_after {earlier : List Turn} (timely : t.Timely earlier) {old : Nat}
    (before : old ∈ earlier.filterMap issued?) (spent : t.before.Spent old) :
    t.after.Spent old := by
  rcases spent with opened | passed
  · by_cases counted : t.after.counter = t.before.counter
    · left
      obtain ⟨d, here, fresh⟩ := opened
      obtain ⟨b, now, c⟩ := t
      obtain rfl : b = .directory d := here
      exact ⟨(d.perform now c).2, rfl, counted.trans fresh⟩
    · right
      have issued : t.issued? = some t.next := if_neg counted
      have later := lt_of_opened issued opened (timely opened (by simp [issued]) old before)
      obtain ⟨d, here, -⟩ := opened
      obtain ⟨b, now, c⟩ := t
      obtain rfl : b = .directory d := here
      exact Nat.le_of_lt later
  · exact .inr (passed_after passed)

end Turn

/-- The token of the latest write to a key, unless the record has been deleted since. -/
def lastWrite (key : String) (earlier : List Turn) : Option Nat :=
  earlier.foldl (Turn.leaves key) none

/-- What happens to a store. -/
inductive Deed where
  | call (now : Instant) (c : Store.Call)
  | reopen

/-- The calls among the deeds, each with the store that it meets. -/
def turns (b : Backend) : List Deed → List Turn
  | [] => []
  | .call now c :: rest => ⟨b, now, c⟩ :: turns (b.perform now c).2 rest
  | .reopen :: rest => turns b.reopen rest

/-- Every call is smooth, and the clock is right where it has to be. -/
structure Steady (b : Backend) (deeds : List Deed) : Prop where
  turn : ∀ t ∈ turns b deeds, t.Smooth
  clock : ∀ earlier t later, turns b deeds = earlier ++ t :: later → t.Timely earlier

/-! ## Every call -/

/-- Where a store is after a history of calls. -/
structure Reached (b : Backend) (records : Table Record) (past : List Turn) : Prop where
  keeps : b.Keeps records
  tokens : ∀ key, (records.get? key).map (·.token) = lastWrite key past
  spent : ∀ token ∈ past.filterMap Turn.issued?, b.Spent token

namespace Reached

variable {b : Backend} {records : Table Record} {past : List Turn}

theorem start (fresh : b.Fresh) : Reached b {} [] :=
  ⟨fresh.keeps, fun _ => rfl, nofun⟩

theorem reopen (reached : Reached b records past) : Reached b.reopen records past := by
  refine ⟨reached.keeps.reopen, reached.tokens, ?_⟩
  intro token issued
  cases b with
  | memory m folder => exact reached.spent token issued
  | directory d => exact .inl ⟨_, rfl, rfl⟩

theorem call {t : Turn} (reached : Reached t.before records past) (smooth : t.Smooth)
    (timely : t.Timely past) : ∃ records', Reached t.after records' (past ++ [t]) := by
  obtain ⟨records', keeps, others, changed⟩ := Turn.records_after reached.keeps smooth
  refine ⟨records', keeps, ?_, ?_⟩
  · intro key
    rw [lastWrite, List.foldl_append, ← lastWrite, ← reached.tokens]
    change _ = t.leaves key _
    rw [Turn.leaves]
    split
    · next here => exact changed key here
    · next apart => rw [others key (by simpa using apart)]
  · intro token issued
    rw [List.filterMap_append, List.mem_append] at issued
    rcases issued with old | new
    · exact Turn.spent_after timely old (reached.spent token old)
    · obtain ⟨_, mem, issued⟩ := List.mem_filterMap.1 new
      obtain rfl := List.mem_singleton.1 mem
      exact .inr (Turn.passed_of_issued issued)

/-- Every call of a history meets a store that has come to be by the calls before it. -/
theorem of_turns {deeds : List Deed} (reached : Reached b records past)
    (smooth : ∀ t ∈ turns b deeds, t.Smooth)
    (clock : ∀ earlier t later, turns b deeds = earlier ++ t :: later → t.Timely (past ++ earlier))
    {earlier later : List Turn} {t : Turn} (split : turns b deeds = earlier ++ t :: later) :
    ∃ records, Reached t.before records (past ++ earlier) := by
  induction deeds generalizing b records past earlier with
  | nil => simp [turns] at split
  | cons deed rest ih =>
    cases deed with
    | reopen => exact ih reached.reopen smooth clock split
    | call now c =>
      let first : Turn := ⟨b, now, c⟩
      have begins : turns b (.call now c :: rest) = first :: turns first.after rest := rfl
      rw [begins] at smooth clock split
      cases earlier with
      | nil =>
        obtain ⟨rfl, -⟩ := List.cons.inj split
        exact ⟨records, by simpa using reached⟩
      | cons s earlier =>
        obtain ⟨same, split⟩ := List.cons.inj split
        obtain ⟨records', reached'⟩ := Reached.call (t := first) reached
          (smooth first List.mem_cons_self) (by simpa using clock [] first _ rfl)
        have onward := ih reached' (fun t mem => smooth t (List.mem_cons_of_mem _ mem))
          (by
            intro before t after split
            simpa using clock (first :: before) t after (by rw [split]; rfl))
          split
        simpa [← same] using onward

end Reached

/-! ## The law of a call -/

namespace Turn

/-- What is true of a call, given the calls before it. -/
structure Lawful (earlier : List Turn) (t : Turn) : Prop where
  /-- A token is greater than all that were issued before. -/
  rising : ∀ token, t.issued? = some token → ∀ old ∈ earlier.filterMap issued?, old < token
  /-- What a write is told is the token that was issued for it. -/
  told : ∀ token, t.told? = some token → t.issued? = some token
  /-- What is stored has the token of the latest write to it. -/
  current : ∀ key, (t.before.shown key).map (·.token) = lastWrite key earlier
  /-- A stored record is written exactly with the token of the latest write to it. -/
  writes : ∀ r stored, t.call = .update r ∨ t.call = .updateStatus r →
    t.before.shown r.key = some stored →
    (t.granted = true ↔ lastWrite r.key earlier = some r.token)
  /-- A stored record is deleted exactly with that token, when no teardown is pending. -/
  deletes : ∀ r stored, t.call = .delete r → t.before.shown r.key = some stored →
    (t.granted = true ↔ lastWrite r.key earlier = some r.token ∧ stored.pendingTeardown = false)
  /-- A copy that was read before its record was deleted is never of use again. -/
  outdated : ∀ past gone since removed, earlier = past ++ gone :: since →
    gone.call = .delete removed → gone.granted = true →
    ∀ s ∈ past ++ [gone], ∀ copy, s.before.shown removed.key = some copy →
    ∀ r, t.Uses r → r.key = removed.key → r.token = copy.token → t.granted = false
  /-- An update writes everything but the status. -/
  updates : ∀ r, t.call = .update r → t.granted = true →
    ∃ stored token, t.before.shown r.key = some stored ∧ t.told? = some token ∧
      t.after.shown r.key = some { r with status := stored.status, token, updatedAt := t.now }
  /-- A status update writes nothing but the status and the token. -/
  statusUpdates : ∀ r, t.call = .updateStatus r → t.granted = true →
    ∃ stored token, t.before.shown r.key = some stored ∧ t.told? = some token ∧
      t.after.shown r.key = some { stored with status := r.status, token }
  /-- Records under other keys stay as they are. -/
  others : ∀ key, t.call.key? ≠ some key → t.after.shown key = t.before.shown key
  /-- The store changes no record and publishes nothing when it refuses a call. -/
  refused : t.granted = false →
    (∀ key, t.after.shown key = t.before.shown key) ∧ t.published = none
  /-- The store publishes one event for a change that it grants, which says what it was, and none
  for a read. -/
  announced : t.granted = true → t.published = t.call.event?
  /-- In any world, those who listen hear what the store publishes and nothing else. -/
  heard : ∀ w : World, w.backend = t.before → w.now = t.now →
    (w.perform t.call).2.events = t.published.toList ++ w.events ∧
    (w.perform t.call).2.published = w.published ++ t.published.toList

end Turn

theorem told_of_leaves {key : String} {old : Option Nat} {token : Nat} {later : List Turn}
    (left : later.foldl (Turn.leaves key) old = some token) :
    old = some token ∨ ∃ t ∈ later, t.told? = some token := by
  induction later generalizing old with
  | nil => exact .inl left
  | cons t rest ih =>
    rcases ih left with here | ⟨u, mem, told⟩
    · rw [Turn.leaves] at here
      split at here
      · exact .inr ⟨t, List.mem_cons_self, here⟩
      · exact .inl here
    · exact .inr ⟨u, List.mem_cons_of_mem _ mem, told⟩

section History

variable {b : Backend} {deeds : List Deed} {earlier later : List Turn} {t : Turn}

theorem reached_of_turns (fresh : b.Fresh) (steady : Steady b deeds)
    (split : turns b deeds = earlier ++ t :: later) :
    ∃ records, Reached t.before records earlier := by
  simpa using Reached.of_turns (.start fresh) steady.turn
    (fun earlier t later split => steady.clock earlier t later split) split

theorem smooth_of_split (steady : Steady b deeds) (split : turns b deeds = earlier ++ t :: later) :
    t.Smooth :=
  steady.turn t (by simp [split])

theorem rising_of_turns (fresh : b.Fresh) (steady : Steady b deeds)
    (split : turns b deeds = earlier ++ t :: later) {token old : Nat}
    (issued : t.issued? = some token) (before : old ∈ earlier.filterMap Turn.issued?) :
    old < token := by
  obtain ⟨records, reached⟩ := reached_of_turns fresh steady split
  exact Turn.lt_of_issued issued (steady.clock earlier t later split) before
    (reached.spent old before)

theorem issued_of_turns (fresh : b.Fresh) (steady : Steady b deeds) {u : Turn}
    (mem : u ∈ turns b deeds) {token : Nat} (told : u.told? = some token) :
    u.issued? = some token := by
  obtain ⟨earlier, later, split⟩ := List.append_of_mem mem
  obtain ⟨records, reached⟩ := reached_of_turns fresh steady split
  exact Turn.issued_of_told reached.keeps (steady.turn u mem) told

theorem told_of_lastWrite {key : String} {token : Nat} (last : lastWrite key earlier = some token) :
    ∃ u ∈ earlier, u.told? = some token := by
  rcases told_of_leaves last with nothing | told
  · cases nothing
  · exact told

/-- What a call finds was written with a token that had been issued before. -/
theorem issued_of_shown (fresh : b.Fresh) (steady : Steady b deeds)
    (split : turns b deeds = earlier ++ t :: later) {key : String} {copy : Record}
    (read : t.before.shown key = some copy) : copy.token ∈ earlier.filterMap Turn.issued? := by
  obtain ⟨records, reached⟩ := reached_of_turns fresh steady split
  have written : lastWrite key earlier = some copy.token := by
    rw [← reached.tokens, ← reached.keeps.shown, read, Option.map_some]
  obtain ⟨w, mem, told⟩ := told_of_lastWrite written
  have among : w ∈ turns b deeds := by
    rw [split]
    exact List.mem_append_left _ mem
  exact List.mem_filterMap.2 ⟨w, mem, issued_of_turns fresh steady among told⟩

/-- After a deletion, the token of the latest write is one that was told since. -/
theorem told_since {past since : List Turn} {gone : Turn} {removed : Record}
    (removes : gone.call = .delete removed) (done : gone.granted = true) {token : Nat}
    (last : lastWrite removed.key (past ++ gone :: since) = some token) :
    ∃ u ∈ since, u.told? = some token := by
  have cleared (old : Option Nat) : gone.leaves removed.key old = none := by
    obtain ⟨a, answer⟩ := Turn.granted_iff.1 done
    have changed : gone.changes removed.key = true := by
      rw [Turn.changes_of_granted answer, removes]
      simp [Store.Call.event?]
    rw [Turn.leaves, if_pos changed, Turn.told?_of_delete removes]
  rw [lastWrite, List.foldl_append, List.foldl_cons, cleared] at last
  exact told_of_lastWrite last

/-- The token of a copy is older than the deletion, and that of the next record under the key is
newer. -/
theorem refused_of_outdated (fresh : b.Fresh) (steady : Steady b deeds) {past since : List Turn}
    {gone : Turn} (split : turns b deeds = (past ++ gone :: since) ++ t :: later)
    {removed : Record} (removes : gone.call = .delete removed) (done : gone.granted = true)
    {s : Turn} (mem : s ∈ past ++ [gone]) {copy : Record}
    (read : s.before.shown removed.key = some copy) {r : Record} (uses : t.Uses r)
    (key : r.key = removed.key) (token : r.token = copy.token) : t.granted = false := by
  rw [← Bool.not_eq_true]
  intro granted
  obtain ⟨first, rest, halves⟩ := List.append_of_mem mem
  have until_read : turns b deeds = first ++ s :: (rest ++ since ++ t :: later) := by
    have whole : past ++ gone :: since = (past ++ [gone]) ++ since := by simp
    rw [split, whole, halves]
    simp
  have old : copy.token ∈ first.filterMap Turn.issued? :=
    issued_of_shown fresh steady until_read read
  obtain ⟨records, reached⟩ := reached_of_turns fresh steady split
  obtain ⟨a, answer⟩ := Turn.granted_iff.1 granted
  obtain ⟨m', grants, -⟩ :=
    Turn.grants_of_granted reached.keeps (smooth_of_split steady split) answer
  obtain ⟨v, found, current, -⟩ := Turn.stored_of_grants grants uses
  have last : lastWrite removed.key (past ++ gone :: since) = some r.token := by
    rw [← reached.tokens, ← key, found, Option.map_some, current]
  obtain ⟨u, late, told⟩ := told_since removes done last
  obtain ⟨between, after, halves'⟩ := List.append_of_mem late
  have until_write : turns b deeds = (past ++ gone :: between) ++ u :: (after ++ t :: later) := by
    rw [split, halves']
    simp
  have issued := issued_of_turns fresh steady (by rw [until_write]; simp) told
  have before : copy.token ∈ (past ++ gone :: between).filterMap Turn.issued? := by
    have whole : past ++ gone :: between = first ++ (s :: rest ++ between) := by
      rw [← List.append_assoc, ← halves]
      simp
    rw [whole, List.filterMap_append]
    exact List.mem_append_left _ old
  have newer := rising_of_turns fresh steady until_write issued before
  omega

end History

/-- Whoever writes with a copy has the token of the latest write, and each write since the record
was created has a token of its own. So the store never takes an outdated copy for the record
itself, not even for one that was created again under the key of a deleted one. -/
theorem lawful_of_turns {b : Backend} (fresh : b.Fresh) {deeds : List Deed}
    (steady : Steady b deeds) {earlier later : List Turn} {t : Turn}
    (split : turns b deeds = earlier ++ t :: later) : t.Lawful earlier := by
  obtain ⟨records, reached⟩ := reached_of_turns fresh steady split
  have keeps := reached.keeps
  have smooth := smooth_of_split steady split
  have last {key : String} {v : Record} (stored : t.before.shown key = some v) :
      lastWrite key earlier = some v.token := by
    rw [← reached.tokens, ← keeps.shown, stored, Option.map_some]
  have granted_iff {r v : Record} (uses : t.Uses r) (stored : t.before.shown r.key = some v) :
      t.granted = true ↔ r.token = v.token ∧ (t.call = .delete r → v.pendingTeardown = false) :=
    Turn.granted_iff_of_uses keeps smooth uses (by rw [← keeps.shown, stored])
  obtain ⟨records', kept, others, -⟩ := Turn.records_after keeps smooth
  have unchanged {key : String} (apart : t.changes key = false) :
      t.after.shown key = t.before.shown key := by
    rw [keeps.shown, kept.shown, others key apart]
  constructor
  case rising =>
    intro token issued old before
    exact rising_of_turns fresh steady split issued before
  case told =>
    intro token told
    exact Turn.issued_of_told keeps smooth told
  case current =>
    intro key
    rw [keeps.shown, reached.tokens]
  case writes =>
    intro r v call stored
    have uses : t.Uses r := call.elim .inl (.inr ∘ .inl)
    have keeping : t.call ≠ .delete r := by
      obtain call | call := call <;> rw [call] <;> nofun
    rw [granted_iff uses stored, last stored]
    constructor
    · rintro ⟨current, -⟩
      rw [current]
    · intro same
      exact ⟨(Option.some.inj same).symm, fun call => absurd call keeping⟩
  case deletes =>
    intro r v call stored
    rw [granted_iff (.inr (.inr call)) stored, last stored]
    constructor
    · rintro ⟨current, released⟩
      exact ⟨congrArg some current.symm, released call⟩
    · rintro ⟨same, released⟩
      exact ⟨(Option.some.inj same).symm, fun _ => released⟩
  case outdated =>
    rintro past gone since removed rfl removes done s mem copy read r uses key token
    exact refused_of_outdated fresh steady split removes done mem read uses key token
  case updates =>
    intro r call granted
    exact Turn.shown_of_update keeps smooth granted call
  case statusUpdates =>
    intro r call granted
    exact Turn.shown_of_updateStatus keeps smooth granted call
  case others =>
    intro key apart
    apply unchanged
    rw [Turn.changes, Turn.event_apart apart, Bool.and_false]
  case refused =>
    intro refused
    constructor
    · intro key
      apply unchanged
      rw [Turn.changes, refused, Bool.false_and]
    · rw [t.published_eq, refused]
      rfl
  case announced =>
    intro granted
    rw [t.published_eq, granted]
    rfl
  case heard =>
    intro w backend now
    rw [Turn.perform_world backend now]
    exact ⟨rfl, rfl⟩

/-! ## A record and its successor -/

open Directory (checkKey place filed base)

def founded : Instant := ⟨1767225600, 0⟩

def refounded : Instant := ⟨1767225601, 0⟩

def founder : Record := .blank "zone-a" "zone" "live-1" founded

/-- The record as it was created first. -/
def founderCopy : Record := { founder with token := 1767225600000001 }

/-- The record as it was created again. -/
def successor : Record := { founder with token := 1767225601000001 }

/-- A directory is opened again between a deletion and a creation; the one who deletes last has
only a copy of the first record. -/
def succession : List Deed :=
  [.call founded (.create founder), .call founded (.delete founderCopy), .reopen,
   .call refounded (.create founder), .call refounded (.delete founderCopy)]

def founderStore : Directory := (emptyDirectory.perform founded (.create founder)).2

def clearedStore : Directory := ⟨⟨founderStore.folder.entries.erase (place founder.key).name⟩, 0⟩

def successorStore : Directory := (clearedStore.perform refounded (.create founder)).2

theorem founder_fits : founder.Fits where
  scopeIds := .nil
  sources := nofun
  generation := by decide
  token := by decide
  status :=
    { configVersion := by decide
      lastSyncTime := nofun
      retryCount := by decide
      maxRetries := by decide
      failedAt := nofun
      nextRetryAt := nofun
      observedGeneration := by decide
      resultData := .nil
      snapshot := nofun }
  createdAt := ⟨by decide, by decide, by decide⟩
  updatedAt := ⟨by decide, by decide, by decide⟩

theorem founder_lasting : founder.Lasting :=
  Record.lasting_iff.2 ⟨by decide, nofun, by decide⟩

theorem founderCopy_carried : founderCopy.carried = true := by
  rw [Record.carried_eq]
  decide +kernel

theorem founderCopy_readable : Record.ofDocument? founderCopy.document = some founderCopy := by
  have fits : founderCopy.Fits := founder_fits.withToken (by decide)
  exact (Record.ofDocument?_document_eq_some fits founderCopy_carried).2
    (founder_lasting.withToken _)

theorem successor_readable : Record.ofDocument? successor.document = some successor := by
  have carried : successor.carried = true := by
    rw [Record.carried_eq]
    decide +kernel
  have fits : successor.Fits := founder_fits.withToken (by decide)
  exact (Record.ofDocument?_document_eq_some fits carried).2 (founder_lasting.withToken _)

theorem founderStore_load : founderStore.load founder.key = .ok founderCopy := by
  have there : founderStore.folder.entry? (place founder.key) = some (filed founderCopy) := rfl
  rw [Directory.load_of_filed there, founderCopy_readable]
  rfl

theorem founderStore_delete :
    founderStore.perform founded (.delete founderCopy) =
      (.ok (), { clearedStore with lastToken := founderStore.lastToken }) := by
  have valid : checkKey founderCopy.key = .ok () := rfl
  have current : founderStore.current founderCopy = .ok founderCopy := by
    rw [Directory.current, valid, show founderStore.load founderCopy.key = _ from founderStore_load]
    rfl
  have removed : founderStore.folder.remove? base (Paths.recordName founderCopy.key) =
      some clearedStore.folder := rfl
  rw [Directory.perform, Directory.delete, current]
  simp only [removed]
  rfl

theorem successorStore_delete :
    successorStore.perform refounded (.delete founderCopy) =
      (.error (.conflict founder.key founderCopy.token successor.token), successorStore) := by
  have there : successorStore.folder.entry? (place founder.key) = some (filed successor) := rfl
  have load : successorStore.load founderCopy.key = .ok successor :=
    (Directory.load_of_filed there).trans (by rw [successor_readable]; rfl)
  have valid : checkKey founderCopy.key = .ok () := rfl
  have current : successorStore.current founderCopy =
      .error (.conflict founder.key founderCopy.token successor.token) := by
    rw [Directory.current, valid, load]
    rfl
  rw [Directory.perform, Directory.delete, current]

/-- The calls of the succession, with the stores that they meet. -/
theorem turns_succession :
    turns (.directory emptyDirectory) succession =
      [⟨.directory emptyDirectory, founded, .create founder⟩,
       ⟨.directory founderStore, founded, .delete founderCopy⟩,
       ⟨.directory clearedStore, refounded, .create founder⟩,
       ⟨.directory successorStore, refounded, .delete founderCopy⟩] := by
  have created : ((Backend.directory emptyDirectory).perform founded (.create founder)).2 =
      .directory founderStore := rfl
  have deleted : ((Backend.directory founderStore).perform founded (.delete founderCopy)).2.reopen =
      .directory clearedStore := by
    rw [Backend.perform_directory, founderStore_delete]
    rfl
  have recreated : ((Backend.directory clearedStore).perform refounded (.create founder)).2 =
      .directory successorStore := rfl
  simp only [succession, turns, created, deleted, recreated]

theorem founding_answer :
    (Turn.mk (.directory emptyDirectory) founded (.create founder)).answer = .ok founderCopy := rfl

theorem removal_answer :
    (Turn.mk (.directory founderStore) founded (.delete founderCopy)).answer = .ok () := by
  rw [Turn.answer, Backend.perform_directory, founderStore_delete]

theorem refounding_answer :
    (Turn.mk (.directory clearedStore) refounded (.create founder)).answer = .ok successor := rfl

theorem mistake_answer :
    (Turn.mk (.directory successorStore) refounded (.delete founderCopy)).answer =
      .error (.conflict founder.key founderCopy.token successor.token) := by
  rw [Turn.answer, Backend.perform_directory, successorStore_delete]

theorem founding_issued :
    (Turn.mk (.directory emptyDirectory) founded (.create founder)).issued? =
      some 1767225600000001 := rfl

theorem removal_issued :
    (Turn.mk (.directory founderStore) founded (.delete founderCopy)).issued? = none := by
  rw [Turn.issued?, Turn.after, Backend.perform_directory, founderStore_delete]
  exact if_pos rfl

theorem Turn.smooth_of_create {b : Backend} {now : Instant} {r v : Record}
    (answer : (Turn.mk b now (.create r)).answer = .ok v)
    (readable : Record.ofDocument? v.document = some v) : (Turn.mk b now (.create r)).Smooth := by
  refine ⟨by rw [answer]; nofun, fun _ _ w written => ?_⟩
  rw [Turn.written?, answer] at written
  obtain rfl := Option.some.inj written
  exact readable

theorem Turn.smooth_of_delete {b : Backend} {now : Instant} {r : Record}
    (answer : (Turn.mk b now (.delete r)).answer ≠ .error .unreachable) :
    (Turn.mk b now (.delete r)).Smooth := by
  refine ⟨answer, fun _ _ w written => ?_⟩
  rw [Turn.written?] at written
  cases (Turn.mk b now (.delete r)).answer <;> cases written

theorem succession_steady : Steady (.directory emptyDirectory) succession where
  turn := by
    rw [turns_succession]
    simp only [List.forall_mem_cons]
    refine ⟨?_, ?_, ?_, ?_, List.forall_mem_nil _⟩
    · exact Turn.smooth_of_create founding_answer founderCopy_readable
    · exact Turn.smooth_of_delete (by rw [removal_answer]; nofun)
    · exact Turn.smooth_of_create refounding_answer successor_readable
    · exact Turn.smooth_of_delete (by rw [mistake_answer]; nofun)
  clock := by
    intro earlier t later split
    rw [turns_succession] at split
    rcases earlier with _ | ⟨_, _ | ⟨_, _ | ⟨_, _ | ⟨_, _⟩⟩⟩⟩
    · exact fun _ _ _ issued => absurd issued List.not_mem_nil
    · simp only [List.cons_append, List.nil_append, List.cons.injEq] at split
      obtain ⟨-, rfl, -⟩ := split
      rintro ⟨d, here, opened⟩
      obtain rfl : founderStore = d := Backend.directory.inj here
      have counted : founderStore.lastToken = 1767225600000001 := rfl
      omega
    · simp only [List.cons_append, List.nil_append, List.cons.injEq] at split
      obtain ⟨rfl, rfl, rfl, -⟩ := split
      intro _ _ old issued
      obtain ⟨u, mem, issued⟩ := List.mem_filterMap.1 issued
      rcases List.mem_pair.1 mem with rfl | rfl
      · obtain rfl := Option.some.inj (founding_issued.symm.trans issued)
        decide
      · cases removal_issued.symm.trans issued
    · simp only [List.cons_append, List.nil_append, List.cons.injEq] at split
      obtain ⟨-, -, -, rfl, -⟩ := split
      rintro ⟨d, here, opened⟩
      obtain rfl : successorStore = d := Backend.directory.inj here
      have counted : successorStore.lastToken = 1767225601000001 := rfl
      omega
    · simp at split

/-- The first copy is of no use after the record was created again: it is refused, although the
directory was opened in between and does not know what it had issued before. -/
theorem successor_kept :
    ∃ earlier t, turns (.directory emptyDirectory) succession = earlier ++ [t] ∧
      t.Lawful earlier ∧ t.call = .delete founderCopy ∧ t.granted = false := by
  have fresh : (Backend.directory emptyDirectory).Fresh :=
    .directory (Table.ascending_ofList _) (by decide)
  have split : turns (.directory emptyDirectory) succession =
      [⟨.directory emptyDirectory, founded, .create founder⟩,
       ⟨.directory founderStore, founded, .delete founderCopy⟩,
       ⟨.directory clearedStore, refounded, .create founder⟩] ++
      [⟨.directory successorStore, refounded, .delete founderCopy⟩] := turns_succession
  have lawful := lawful_of_turns fresh succession_steady split
  have removed :
      (Turn.mk (.directory founderStore) founded (.delete founderCopy)).granted = true := by
    rw [Turn.granted, removal_answer]
    rfl
  have read : (Backend.directory founderStore).shown founder.key = some founderCopy := by
    rw [Backend.shown, Backend.perform_directory, Directory.perform,
      show checkKey founder.key = .ok () from rfl]
    simp only [founderStore_load]
    rfl
  refine ⟨_, _, split, lawful, rfl, ?_⟩
  exact lawful.outdated [_] _ [_] founderCopy rfl rfl removed _
    (List.mem_append_right _ (List.mem_singleton.2 rfl)) founderCopy read founderCopy
    (.inr (.inr rfl)) rfl rfl

end Tributary.Rehearsal
