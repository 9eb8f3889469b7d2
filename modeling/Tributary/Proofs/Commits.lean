import Tributary.Proofs.Crew
import Tributary.Proofs.Protocol

/-!
# Commits

A granted write replaces exactly the version that its writer has read last, whatever others
have done: versions differ in their tokens, and a write carries the token of the version it
was made of. `Run.commit` says so for every move of a crew whose members keep to protocols.
-/

namespace Tributary

namespace Memory

/-- A version that was handed out: as long as its token is the stored one, so is the rest. -/
def Issued (m : Memory) (c : Record) : Prop :=
  c.token < m.nextToken ∧ ∀ v, m.records.get? c.key = some v → v.token = c.token → v = c

variable {m m' : Memory} {c : Record}

theorem Sound.issued (h : m.Sound) (found : m.records.get? c.key = some c) : m.Issued c := by
  refine ⟨(h _ _ found).2, fun v hv _ => ?_⟩
  rw [found] at hv
  exact (Option.some.inj hv).symm

theorem Issued.put (h : m.Issued c) {r : Record} (fresh : r.token = m.nextToken) :
    (m.put r).Issued c := by
  have next : (m.put r).nextToken = m.nextToken + 1 := rfl
  obtain ⟨given, unique⟩ := h
  refine ⟨by omega, fun v hv same => ?_⟩
  rw [get?_put] at hv
  split at hv
  · cases hv
    omega
  · exact unique v hv same

theorem Grants.issued {call : Store.Call} {a : call.Result} (g : m.Grants call a m')
    (h : m.Issued c) : m'.Issued c := by
  cases g with
  | get | list => exact h
  | create => exact h.put rfl
  | update => exact h.put rfl
  | updateStatus => exact h.put rfl
  | delete =>
    refine ⟨h.1, fun v hv same => ?_⟩
    simp only [Table.get?_erase] at hv
    split at hv
    · cases hv
    · exact h.2 v hv same

end Memory

/-- What a member has read is stored after the move. -/
theorem Serves.stored {faulty : StoreError → Prop} {m m' : Memory} {x : Exchange} {c : Record}
    (h : Serves faulty m x.request x.answer m') (sound : m.Sound) (read : x.read? = some c) :
    m'.records.get? c.key = some c := by
  obtain ⟨key, rfl⟩ | ⟨r, rfl⟩ := Exchange.eq_of_read read
  · cases granted h with
    | get found =>
      rw [(sound key c found).1]
      exact found
  · cases granted h with
    | create => simp

namespace Run

variable {faulty : StoreError → Prop} {crew : Crew} {start m : Memory} {history : List Move}
  {i : Nat} {c : Record}

theorem issued (run : Run faulty crew start history m) (h : start.Sound) {x : Exchange}
    (hx : x ∈ own i history) (read : x.read? = some c) : m.Issued c := by
  induction run with
  | start => cases hx
  | @move past m m' run j q next a left serves ih =>
    have kept (earlier : m.Issued c) : m'.Issued c := by
      cases q with
      | store call =>
        cases a with
        | ok a => exact serves.granted.issued earlier
        | error e => exact serves.refused ▸ earlier
      | _ => exact (show m' = m from serves) ▸ earlier
    by_cases same : j = i
    · subst same
      rw [own_cons_self ⟨j, ⟨q, a⟩, m, m'⟩ past] at hx
      cases hx with
      | head =>
        have stored := Serves.stored (x := ⟨q, a⟩) serves (run.sound h) read
        exact (serves.sound (run.sound h)).issued stored
      | tail _ hx => exact kept (ih hx)
    · rw [own_cons_of_ne (m := ⟨j, ⟨q, a⟩, m, m'⟩) same past] at hx
      exact kept (ih hx)

/-- The stored version is the one that a member has read last if their tokens agree. -/
theorem eq_lastRead (run : Run faulty crew start history m) (h : start.Sound)
    (read : lastRead (own i history) = some c) {v : Record}
    (found : m.records.get? c.key = some v) (same : c.token = v.token) : v = c := by
  obtain ⟨since, x, before, split, hx, _⟩ := exists_of_lastRead read
  have mem : x ∈ own i history := by
    rw [split]
    simp
  exact (run.issued h mem hx).2 v found same.symm

end Run

/-! ## Readings -/

/-- A member has just read a version. -/
def Reads (i : Nat) (c : Record) (history : List Move) : Prop :=
  ∃ mv past, history = mv :: past ∧ mv.member = i ∧ mv.exchange.read? = some c

theorem Run.stored_of_reads {faulty : StoreError → Prop} {crew : Crew} {start m : Memory}
    {history : List Move} {i : Nat} {c : Record} (run : Run faulty crew start history m)
    (h : start.Sound) (reads : Reads i c history) : m.records.get? c.key = some c := by
  obtain ⟨mv, past, rfl, _, read⟩ := reads
  obtain ⟨before, serves, _⟩ := run.last
  rw [run.memory_eq]
  exact serves.stored (before.sound h) read

theorem exists_reads {i : Nat} {history : List Move} {c : Record}
    (read : lastRead (own i history) = some c) :
    ∃ since before, history = since ++ before ∧ Reads i c before := by
  obtain ⟨_, x, _, split, hx, _⟩ := exists_of_lastRead read
  obtain ⟨since, mv, before, rfl, member, rfl, _⟩ := exists_of_own split
  exact ⟨since, mv :: before, rfl, mv, before, rfl, member, hx⟩

/-- A version that a member held at an earlier exchange was read before that. -/
theorem exists_reads_of_heldAt {i : Nat} {history : List Move} {k : Exchange.Kind}
    {c : Record} (held : heldAt k (own i history) = some c) :
    ∃ since before, history = since ++ before ∧ Reads i c before := by
  have split := (List.takeWhile_append_dropWhile (p := (·.kind ≠ k)) (l := own i history)).symm
  obtain ⟨later, earlier, rfl, _, rest⟩ := exists_of_own_append split
  unfold heldAt at held
  rw [← rest] at held
  obtain ⟨since, before, rfl, reads⟩ := exists_reads held
  exact ⟨later ++ since, before, (List.append_assoc ..).symm, reads⟩

/-- A version that a member held at an earlier exchange was read no later than the one that
it has read last. -/
theorem exists_reads_both {i : Nat} {history : List Move} {k : Exchange.Kind} {g c : Record}
    (upkeep : k ≠ .upkeep) (creation : k ≠ .creation)
    (held : heldAt k (own i history) = some g) (read : lastRead (own i history) = some c) :
    ∃ after between before, history = after ++ (between ++ before) ∧ Reads i g before ∧
      Reads i c (between ++ before) := by
  obtain ⟨_, x, past, split, hx, cases⟩ := heldAt_cases upkeep creation held read
  obtain ⟨after, mv, earlier, rfl, member, rfl, _, rfl⟩ := exists_of_own split
  have last : Reads i c (mv :: earlier) := ⟨mv, earlier, rfl, member, hx⟩
  obtain rfl | held := cases
  · exact ⟨after, [], mv :: earlier, rfl, last, last⟩
  · obtain ⟨since, before, rfl, reads⟩ := exists_reads_of_heldAt held
    exact ⟨after, mv :: since, before, rfl, reads, last⟩

/-! ## Moves that write -/

/-- A write of a record was granted. -/
def Exchange.commits (key : String) : Exchange → Bool
  | ⟨.store (.create r), .ok _⟩ => r.key = key
  | ⟨.store (.update r), .ok _⟩ => r.key = key
  | ⟨.store (.updateStatus r), .ok _⟩ => r.key = key
  | ⟨.store (.delete r), .ok _⟩ => r.key = key
  | _ => false

/-- What a move of a member that keeps to a protocol makes of a record. -/
inductive Commit (p : Protocol) (past : List Exchange) (key : String) :
    Exchange → Option Record → Option Record → Prop
  | kept {x : Exchange} (none : x.commits key = false) (v : Option Record) :
      Commit p past key x v v
  | created {r : Record} (token : Nat) (mine : p.key = key) (hkey : r.key = key)
      (creates : p.creates r) :
      Commit p past key ⟨.store (.create r), .ok { r with token }⟩ none (some { r with token })
  | edited {v r : Record} (token : Nat) (now : Instant) (mine : p.key = key) (hkey : r.key = key)
      (read : lastRead past = some v) (edits : p.edits past v r) :
      Commit p past key ⟨.store (.update r), .ok token⟩ (some v) (some (r.updated v token now))
  | marked {v r : Record} (token : Nat) (mine : p.key = key) (hkey : r.key = key)
      (read : lastRead past = some v) (marks : p.marks past v r.status) :
      Commit p past key ⟨.store (.updateStatus r), .ok token⟩ (some v)
        (some (r.statusUpdated v token))
  | deleted {v : Record} (mine : p.key = key) (hkey : v.key = key)
      (read : lastRead past = some v) (deletes : p.deletes past v) :
      Commit p past key ⟨.store (.delete v), .ok ()⟩ (some v) none

namespace Commit

variable {p : Protocol} {past : List Exchange} {old new : Memory}
  (current : ∀ c v, lastRead past = some c → old.records.get? c.key = some v →
    c.token = v.token → v = c) (key : String)

theorem of_same {x : Exchange} (same : new = old) (none : x.commits key = false) :
    Commit p past key x (old.records.get? key) (new.records.get? key) := by
  rw [same]
  exact .kept none _

theorem of_create {r c : Record} (granted : old.Grants (.create r) c new)
    (asked : p.Allows past (.store (.create r))) :
    Commit p past key ⟨.store (.create r), .ok c⟩ (old.records.get? key)
      (new.records.get? key) := by
  cases granted with
  | create absent =>
    by_cases hkey : r.key = key
    · rw [← hkey, absent]
      simpa using Commit.created _ asked.1.symm rfl asked.2
    · rw [Memory.get?_put, if_neg (Ne.symm hkey)]
      exact .kept (by simp [Exchange.commits, hkey]) _

include current

theorem of_update {r : Record} {token : Nat} (granted : old.Grants (.update r) token new)
    (asked : p.Allows past (.store (.update r))) :
    Commit p past key ⟨.store (.update r), .ok token⟩ (old.records.get? key)
      (new.records.get? key) := by
  obtain ⟨c, read, mine, sameKey, sameToken, edits⟩ := asked
  cases granted with
  | @update _ v now found carried =>
    rw [Memory.get?_put, Memory.key_updated]
    by_cases hkey : r.key = key
    · obtain rfl := current c v read (sameKey ▸ found) (sameToken ▸ carried)
      rw [← hkey, found, if_pos rfl]
      exact .edited _ now (mine.symm.trans sameKey.symm) rfl read edits
    · rw [if_neg (Ne.symm hkey)]
      exact .kept (by simp [Exchange.commits, hkey]) _

theorem of_updateStatus {r : Record} {token : Nat}
    (granted : old.Grants (.updateStatus r) token new)
    (asked : p.Allows past (.store (.updateStatus r))) :
    Commit p past key ⟨.store (.updateStatus r), .ok token⟩ (old.records.get? key)
      (new.records.get? key) := by
  obtain ⟨c, read, mine, sameKey, sameToken, marks⟩ := asked
  cases granted with
  | @updateStatus _ v found carried =>
    obtain rfl := current c v read (sameKey ▸ found) (sameToken ▸ carried)
    rw [Memory.get?_put, Memory.key_statusUpdated]
    by_cases hkey : r.key = key
    · rw [← hkey, found, if_pos sameKey]
      exact .marked _ (mine.symm.trans sameKey.symm) rfl read marks
    · rw [if_neg fun other => hkey (sameKey.trans other.symm)]
      exact .kept (by simp [Exchange.commits, hkey]) _

theorem of_delete {r : Record} (granted : old.Grants (.delete r) () new)
    (asked : p.Allows past (.store (.delete r))) :
    Commit p past key ⟨.store (.delete r), .ok ()⟩ (old.records.get? key)
      (new.records.get? key) := by
  obtain ⟨read, mine, deletes⟩ := asked
  cases granted with
  | @delete _ v found carried =>
    obtain rfl := current r v read found carried
    rw [Table.get?_erase]
    by_cases hkey : v.key = key
    · rw [← hkey, found, if_pos rfl]
      exact .deleted mine.symm rfl read deletes
    · rw [if_neg (Ne.symm hkey)]
      exact .kept (by simp [Exchange.commits, hkey]) _

end Commit

theorem Run.commit {faulty : StoreError → Prop} {crew : Crew} {start m : Memory}
    {earlier : List Move} {mv : Move} {p : Protocol}
    {ends : List Exchange → crew.Result mv.member → Prop}
    (run : Run faulty crew start (mv :: earlier) m) (h : start.Sound)
    (keeps : (crew.program mv.member).Ensures p.Asks ends []) (key : String) :
    Commit p (own mv.member earlier) key mv.exchange (mv.before.records.get? key)
      (mv.after.records.get? key) := by
  obtain ⟨before, serves, _⟩ := run.last
  have asked := (run.asked h rfl keeps).2
  have current (c v : Record) (read : lastRead (own mv.member earlier) = some c) :=
    before.eq_lastRead h read (v := v)
  obtain ⟨i, ⟨q, a⟩, old, new⟩ := mv
  match q, a with
  | .store (.create r), .ok c => exact .of_create key serves.granted asked
  | .store (.update r), .ok token => exact .of_update current key serves.granted asked
  | .store (.updateStatus r), .ok token => exact .of_updateStatus current key serves.granted asked
  | .store (.delete r), .ok () => exact .of_delete current key serves.granted asked
  | .store (.get k), .ok r =>
    refine .of_same key ?_ rfl
    cases Serves.granted serves
    rfl
  | .store .list, _ => exact asked.elim
  | .store (.get _), .error _ | .store (.create _), .error _ | .store (.update _), .error _
  | .store (.updateStatus _), .error _ | .store (.delete _), .error _ =>
    exact .of_same key serves.refused rfl
  | .now, _ | .sleep _, _ | .coalescing _, _ | .aggregate _ _, _ | .credentials _, _
  | .push _ _ _ _, _ | .teardown _ _ _ _, _ => exact .of_same key serves rfl

/-! ## Writes as such -/

/-- Something is to be written. -/
def Request.isWrite : Request → Bool
  | .store call => call.event?.isSome
  | _ => false

/-- A write was granted. -/
def Exchange.isCommit : Exchange → Bool
  | ⟨.store call, .ok _⟩ => call.event?.isSome
  | _ => false

theorem isWrite_of_isCommit {x : Exchange} (h : x.isCommit = true) : x.request.isWrite = true := by
  unfold Exchange.isCommit at h
  split at h
  · exact h
  · cases h

/-- What is stored after a write of half of what was made of the stored version. -/
def Half.merged : Half → (made stored : Record) → (token : Nat) → (now : Instant) → Record
  | .spec, made, stored, token, now => made.updated stored token now
  | .status, made, stored, token, _ => made.statusUpdated stored token

theorem Half.key_merged (half : Half) {made stored : Record} (same : made.key = stored.key)
    (token : Nat) (now : Instant) : (half.merged made stored token now).key = stored.key := by
  cases half
  · exact same
  · rfl

namespace Update

@[simp] theorem isWrite_written (half : Half) (r : Record) (answer : Except StoreError Nat) :
    (written half r answer).request.isWrite = true := by cases half <;> rfl

@[simp] theorem isCommit_written (half : Half) (r : Record) (answer : Except StoreError Nat) :
    (written half r answer).isCommit = answer.isOk := by
  cases half <;> cases answer <;> rfl

theorem exists_written {half : Half} {r : Record} {x : Exchange}
    (asked : x.request = .store (writing half r)) (granted : x.isCommit = true) :
    ∃ token, x = written half r (.ok token) := by
  obtain ⟨q, a⟩ := x
  obtain rfl : q = _ := asked
  cases half <;> cases a
  case spec.ok | status.ok => exact ⟨_, rfl⟩
  all_goals cases granted

end Update

namespace Serves

variable {faulty : StoreError → Prop} {m m' : Memory}

theorem wrote {half : Half} {r : Record} {token : Nat}
    (h : Serves faulty m (Update.written half r (.ok token)).request
      (Update.written half r (.ok token)).answer m') :
    ∃ stored now, m.records.get? r.key = some stored ∧ r.token = stored.token ∧
      token = m.nextToken ∧ m' = m.put (half.merged r stored token now) := by
  cases half with
  | spec =>
    have granted : m.Grants (.update r) token m' := Serves.granted h
    clear h
    cases granted with
    | update now found current => exact ⟨_, now, found, current, rfl, rfl⟩
  | status =>
    have granted : m.Grants (.updateStatus r) token m' := Serves.granted h
    clear h
    cases granted with
    | updateStatus found current => exact ⟨_, default, found, current, rfl, rfl⟩

theorem same {x : Exchange} (h : Serves faulty m x.request x.answer m')
    (none : x.isCommit = false) : m' = m := by
  obtain ⟨q, a⟩ := x
  cases q with
  | store c =>
    cases a with
    | error e => exact Serves.refused h
    | ok a =>
      have granted : m.Grants c a m' := Serves.granted h
      clear h
      cases granted with
      | get | list => rfl
      | create | update | updateStatus | delete => cases none
  | _ => exact h

end Serves

end Tributary
