import Tributary.Proofs.Shelves

/-!
# Records that are the same up to their tokens

Two memories that hold the same records, up to tokens and times of change, answer alike what they
are asked alike (`Memory.perform_alike`). A token in one stands for a token in the other, one for
one; `told` has the pairs that have been told so far, and a write that is granted adds the tokens
that were next.
-/

namespace Tributary

namespace Record

/-- Records that differ in their tokens and the times of their change only. -/
def Same (r r' : Record) : Prop :=
  ∃ token updatedAt, r' = { r with token, updatedAt }

/-- Records that are the same, with tokens that stand for one another. -/
def Alike (told : List (Nat × Nat)) (r r' : Record) : Prop :=
  r.Same r' ∧ (r.token, r'.token) ∈ told

namespace Same

variable {r r' stored stored' : Record}

theorem key (same : r.Same r') : r'.key = r.key := by
  obtain ⟨token, updatedAt, rfl⟩ := same
  rfl

theorem updated (same : r.Same r') (there : stored.Same stored') (token token' : Nat)
    (now now' : Instant) :
    (r.updated stored token now).Same (r'.updated stored' token' now') := by
  obtain ⟨_, _, rfl⟩ := same
  obtain ⟨_, _, rfl⟩ := there
  exact ⟨token', now', rfl⟩

theorem statusUpdated (same : r.Same r') (there : stored.Same stored') (token token' : Nat) :
    (r.statusUpdated stored token).Same (r'.statusUpdated stored' token') := by
  obtain ⟨_, _, rfl⟩ := same
  obtain ⟨_, updatedAt, rfl⟩ := there
  exact ⟨token', updatedAt, rfl⟩

end Same

end Record

/-- The tokens in an error. -/
def StoreError.tokens : StoreError → List Nat
  | .conflict _ expected actual => [expected, actual]
  | _ => []

/-- Errors that are the same up to the tokens in them. -/
inductive StoreError.Alike (told : List (Nat × Nat)) : StoreError → StoreError → Prop
  | conflict {key : String} {expected expected' actual actual' : Nat}
      (first : (expected, expected') ∈ told) (second : (actual, actual') ∈ told) :
      Alike told (.conflict key expected actual) (.conflict key expected' actual')
  | same {e : StoreError} (plain : e.tokens = []) : Alike told e e

namespace Store.Call

/-- The record that is given with a call. -/
def record? : Call → Option Record
  | .create r => some r
  | .update r => some r
  | .updateStatus r => some r
  | .delete r => some r
  | .get _ => none
  | .list => none

/-- The tokens that an answer tells. -/
def tokens : (c : Call) → Answer c → List Nat
  | _, .error e => e.tokens
  | .get _, .ok r => [r.token]
  | .create _, .ok r => [r.token]
  | .update _, .ok token => [token]
  | .updateStatus _, .ok token => [token]
  | .delete _, .ok _ => []
  | .list, .ok _ => []

/-- Calls that ask for the same; the token of a record to be created does not matter. -/
inductive Alike (told : List (Nat × Nat)) : Call → Call → Prop
  | get (key : String) : Alike told (.get key) (.get key)
  | create {r r' : Record} (same : r.Same r') : Alike told (.create r) (.create r')
  | update {r r' : Record} (alike : r.Alike told r') : Alike told (.update r) (.update r')
  | updateStatus {r r' : Record} (alike : r.Alike told r') :
      Alike told (.updateStatus r) (.updateStatus r')
  | delete {r r' : Record} (alike : r.Alike told r') : Alike told (.delete r) (.delete r')
  | list : Alike told .list .list

/-- They are about the same key, and have the same event. -/
theorem Alike.about {told : List (Nat × Nat)} {c c' : Call} (asked : c.Alike told c') :
    c.key? = c'.key? ∧ c.event? = c'.event? := by
  cases asked with
  | get | list => exact ⟨rfl, rfl⟩
  | create same =>
    obtain ⟨token, updatedAt, rfl⟩ := same
    exact ⟨rfl, rfl⟩
  | update copies | updateStatus copies | delete copies =>
    obtain ⟨⟨token, updatedAt, rfl⟩, -⟩ := copies
    exact ⟨rfl, rfl⟩

/-- Answers that say the same. -/
inductive Agree (told : List (Nat × Nat)) :
    (c : Call) → Answer c → (c' : Call) → Answer c' → Prop
  | got {key : String} {r r' : Record} (alike : r.Alike told r') :
      Agree told (.get key) (.ok r) (.get key) (.ok r')
  | created {r r' v v' : Record} (alike : v.Alike told v') :
      Agree told (.create r) (.ok v) (.create r') (.ok v')
  | updated {r r' : Record} {token token' : Nat} (alike : (token, token') ∈ told) :
      Agree told (.update r) (.ok token) (.update r') (.ok token')
  | statusUpdated {r r' : Record} {token token' : Nat} (alike : (token, token') ∈ told) :
      Agree told (.updateStatus r) (.ok token) (.updateStatus r') (.ok token')
  | deleted {r r' : Record} : Agree told (.delete r) (.ok ()) (.delete r') (.ok ())
  | listed {keys : List String} : Agree told .list (.ok keys) .list (.ok keys)
  | refused {c c' : Call} {e e' : StoreError} (alike : e.Alike told e') :
      Agree told c (.error e) c' (.error e')

theorem Agree.isOk {told : List (Nat × Nat)} {c c' : Call} {a : Answer c} {a' : Answer c'}
    (agree : c.Agree told a c' a') : a.isOk = a'.isOk := by
  cases agree <;> rfl

/-- The tokens that two answers tell, each with the one in its place. -/
def pairsTold (c : Call) (a : Answer c) (c' : Call) (a' : Answer c') : List (Nat × Nat) :=
  (c.tokens a).zip (c'.tokens a')

theorem pairsTold_error (c c' : Call) (e e' : StoreError) :
    c.pairsTold (.error e) c' (.error e') = e.tokens.zip e'.tokens := by
  have tokens (c : Call) (e : StoreError) : c.tokens (.error e) = e.tokens := by
    cases c <;> rfl
  rw [pairsTold, tokens, tokens]

end Store.Call

/-- Tokens that stand for one another, one for one. -/
def OneToOne (told : List (Nat × Nat)) : Prop :=
  ∀ p ∈ told, ∀ q ∈ told, p.1 = q.1 ↔ p.2 = q.2

/-- Tokens that are issued after all that were told stand for one another. -/
theorem OneToOne.append {told new : List (Nat × Nat)} (one : OneToOne told)
    {next next' : Option Nat} (known : ∀ q ∈ new, q ∈ told ∨ next = some q.1 ∧ next' = some q.2)
    (above : ∀ q ∈ told, (∀ token, next = some token → q.1 < token) ∧
      ∀ token, next' = some token → q.2 < token) : OneToOne (told ++ new) := by
  have origin {q : Nat × Nat} (mem : q ∈ told ++ new) :
      q ∈ told ∨ next = some q.1 ∧ next' = some q.2 :=
    (List.mem_append.1 mem).elim .inl (known q)
  intro p mem q mem'
  rcases origin mem with old | ⟨issued, issued'⟩
  · rcases origin mem' with old' | ⟨issued, issued'⟩
    · exact one p old q old'
    · have first := (above p old).1 _ issued
      have second := (above p old).2 _ issued'
      omega
  · rcases origin mem' with old | ⟨again, again'⟩
    · have first := (above q old).1 _ issued
      have second := (above q old).2 _ issued'
      omega
    · have first := Option.some.inj (issued.symm.trans again)
      have second := Option.some.inj (issued'.symm.trans again')
      exact iff_of_true first second

/-- The same records under the same keys. -/
def Record.Matching (told : List (Nat × Nat)) (stored stored' : String → Option Record) : Prop :=
  ∀ key, Option.Rel (Record.Alike told) (stored key) (stored' key)

theorem Record.Matching.both {told : List (Nat × Nat)} {stored stored' : String → Option Record}
    (alike : Matching told stored stored') (key : String) :
    (stored key = none ∧ stored' key = none) ∨
      ∃ v v', stored key = some v ∧ stored' key = some v' ∧ v.Alike told v' := by
  have here := alike key
  generalize stored key = v, stored' key = v' at here
  cases here with
  | none => exact .inl ⟨rfl, rfl⟩
  | some same => exact .inr ⟨_, _, rfl, rfl, same⟩

/-! ## More tokens -/

section Mono

variable {told told' : List (Nat × Nat)}

theorem Record.Alike.mono (more : told ⊆ told') {r r' : Record} (alike : r.Alike told r') :
    r.Alike told' r' :=
  ⟨alike.1, more alike.2⟩

theorem StoreError.Alike.mono (more : told ⊆ told') {e e' : StoreError} (alike : e.Alike told e') :
    e.Alike told' e' := by
  cases alike with
  | conflict first second => exact .conflict (more first) (more second)
  | same plain => exact .same plain

theorem Record.Matching.mono (more : told ⊆ told') {stored stored' : String → Option Record}
    (alike : Matching told stored stored') : Matching told' stored stored' := by
  intro key
  rcases alike.both key with ⟨absent, absent'⟩ | ⟨v, v', found, found', same⟩
  · rw [absent, absent']
    exact .none
  · rw [found, found']
    exact .some (same.mono more)

theorem Store.Call.Agree.mono (more : told ⊆ told') {c c' : Store.Call} {a : Store.Answer c}
    {a' : Store.Answer c'} (agree : c.Agree told a c' a') : c.Agree told' a c' a' := by
  cases agree with
  | got alike => exact .got (alike.mono more)
  | created alike => exact .created (alike.mono more)
  | updated alike => exact .updated (more alike)
  | statusUpdated alike => exact .statusUpdated (more alike)
  | deleted => exact .deleted
  | listed => exact .listed
  | refused alike => exact .refused (alike.mono more)

end Mono

/-! ## Tables -/

namespace Record.Matching

variable {told : List (Nat × Nat)} {records records' : Table Record}

theorem set (alike : Matching told records.get? records'.get?) (key : String) {v v' : Record}
    (same : v.Alike told v') :
    Matching told (records.set key v).get? (records'.set key v').get? := by
  intro other
  rw [Table.get?_set, Table.get?_set]
  split
  · exact .some same
  · exact alike other

theorem erase (alike : Matching told records.get? records'.get?) (key : String) :
    Matching told (records.erase key).get? (records'.erase key).get? := by
  intro other
  rw [Table.get?_erase, Table.get?_erase]
  split
  · exact .none
  · exact alike other

theorem contains (alike : Matching told records.get? records'.get?) (key : String) :
    records.contains key = records'.contains key := by
  unfold Table.contains
  rcases alike.both key with ⟨absent, absent'⟩ | ⟨v, v', found, found', -⟩
  · rw [absent, absent']
  · rw [found, found']
    rfl

/-- Both lists are sorted, so they are the same. -/
theorem keys (alike : Matching told records.get? records'.get?) (ascending : records.Ascending)
    (ascending' : records'.Ascending) : records.keys = records'.keys := by
  rw [← Table.mergeSort_eq_keys ascending ascending.nodup fun key => records.mem_keys key]
  apply Table.mergeSort_eq_keys ascending' ascending.nodup
  intro key
  rw [records.mem_keys, alike.contains]

end Record.Matching

/-! ## Memory and memory -/

namespace Memory

variable {told : List (Nat × Nat)} {m m' : Memory} {r r' : Record}

theorem Grants.ascending {c : Store.Call} {a : c.Result} (grants : m.Grants c a m')
    (ascending : m.records.Ascending) : m'.records.Ascending := by
  cases grants with
  | get | list => exact ascending
  | create | update | updateStatus => exact ascending.set _ _
  | delete => exact ascending.erase _

theorem ascending_perform (ascending : m.records.Ascending) (now : Instant) (c : Store.Call) :
    (m.perform now c).2.records.Ascending := by
  cases answer : (m.perform now c).1 with
  | error e =>
    have same : (m.perform now c).2 = m := eq_of_perform_error (Prod.ext answer rfl)
    rwa [same]
  | ok a => exact (grants_of_perform (Prod.ext answer rfl)).ascending ascending

theorem find_alike (alike : Record.Matching told m.records.get? m'.records.get?) (key : String) :
    (∃ v v', m.find key = .ok v ∧ m'.find key = .ok v' ∧ v.Alike told v') ∨
      m.find key = .error (.notFound key) ∧ m'.find key = .error (.notFound key) := by
  unfold find
  rcases alike.both key with ⟨absent, absent'⟩ | ⟨v, v', found, found', same⟩
  · rw [absent, absent']
    exact .inr ⟨rfl, rfl⟩
  · rw [found, found']
    exact .inl ⟨v, v', rfl, rfl, same⟩

/-- A copy is outdated in one memory exactly if its like is in the other. -/
theorem current_alike (alike : Record.Matching told m.records.get? m'.records.get?)
    (one : OneToOne told) (copies : r.Alike told r') :
    (∃ v v', m.current r = .ok v ∧ m'.current r' = .ok v' ∧ v.Alike told v') ∨
      ∃ e e', m.current r = .error e ∧ m'.current r' = .error e' ∧ e.Alike told e' := by
  obtain ⟨⟨token, updatedAt, rfl⟩, standing⟩ := copies
  unfold current
  rcases find_alike alike r.key with ⟨v, v', found, found', same⟩ | ⟨absent, absent'⟩
  · have tokens : r.token = v.token ↔ token = v'.token := one _ standing _ same.2
    simp only [found, found', bind, Except.bind, pure, Except.pure, Record.checkToken]
    by_cases current : r.token = v.token
    · rw [if_pos current, if_pos (tokens.1 current)]
      exact .inl ⟨v, v', rfl, rfl, same⟩
    · rw [if_neg current, if_neg fun current' => current (tokens.2 current')]
      exact .inr ⟨_, _, rfl, rfl, .conflict standing same.2⟩
  · simp only [absent, absent', bind, Except.bind]
    exact .inr ⟨_, _, rfl, rfl, .same rfl⟩

/-- Calls that come to the same: they tell tokens that were told before or are issued for a write,
and they answer and leave the same up to these. -/
structure Alike (told : List (Nat × Nat)) (c : Store.Call) (o : Store.Answer c × Memory)
    (c' : Store.Call) (o' : Store.Answer c' × Memory) : Prop where
  known : ∀ q ∈ c.pairsTold o.1 c' o'.1,
    q ∈ told ∨ c.told? o.1 = some q.1 ∧ c'.told? o'.1 = some q.2
  agree : c.Agree (told ++ c.pairsTold o.1 c' o'.1) o.1 c' o'.1
  records : Record.Matching (told ++ c.pairsTold o.1 c' o'.1) o.2.records.get? o'.2.records.get?

section Calls

variable (alike : Record.Matching told m.records.get? m'.records.get?)

include alike

/-- Nothing new is told with an error. -/
theorem alike_error (c c' : Store.Call) {e e' : StoreError} (errors : e.Alike told e') :
    Alike told c (.error e, m) c' (.error e', m') := by
  constructor
  case known =>
    intro q mem
    left
    cases errors with
    | conflict first second =>
      rw [Store.Call.pairsTold_error] at mem
      rcases List.mem_cons.1 mem with rfl | mem
      · exact first
      · obtain rfl := List.mem_singleton.1 mem
        exact second
    | same plain =>
      rw [Store.Call.pairsTold_error, plain] at mem
      cases mem
  case agree => exact .refused (errors.mono (List.subset_append_left _ _))
  case records => exact alike.mono (List.subset_append_left _ _)

/-- A write that is granted tells the token that was next, which the version has. -/
theorem alike_put {c c' : Store.Call} {a : c.Result} {a' : c'.Result} {v v' : Record}
    (same : v.Same v') (next : v.token = m.nextToken) (next' : v'.token = m'.nextToken)
    (tells : c.tokens (.ok a) = [m.nextToken] ∧ c.told? (.ok a) = some m.nextToken)
    (tells' : c'.tokens (.ok a') = [m'.nextToken] ∧ c'.told? (.ok a') = some m'.nextToken)
    (agree : v.Alike (told ++ [(m.nextToken, m'.nextToken)]) v' →
      c.Agree (told ++ [(m.nextToken, m'.nextToken)]) (.ok a) c' (.ok a')) :
    Alike told c (.ok a, m.put v) c' (.ok a', m'.put v') := by
  have new : c.pairsTold (.ok a) c' (.ok a') = [(m.nextToken, m'.nextToken)] := by
    rw [Store.Call.pairsTold, tells.1, tells'.1]
    rfl
  have versions : v.Alike (told ++ [(m.nextToken, m'.nextToken)]) v' := by
    refine ⟨same, ?_⟩
    rw [next, next']
    exact List.mem_append_right _ (List.mem_singleton.2 rfl)
  constructor
  case known =>
    intro q mem
    rw [new] at mem
    obtain rfl := List.mem_singleton.1 mem
    exact .inr ⟨tells.2, tells'.2⟩
  case agree =>
    rw [new]
    exact agree versions
  case records =>
    rw [new, put, put, same.key]
    exact (alike.mono (List.subset_append_left _ _)).set v.key versions

theorem perform_get (now now' : Instant) (key : String) :
    Alike told (.get key) (m.perform now (.get key)) (.get key) (m'.perform now' (.get key)) := by
  have more {new : List (Nat × Nat)} : told ⊆ told ++ new := List.subset_append_left _ _
  simp only [perform]
  rcases find_alike alike key with ⟨v, v', found, found', same⟩ | ⟨absent, absent'⟩
  · rw [found, found']
    constructor
    case known =>
      intro q mem
      obtain rfl := List.mem_singleton.1 mem
      exact .inl same.2
    case agree => exact .got (same.mono more)
    case records => exact alike.mono more
  · rw [absent, absent']
    exact alike_error alike _ _ (.same rfl)

theorem perform_create (now now' : Instant) (same : r.Same r') :
    Alike told (.create r) (m.perform now (.create r)) (.create r')
      (m'.perform now' (.create r')) := by
  obtain ⟨token, updatedAt, rfl⟩ := same
  simp only [perform, create, alike.contains]
  split
  · exact alike_error alike _ _ (.same rfl)
  · have versions : Record.Same { r with token := m.nextToken }
        { r with token := m'.nextToken, updatedAt } := ⟨m'.nextToken, updatedAt, rfl⟩
    exact alike_put alike versions rfl rfl ⟨rfl, rfl⟩ ⟨rfl, rfl⟩ .created

theorem perform_update (one : OneToOne told) (now now' : Instant) (copies : r.Alike told r') :
    Alike told (.update r) (m.perform now (.update r)) (.update r')
      (m'.perform now' (.update r')) := by
  simp only [perform, update]
  rcases current_alike alike one copies with
    ⟨v, v', found, found', same⟩ | ⟨e, e', refused, refused', errors⟩
  · rw [found, found']
    have versions := copies.1.updated same.1 m.nextToken m'.nextToken now now'
    exact alike_put alike versions rfl rfl ⟨rfl, rfl⟩ ⟨rfl, rfl⟩ fun alike => .updated alike.2
  · rw [refused, refused']
    exact alike_error alike _ _ errors

theorem perform_updateStatus (one : OneToOne told) (now now' : Instant)
    (copies : r.Alike told r') :
    Alike told (.updateStatus r) (m.perform now (.updateStatus r)) (.updateStatus r')
      (m'.perform now' (.updateStatus r')) := by
  simp only [perform, updateStatus]
  rcases current_alike alike one copies with
    ⟨v, v', found, found', same⟩ | ⟨e, e', refused, refused', errors⟩
  · rw [found, found']
    have versions := copies.1.statusUpdated same.1 m.nextToken m'.nextToken
    exact alike_put alike versions rfl rfl ⟨rfl, rfl⟩ ⟨rfl, rfl⟩ fun alike =>
      .statusUpdated alike.2
  · rw [refused, refused']
    exact alike_error alike _ _ errors

theorem perform_delete (one : OneToOne told) (now now' : Instant) (copies : r.Alike told r') :
    Alike told (.delete r) (m.perform now (.delete r)) (.delete r')
      (m'.perform now' (.delete r')) := by
  simp only [perform, delete]
  rcases current_alike alike one copies with
    ⟨v, v', found, found', same⟩ | ⟨e, e', refused, refused', errors⟩
  · rw [found, found']
    obtain ⟨⟨token, updatedAt, rfl⟩, -⟩ := copies
    obtain ⟨⟨token', updatedAt', rfl⟩, -⟩ := same
    simp only [Record.checkReleased]
    cases v.pendingTeardown with
    | true => exact alike_error alike _ _ (.same rfl)
    | false =>
      constructor
      case known => exact fun _ mem => absurd mem List.not_mem_nil
      case agree => exact .deleted
      case records => exact (alike.mono (List.subset_append_left _ _)).erase _
  · rw [refused, refused']
    exact alike_error alike _ _ errors

end Calls

/-- Memories with the same records answer alike what they are asked alike. -/
theorem perform_alike (alike : Record.Matching told m.records.get? m'.records.get?)
    (ascending : m.records.Ascending) (ascending' : m'.records.Ascending) (one : OneToOne told)
    (now now' : Instant) {c c' : Store.Call} (asked : c.Alike told c') :
    Alike told c (m.perform now c) c' (m'.perform now' c') := by
  cases asked with
  | get key => exact perform_get alike now now' key
  | create same => exact perform_create alike now now' same
  | update copies => exact perform_update alike one now now' copies
  | updateStatus copies => exact perform_updateStatus alike one now now' copies
  | delete copies => exact perform_delete alike one now now' copies
  | list =>
    simp only [perform]
    rw [alike.keys ascending ascending']
    constructor
    case known => exact fun _ mem => absurd mem List.not_mem_nil
    case agree => exact .listed
    case records => exact alike.mono (List.subset_append_left _ _)

/-- What is stored after a call was there before, or the call has written it. -/
theorem stored_or_written {now : Instant} {c : Store.Call} {key : String} {v : Record}
    (stored : (m.perform now c).2.records.get? key = some v) :
    m.records.get? key = some v ∨ v ∈ c.written? m.records.get? now (m.perform now c).1 := by
  have put {w : Record} (stored : (m.put w).records.get? key = some v) :
      m.records.get? key = some v ∨ v = w := by
    rw [get?_put] at stored
    split at stored
    · exact .inr (Option.some.inj stored).symm
    · exact .inl stored
  cases c with
  | get | list => exact .inl stored
  | create r =>
    simp only [perform, create] at stored ⊢
    split at stored
    · exact .inl stored
    · next absent =>
      rw [if_neg absent]
      exact (put stored).imp_right fun same => congrArg some same.symm
  | update r =>
    simp only [perform, update] at stored ⊢
    cases found : m.current r with
    | error e =>
      rw [found] at stored
      exact .inl stored
    | ok w =>
      rw [found] at stored
      refine (put stored).imp_right fun same => ?_
      rw [Store.Call.written?, (current_eq_ok.1 found).1, same]
      rfl
  | updateStatus r =>
    simp only [perform, updateStatus] at stored ⊢
    cases found : m.current r with
    | error e =>
      rw [found] at stored
      exact .inl stored
    | ok w =>
      rw [found] at stored
      refine (put stored).imp_right fun same => ?_
      rw [Store.Call.written?, (current_eq_ok.1 found).1, same]
      rfl
  | delete r =>
    left
    simp only [perform, delete] at stored
    split at stored
    · exact stored
    · split at stored
      · exact stored
      · rw [Table.get?_erase] at stored
        split at stored
        · cases stored
        · exact stored

end Memory

end Tributary
