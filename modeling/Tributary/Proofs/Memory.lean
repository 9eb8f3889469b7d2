import Tributary.Store.Memory

/-!
# What memory grants

`Grants` says what each granted call needs and leaves, and `Refuses` why a call is refused; that
leaves everything as it was. Tokens identify versions because they are counted up: a `Sound`
memory has given out the tokens of all its records, and every granted call keeps it sound.
-/

namespace Tributary.Memory

/-- A call that is granted, with its result and what it leaves. -/
inductive Grants (m : Memory) : (c : Store.Call) → c.Result → Memory → Prop
  | get {key : String} {r : Record} (found : m.records.get? key = some r) :
      Grants m (.get key) r m
  | create {r : Record} (absent : m.records.get? r.key = none) :
      Grants m (.create r) { r with token := m.nextToken } (m.put { r with token := m.nextToken })
  | update {r stored : Record} (now : Instant) (found : m.records.get? r.key = some stored)
      (current : r.token = stored.token) :
      Grants m (.update r) m.nextToken (m.put (r.updated stored m.nextToken now))
  | updateStatus {r stored : Record} (found : m.records.get? r.key = some stored)
      (current : r.token = stored.token) :
      Grants m (.updateStatus r) m.nextToken (m.put (r.statusUpdated stored m.nextToken))
  | delete {r stored : Record} (found : m.records.get? r.key = some stored)
      (current : r.token = stored.token) (released : stored.pendingTeardown = false) :
      Grants m (.delete r) () { m with records := m.records.erase r.key }
  | list : Grants m .list m.records.keys m

theorem find_eq_ok {m : Memory} {key : String} {r : Record} :
    m.find key = .ok r ↔ m.records.get? key = some r := by
  unfold find
  cases m.records.get? key <;> simp

theorem current_eq_ok {m : Memory} {r stored : Record} :
    m.current r = .ok stored ↔ m.records.get? r.key = some stored ∧ r.token = stored.token := by
  unfold current find Record.checkToken
  cases h : m.records.get? r.key with
  | none => simp [bind, Except.bind]
  | some v =>
    by_cases same : r.token = v.token
    · simp only [bind, Except.bind, pure, Except.pure, same, if_true, Except.ok.injEq,
        Option.some.injEq]
      constructor
      · rintro rfl
        exact ⟨rfl, rfl⟩
      · exact fun h => h.1
    · simp only [bind, Except.bind, same, if_false, Option.some.injEq, reduceCtorEq, false_iff]
      rintro ⟨rfl, current⟩
      exact same current

theorem grants_of_perform {m m' : Memory} {now : Instant} {c : Store.Call} {a : c.Result}
    (h : m.perform now c = (.ok a, m')) : m.Grants c a m' := by
  cases c with
  | get key =>
    cases h' : m.find key with
    | error e => simp [perform, h'] at h
    | ok r =>
      simp only [perform, h', Prod.mk.injEq, Except.ok.injEq] at h
      obtain ⟨rfl, rfl⟩ := h
      exact .get (find_eq_ok.1 h')
  | create r =>
    simp only [perform, create] at h
    split at h
    · simp at h
    · next absent =>
      simp only [Prod.mk.injEq, Except.ok.injEq] at h
      obtain ⟨rfl, rfl⟩ := h
      exact .create (by simpa [Table.contains] using absent)
  | update r =>
    cases h' : m.current r with
    | error e => simp [perform, update, h'] at h
    | ok stored =>
      simp only [perform, update, h', Prod.mk.injEq, Except.ok.injEq] at h
      obtain ⟨rfl, rfl⟩ := h
      obtain ⟨found, current⟩ := current_eq_ok.1 h'
      exact .update now found current
  | updateStatus r =>
    cases h' : m.current r with
    | error e => simp [perform, updateStatus, h'] at h
    | ok stored =>
      simp only [perform, updateStatus, h', Prod.mk.injEq, Except.ok.injEq] at h
      obtain ⟨rfl, rfl⟩ := h
      obtain ⟨found, current⟩ := current_eq_ok.1 h'
      exact .updateStatus found current
  | delete r =>
    cases h' : m.current r with
    | error e => simp [perform, delete, h'] at h
    | ok stored =>
      obtain ⟨found, current⟩ := current_eq_ok.1 h'
      cases released : stored.pendingTeardown with
      | true => simp [perform, delete, h', Record.checkReleased, released] at h
      | false =>
        simp only [perform, delete, h', Record.checkReleased, released, Bool.false_eq_true,
          if_false, Prod.mk.injEq] at h
        rw [← h.2]
        exact .delete found current released
  | list =>
    simp only [perform, Prod.mk.injEq, Except.ok.injEq] at h
    obtain ⟨rfl, rfl⟩ := h
    exact .list

theorem eq_of_perform_error {m m' : Memory} {now : Instant} {c : Store.Call} {e : StoreError}
    (h : m.perform now c = (.error e, m')) : m' = m := by
  cases c with
  | get key => exact (Prod.mk.inj h).2.symm
  | list => exact (Prod.mk.inj h).2.symm
  | create r =>
    simp only [perform, create] at h
    split at h
    · exact (Prod.mk.inj h).2.symm
    · simp at h
  | update r =>
    simp only [perform, update] at h
    split at h
    · exact (Prod.mk.inj h).2.symm
    · simp at h
  | updateStatus r =>
    simp only [perform, updateStatus] at h
    split at h
    · exact (Prod.mk.inj h).2.symm
    · simp at h
  | delete r =>
    simp only [perform, delete] at h
    split at h
    · exact (Prod.mk.inj h).2.symm
    · split at h
      · exact (Prod.mk.inj h).2.symm
      · simp at h

/-- A call that is refused, with the error. -/
inductive Refuses (m : Memory) : Store.Call → StoreError → Prop
  | unread {key : String} (absent : m.records.get? key = none) :
      Refuses m (.get key) (.notFound key)
  | taken {r : Record} (there : m.records.get? r.key ≠ none) :
      Refuses m (.create r) (.alreadyExists r.key)
  | gone {c : Store.Call} {r : Record} (write : c = .update r ∨ c = .updateStatus r ∨ c = .delete r)
      (absent : m.records.get? r.key = none) : Refuses m c (.notFound r.key)
  | stale {c : Store.Call} {r stored : Record}
      (write : c = .update r ∨ c = .updateStatus r ∨ c = .delete r)
      (found : m.records.get? r.key = some stored) (other : r.token ≠ stored.token) :
      Refuses m c (.conflict r.key r.token stored.token)
  | guarded {r stored : Record} (found : m.records.get? r.key = some stored)
      (pending : stored.pendingTeardown = true) :
      Refuses m (.delete r) (.teardownPending r.key)

theorem find_eq_error {m : Memory} {key : String} {e : StoreError} :
    m.find key = .error e ↔ m.records.get? key = none ∧ e = .notFound key := by
  unfold find
  cases m.records.get? key with
  | none => simp [eq_comm]
  | some r => simp

/-- Why a record cannot be replaced: it is not there, or has changed. -/
theorem refuses_of_current {m : Memory} {c : Store.Call} {r : Record} {e : StoreError}
    (write : c = .update r ∨ c = .updateStatus r ∨ c = .delete r) (h : m.current r = .error e) :
    m.Refuses c e := by
  unfold current Record.checkToken at h
  cases found : m.find r.key with
  | error e' =>
    obtain ⟨absent, rfl⟩ := find_eq_error.1 found
    simp only [found, bind, Except.bind, Except.error.injEq] at h
    exact h ▸ .gone write absent
  | ok stored =>
    by_cases same : r.token = stored.token
    · simp [found, same, bind, Except.bind, pure, Except.pure] at h
    · simp only [found, same, bind, Except.bind, if_false, Except.error.injEq] at h
      exact h ▸ .stale write (find_eq_ok.1 found) same

theorem refuses_of_perform {m m' : Memory} {now : Instant} {c : Store.Call} {e : StoreError}
    (h : m.perform now c = (.error e, m')) : m.Refuses c e := by
  cases c with
  | get key =>
    obtain ⟨absent, rfl⟩ := find_eq_error.1 (Prod.mk.inj h).1
    exact .unread absent
  | list => cases (Prod.mk.inj h).1
  | create r =>
    simp only [perform, create] at h
    split at h
    · next there =>
      obtain rfl := Except.error.inj (Prod.mk.inj h).1
      exact .taken (Option.isSome_iff_ne_none.1 there)
    · simp at h
  | update r =>
    cases h' : m.current r with
    | ok stored => simp [perform, update, h'] at h
    | error e' =>
      simp only [perform, update, h', Prod.mk.injEq, Except.error.injEq] at h
      exact h.1 ▸ refuses_of_current (.inl rfl) h'
  | updateStatus r =>
    cases h' : m.current r with
    | ok stored => simp [perform, updateStatus, h'] at h
    | error e' =>
      simp only [perform, updateStatus, h', Prod.mk.injEq, Except.error.injEq] at h
      exact h.1 ▸ refuses_of_current (.inr (.inl rfl)) h'
  | delete r =>
    cases h' : m.current r with
    | error e' =>
      simp only [perform, delete, h', Prod.mk.injEq, Except.error.injEq] at h
      exact h.1 ▸ refuses_of_current (.inr (.inr rfl)) h'
    | ok stored =>
      cases pending : stored.pendingTeardown with
      | false => simp [perform, delete, h', Record.checkReleased, pending] at h
      | true =>
        simp only [perform, delete, h', Record.checkReleased, pending, if_true, Prod.mk.injEq,
          Except.error.injEq] at h
        exact h.1 ▸ .guarded (current_eq_ok.1 h').1 pending

@[simp] theorem get?_put (m : Memory) (r : Record) (key : String) :
    (m.put r).records.get? key = if key = r.key then some r else m.records.get? key :=
  Table.get?_set m.records r.key key r

@[simp] theorem key_updated (r stored : Record) (token : Nat) (now : Instant) :
    (r.updated stored token now).key = r.key := rfl

@[simp] theorem key_statusUpdated (r stored : Record) (token : Nat) :
    (r.statusUpdated stored token).key = stored.key := rfl

/-! ## Soundness -/

/-- Every record lies under its key, and its token has been given out. -/
def Sound (m : Memory) : Prop :=
  ∀ key r, m.records.get? key = some r → r.key = key ∧ r.token < m.nextToken

theorem sound_empty : Sound {} := by
  intro key r h
  simp [Table.get?, EmptyCollection.emptyCollection, Table.empty, Table.look] at h

theorem Sound.put {m : Memory} (h : m.Sound) {r : Record} (token : r.token = m.nextToken) :
    (m.put r).Sound := by
  intro key v hv
  have next : (m.put r).nextToken = m.nextToken + 1 := rfl
  rw [get?_put] at hv
  split at hv
  · next same =>
    cases hv
    exact ⟨same.symm, by omega⟩
  · have old := h key v hv
    exact ⟨old.1, by omega⟩

theorem Grants.sound {m m' : Memory} {c : Store.Call} {a : c.Result} (h : m.Grants c a m')
    (sound : m.Sound) : m'.Sound := by
  cases h with
  | get | list => exact sound
  | create => exact sound.put rfl
  | update => exact sound.put rfl
  | updateStatus => exact sound.put rfl
  | delete =>
    intro key v hv
    simp only [Table.get?_erase] at hv
    split at hv
    · cases hv
    · exact sound key v hv

end Tributary.Memory
