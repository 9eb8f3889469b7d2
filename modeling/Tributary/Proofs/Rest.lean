import Tributary.Proofs.Scene
import Tributary.Proofs.Undisturbed

/-!
# Coming to rest

Passes are made over a record, one after the other, and nothing goes wrong: nobody else writes,
no retry has to be waited for and every call succeeds. After two of them nothing is left to be
done, and every later pass does nothing (`Engine.comes_to_rest`). One is not enough for a record
that is cut back: the first pass leaves it to the second one to guard it, or to create it.
-/

namespace Tributary

/-! ## Programs on their own -/

/-- What has come of a program that ran on its own. -/
structure Solo (α : Type) where
  result : α
  past : List Exchange
  memory : Memory

/-- Runs a program on a memory. Its surroundings may depend on what it has done so far. -/
def Program.alone (around : List Exchange → Surroundings) :
    Program α → Memory → List Exchange → Solo α
  | .done a, m, past => ⟨a, past, m⟩
  | .ask q next, m, past =>
    let served := (around past).answer m q
    (next served.1).alone around served.2 (⟨q, served.1⟩ :: past)

namespace Program

variable {α : Type} {around : List Exchange → Surroundings} {p : Program α} {m : Memory}
  {past : List Exchange}

theorem sound_alone (h : m.Sound) : (p.alone around m past).memory.Sound := by
  induction p generalizing m past with
  | done a => exact h
  | ask q next ih => exact ih _ (((around past).serves (fun _ => False) m q).sound h)

theorem suffix_alone : past <:+ (p.alone around m past).past := by
  induction p generalizing m past with
  | done a => exact List.suffix_rfl
  | ask q next ih => exact (List.suffix_cons _ past).trans (ih _)

/-- A program that has written nothing has left the memory as it was. -/
theorem memory_alone_of_idle (idle : Idle (p.alone around m past).past) :
    (p.alone around m past).memory = m := by
  induction p generalizing m past with
  | done a => rfl
  | ask q next ih =>
    have serves := (around past).serves (fun _ => False) m q
    have asked := idle _ ((suffix_alone (p := next _)).subset List.mem_cons_self)
    exact (ih _ idle).trans (Serves.same (x := ⟨q, _⟩) serves (Exchange.isCommit_of_isIdle asked))

/-- What holds of a program that nobody disturbs holds of it on its own. -/
theorem Amid.alone {key : String} {answers : Exchange → Prop}
    {ends : List Exchange → α → Option Record → Prop}
    (h : p.Amid (Pass.undisturbed key answers) ends past (m.records.get? key)) (sound : m.Sound)
    (answered : ∀ past m q, answers ⟨q, ((around past).answer m q).1⟩) :
    ends (p.alone around m past).past (p.alone around m past).result
      ((p.alone around m past).memory.records.get? key) := by
  induction p generalizing m past with
  | done a => exact h
  | ask q next ih =>
    have serves := (around past).serves (fun _ => False) m q
    exact ih _ (h _ _ _ rfl (answered past m q) ⟨m, _, sound, rfl, serves, rfl⟩).2
      (serves.sound sound)

end Program

/-! ## When nothing goes wrong -/

/-- An answer that keeps no pass from getting on: no change waits for quiet, no call fails and a
retry that was entered is due. -/
structure Exchange.Favours (aggregate : List Contribution → Aggregation) (due : Option Instant)
    (x : Exchange) : Prop where
  quiet : ∀ key, x ≠ ⟨.coalescing key, true⟩
  aggregated : ∀ type sources a, x = ⟨.aggregate type sources, a⟩ → a = .ok (aggregate sources)
  succeeds : x.isFailure = false
  late : ∀ now, x = ⟨.now, now⟩ → ∀ t, due = some t → t.remaining? now = none

/-- Surroundings in which nothing goes wrong. -/
structure Surroundings.Favour (aggregate : List Contribution → Aggregation) (due : Option Instant)
    (s : Surroundings) : Prop where
  quiet : s.busy = false
  aggregated : ∀ sources, s.aggregate sources = .ok (aggregate sources)
  resolved : s.credentials.isOk = true
  pushed : s.push.isOk = true
  cutBack : s.teardown = .ok ()
  late : ∀ t, due = some t → t.remaining? s.now = none

theorem Surroundings.Favour.favours {aggregate : List Contribution → Aggregation}
    {due : Option Instant} {s : Surroundings} (h : s.Favour aggregate due) (m : Memory)
    (q : Request) : Exchange.Favours aggregate due ⟨q, (s.answer m q).1⟩ := by
  obtain ⟨now, busy, aggregates, credentials, push, teardown⟩ := s
  obtain ⟨rfl, aggregated, resolved, pushed, rfl, late⟩ := h
  cases q with
  | aggregate type sources =>
    refine ⟨by simp, ?_, ?_, by simp⟩
    · rintro _ _ _ ⟨⟩
      exact aggregated sources
    · have same : aggregates sources = .ok (aggregate sources) := aggregated sources
      dsimp only [answer]
      rw [same]
      rfl
  | now =>
    refine ⟨by simp, by simp, rfl, ?_⟩
    rintro _ ⟨⟩
    exact late
  | credentials =>
    cases credentials with
    | ok => exact ⟨by simp, by simp, rfl, by simp⟩
    | error => cases resolved
  | push =>
    cases push with
    | ok => exact ⟨by simp, by simp, rfl, by simp⟩
    | error => cases pushed
  | coalescing key => exact ⟨by simp [answer], by simp, rfl, by simp⟩
  | _ => exact ⟨by simp, by simp, rfl, by simp⟩

namespace Pass

/-- Passes over a key to which nothing goes wrong. -/
def smooth (e : Engine) (key : String) (aggregate : List Contribution → Aggregation)
    (due : Option Instant) : Circumstances where
  engine := e
  key := key
  answers := Exchange.Favours aggregate due
  aggregate _ sources := .ok (aggregate sources)
  functional _ _ a h := h.aggregated _ _ a rfl

/-- Nothing is left to be done, whatever is stored. -/
inductive Calm (aggregate : List Contribution → Aggregation) : Option Record → Prop
  | gone : Calm aggregate none
  | parked {r : Record} (parked : Backoff.parked r = true)
      (quiet : r.needsTeardown = true ∨ r.pendingTeardown = true) : Calm aggregate (some r)
  | rests {r : Record} (rests : Rests (fun _ sources => .ok (aggregate sources)) r) :
      Calm aggregate (some r)

/-- What a record comes to in the end. -/
inductive Final (aggregate : List Contribution → Aggregation) (r : Record) : Option Record → Prop
  | aside {w : Record} (parked : Backoff.parked r = true)
      (same : w = { r with
        pendingTeardown := w.pendingTeardown, token := w.token, updatedAt := w.updatedAt }) :
      Final aggregate r (some w)
  | gone (unparked : Backoff.parked r = false) (abandoned : r.abandoned = true) :
      Final aggregate r none
  | stands {w : Record} (unparked : Backoff.parked r = false) (contributes : r.abandoned = false)
      (same : Matches r w) (rests : Rests (fun _ sources => .ok (aggregate sources)) w) :
      Final aggregate r (some w)

variable {e : Engine} {key : String} {aggregate : List Contribution → Aggregation}
  {due : Option Instant} {r copy : Record} {past : List Exchange} {action : Action}
  {v : Option Record}

theorem not_mishap (known : e.knows r.resourceType = true)
    (late : r.status.phase = .error → r.status.nextRetryAt = due) :
    ¬Mishap (smooth e key aggregate due) r action v := by
  rintro (⟨asked, early⟩ | busy | ⟨unknown | ⟨x, answered, failure⟩, _⟩)
  · unfold Backoff.retryWait at early
    split at early
    · next error =>
      obtain ⟨t, next, left⟩ := Option.bind_eq_some_iff.1 early
      rw [asked.late _ rfl t ((late error.1).symm.trans next)] at left
      cases left
    · cases early
  · exact busy.quiet _ rfl
  · cases known.symm.trans unknown
  · cases failure.symm.trans answered.succeeds

theorem Rests.unparked {f : String → List Contribution → Except SyncError Aggregation}
    (h : Rests f r) : Backoff.parked r = false := by
  simp [Backoff.parked, h.synced]

theorem abandoned_eq_false (h : r.needsTeardown = false) : r.abandoned = false := by
  simp only [Record.needsTeardown, Bool.or_eq_false_iff] at h
  simp [Record.abandoned, h]

/-- A record for which nothing is left to be done is only read. -/
theorem Course.idle_of_calm (h : Course (smooth e key aggregate due) r past action v)
    (calm : Calm aggregate (some r)) (known : e.knows r.resourceType = true) : Idle past := by
  have none_error : r.status.phase = .error → r.status.nextRetryAt = due := by
    intro error
    cases calm with
    | parked parked _ => cases error.symm.trans (parked_iff.1 parked).1
    | rests rests => cases error.symm.trans rests.synced
  cases calm with
  | parked parked quiet =>
    cases h with
    | mishap mishap => exact absurd mishap (not_mishap known none_error)
    | parked _ aside =>
      cases aside with
      | still idle => exact idle
      | guarded _ _ unguarded none => simp [unguarded, none] at quiet
    | deleted unparked | cutBack unparked | synchronised unparked =>
      cases parked.symm.trans unparked
  | rests rests =>
    cases h with
    | mishap mishap => exact absurd mishap (not_mishap known none_error)
    | parked parked => cases parked.symm.trans rests.unparked
    | deleted _ abandoned =>
      cases abandoned.symm.trans (abandoned_eq_false rests.none)
    | cutBack _ needs => cases needs.symm.trans rests.none
    | synchronised _ _ _ _ idle => exact idle rests

/-- The first pass brings a record to its end, unless it has cut it back. -/
theorem Course.first (h : Course (smooth e key aggregate due) r past action v)
    (known : e.knows r.resourceType = true) (late : r.status.nextRetryAt = due) :
    (Calm aggregate v ∧ Final aggregate r v) ∨
      (Backoff.parked r = false ∧ r.abandoned = false ∧
        ∃ copy, v = some copy ∧ Reduced r copy) := by
  cases h with
  | mishap mishap => exact absurd mishap (not_mishap known fun _ => late)
  | parked parked aside =>
    cases aside with
    | still _ quiet =>
      have quiet := quiet.resolve_left (by simp [smooth, known])
      exact .inl ⟨.parked parked quiet, .aside parked rfl⟩
    | guarded =>
      exact .inl ⟨.parked ((parked_congr rfl rfl).trans parked) (.inr rfl), .aside parked rfl⟩
  | deleted unparked abandoned => exact .inl ⟨.gone, .gone unparked abandoned⟩
  | cutBack unparked _ contributes reduced =>
    exact .inr ⟨unparked, contributes, _, rfl, reduced⟩
  | synchronised unparked none same rests =>
    exact .inl ⟨.rests rests,
      .stands unparked (abandoned_eq_false none) same rests⟩

/-- The second pass synchronises what the first one has cut back. -/
theorem Course.second (h : Course (smooth e key aggregate due) copy past action v)
    (reduced : Reduced r copy) (known : e.knows r.resourceType = true)
    (late : r.status.nextRetryAt = due) :
    ∃ w, v = some w ∧ Matches r w ∧ Rests (fun _ sources => .ok (aggregate sources)) w := by
  cases h with
  | mishap mishap =>
    refine absurd mishap (not_mishap (reduced.same.resourceType ▸ known) fun error => ?_)
    obtain same | synced := reduced.status
    · rw [same, late]
    · cases error.symm.trans synced
  | parked parked => cases parked.symm.trans reduced.unparked
  | deleted _ abandoned =>
    cases abandoned.symm.trans (abandoned_eq_false reduced.none)
  | cutBack _ needs => cases needs.symm.trans reduced.none
  | synchronised _ _ same rests => exact ⟨_, rfl, reduced.same.trans same, rests⟩

end Pass

/-! ## One pass after the other -/

namespace Engine

/-- A pass on a memory. -/
def pass (e : Engine) (key : String) (around : List Exchange → Surroundings) (m : Memory) :
    Solo (Except SyncError Action) :=
  (e.reconcile key).alone around m []

/-- The memory after so many passes. -/
def after (e : Engine) (key : String) (around : Nat → List Exchange → Surroundings) (m : Memory) :
    Nat → Memory
  | 0 => m
  | n + 1 => (e.pass key (around n) (after e key around m n)).memory

/-- The pass that comes after so many others. -/
def nth (e : Engine) (key : String) (around : Nat → List Exchange → Surroundings) (m : Memory)
    (n : Nat) : Solo (Except SyncError Action) :=
  e.pass key (around n) (e.after key around m n)

variable {e : Engine} {key : String} {around : Nat → List Exchange → Surroundings} {m : Memory}
  {aggregate : List Contribution → Aggregation} {due : Option Instant} {n : Nat}

theorem sound_after (h : m.Sound) (n : Nat) : (e.after key around m n).Sound := by
  induction n with
  | zero => exact h
  | succ n ih => exact Program.sound_alone ih

open Pass

/-- What a pass comes to when nothing goes wrong. -/
theorem nth_course (e : Engine) (key : String) (h : m.Sound)
    (favour : ∀ n past, (around n past).Favour aggregate due) (n : Nat) :
    ∃ action, (e.nth key around m n).result = .ok action ∧
      (((e.after key around m n).records.get? key = none ∧
          (e.after key around m (n + 1)).records.get? key = none ∧ action = .done ∧
          Idle (e.nth key around m n).past) ∨
        ∃ r, (e.after key around m n).records.get? key = some r ∧
          Course (smooth e key aggregate due) r (e.nth key around m n).past action
            ((e.after key around m (n + 1)).records.get? key)) :=
  (reconcile_undisturbed (smooth e key aggregate due) _).alone (sound_after h n)
    fun past m q => (favour n past).favours m q

/-- The type of whatever is stored is known. -/
def Knows (e : Engine) (v : Option Record) : Prop :=
  ∀ r, v = some r → e.knows r.resourceType = true

/-- Nothing is done any more once nothing is left to be done. -/
theorem still_of_calm (h : m.Sound) (favour : ∀ n past, (around n past).Favour aggregate due)
    (known : e.Knows ((e.after key around m n).records.get? key))
    (calm : Calm aggregate ((e.after key around m n).records.get? key)) :
    Idle (e.nth key around m n).past ∧ e.after key around m (n + 1) = e.after key around m n := by
  obtain ⟨_, _, course⟩ := nth_course e key h favour n
  have idle : Idle (e.nth key around m n).past := by
    obtain ⟨_, _, _, idle⟩ | ⟨r, stored, course⟩ := course
    · exact idle
    · exact course.idle_of_calm (stored ▸ calm) (known r stored)
  exact ⟨idle, Program.memory_alone_of_idle idle⟩

/-- Once nothing is left to be done, it stays so. -/
theorem after_of_calm {k : Nat} (h : m.Sound)
    (favour : ∀ n past, (around n past).Favour aggregate due)
    (known : e.Knows ((e.after key around m k).records.get? key))
    (calm : Calm aggregate ((e.after key around m k).records.get? key)) (n : Nat) (later : k ≤ n) :
    Idle (e.nth key around m n).past ∧ e.after key around m n = e.after key around m k := by
  have same : e.after key around m n = e.after key around m k := by
    induction later with
    | refl => rfl
    | step _ ih => exact (still_of_calm h favour (ih ▸ known) (ih ▸ calm)).2.trans ih
  exact ⟨(still_of_calm h favour (same ▸ known) (same ▸ calm)).1, same⟩

theorem knows_of_final {r : Record} {v : Option Record} (final : Final aggregate r v)
    (known : e.knows r.resourceType = true) : e.Knows v := by
  rintro w rfl
  cases final with
  | aside _ same =>
    rw [same]
    exact known
  | stands _ _ same => exact same.resourceType ▸ known

/-- After two passes a record has come to its end. -/
theorem final_after_two (h : m.Sound) {r : Record} (found : m.records.get? key = some r)
    (known : e.knows r.resourceType = true)
    (favour : ∀ n past, (around n past).Favour aggregate r.status.nextRetryAt) :
    Calm aggregate ((e.after key around m 2).records.get? key) ∧
      Final aggregate r ((e.after key around m 2).records.get? key) := by
  obtain ⟨_, _, ⟨gone, _⟩ | ⟨_, stored, first⟩⟩ := nth_course e key h favour 0
  · cases found.symm.trans gone
  obtain rfl := Option.some.inj (found.symm.trans stored)
  obtain ⟨calm, final⟩ | ⟨unparked, contributes, copy, stored, reduced⟩ := first.first known rfl
  · have same := (still_of_calm h favour (knows_of_final final known) calm).2
    rw [same]
    exact ⟨calm, final⟩
  obtain ⟨_, _, ⟨gone, _⟩ | ⟨_, stored', second⟩⟩ := nth_course e key h favour 1
  · cases stored.symm.trans gone
  obtain rfl := Option.some.inj (stored.symm.trans stored')
  obtain ⟨w, stored, same, rests⟩ := second.second reduced known rfl
  rw [stored]
  exact ⟨.rests rests, .stands unparked contributes same rests⟩

/-- A record that has failed for good is guarded at most. -/
theorem parked_writes (h : m.Sound) {r : Record} (found : m.records.get? key = some r)
    (known : e.knows r.resourceType = true) (parked : Backoff.parked r = true)
    (favour : ∀ n past, (around n past).Favour aggregate r.status.nextRetryAt) (n : Nat) :
    ∀ x ∈ (e.nth key around m n).past,
      x.isIdle = true ∨ x.request = .store (.update { r with pendingTeardown := true }) := by
  obtain ⟨_, _, ⟨gone, _⟩ | ⟨_, stored, first⟩⟩ := nth_course e key h favour 0
  · cases found.symm.trans gone
  obtain rfl := Option.some.inj (found.symm.trans stored)
  cases n with
  | zero =>
    generalize (e.after key around m (0 + 1)).records.get? key = v at first
    cases first with
    | mishap mishap => exact absurd mishap (not_mishap known fun _ => rfl)
    | parked _ aside =>
      cases aside with
      | still idle => exact fun x hx => .inl (idle x hx)
      | guarded _ _ _ _ log => exact log
    | deleted unparked | cutBack unparked | synchronised unparked =>
      cases parked.symm.trans unparked
  | succ n =>
    obtain ⟨calm, final⟩ | ⟨unparked, _⟩ := first.first known rfl
    · have later := after_of_calm h favour (knows_of_final final known) calm (n + 1) (by omega)
      exact fun x hx => .inl (later.1 x hx)
    · cases parked.symm.trans unparked

/-- If nothing goes wrong, a record has come to rest after two passes: it is gone if nothing was
contributed to it, else it is synchronised; only a record that has failed for good stays failed. -/
theorem comes_to_rest (e : Engine) {key : String} {r : Record} {m : Memory} (h : m.Sound)
    (found : m.records.get? key = some r) (known : e.knows r.resourceType = true)
    {aggregate : List Contribution → Aggregation} {around : Nat → List Exchange → Surroundings}
    (favour : ∀ n past, (around n past).Favour aggregate r.status.nextRetryAt) :
    (∀ n, ∃ action, (e.nth key around m n).result = .ok action) ∧
      (∀ n, 2 ≤ n → Idle (e.nth key around m n).past ∧
        e.after key around m n = e.after key around m 2) ∧
      (Backoff.parked r = true →
        (∃ w, (e.after key around m 2).records.get? key = some w ∧ w = { r with
          pendingTeardown := w.pendingTeardown, token := w.token, updatedAt := w.updatedAt }) ∧
        ∀ n, ∀ x ∈ (e.nth key around m n).past,
          x.isIdle = true ∨ x.request = .store (.update { r with pendingTeardown := true })) ∧
      (Backoff.parked r = false → r.abandoned = true →
        (e.after key around m 2).records.get? key = none) ∧
      (Backoff.parked r = false → r.abandoned = false →
        ∃ w, (e.after key around m 2).records.get? key = some w ∧ w.sources = r.sources ∧
          w.teardownRequested = false ∧ w.pendingTeardown = true ∧ w.status.phase = .synced ∧
          w.status.configHash = (aggregate w.sources).hash) := by
  obtain ⟨calm, final⟩ := final_after_two h found known favour
  refine ⟨fun n => ?_, after_of_calm h favour (knows_of_final final known) calm, ?_, ?_, ?_⟩
  · obtain ⟨action, result, _⟩ := nth_course e key h favour n
    exact ⟨action, result⟩
  · intro parked
    refine ⟨?_, parked_writes h found known parked favour⟩
    generalize (e.after key around m 2).records.get? key = v at final
    cases final with
    | aside _ same => exact ⟨_, rfl, same⟩
    | gone unparked | stands unparked => cases parked.symm.trans unparked
  · intro unparked abandoned
    generalize (e.after key around m 2).records.get? key = v at final
    cases final with
    | aside parked => cases parked.symm.trans unparked
    | gone => rfl
    | stands _ contributes => cases abandoned.symm.trans contributes
  · intro unparked contributes
    generalize (e.after key around m 2).records.get? key = v at final
    cases final with
    | aside parked => cases parked.symm.trans unparked
    | gone _ abandoned => cases abandoned.symm.trans contributes
    | stands _ _ same rests =>
      obtain ⟨a, ⟨⟩, hash⟩ := rests.current
      have none := rests.none
      simp only [Record.needsTeardown, Bool.or_eq_false_iff] at none
      exact ⟨_, rfl, same.sources, none.1.2, rests.guarded, rests.synced, hash⟩

/-- A contributor has left a record that was never looked at, and another one has stayed. -/
def parted : Record :=
  { Record.blank "r" "t" "live" ⟨0, 0⟩ with
    sources := [⟨⟨"App", "ns", "a"⟩, 0, []⟩]
    generation := 3
    teardownRequested := true
    token := 1 }

/-- The record is cut back by the first pass and guarded by the second one. -/
theorem parted_rests :
    ∃ w, (after { knows := fun _ => true } "r" (fun _ _ => {}) (({} : Memory).put parted)
      2).records.get? "r" = some w ∧ w.sources = parted.sources ∧ w.teardownRequested = false ∧
        w.pendingTeardown = true ∧ w.status.phase = .synced := by
  have sound : (({} : Memory).put parted).Sound := Memory.sound_empty.put rfl
  have found : (({} : Memory).put parted).records.get? "r" = some parted := rfl
  have favour (n : Nat) (past : List Exchange) : ({} : Surroundings).Favour
      (fun sources => ⟨.null, sources.length, sources.map (·.owner)⟩) parted.status.nextRetryAt :=
    ⟨rfl, fun _ => rfl, rfl, rfl, rfl, fun _ none => by cases none⟩
  obtain ⟨_, _, _, _, stands⟩ := comes_to_rest { knows := fun _ => true } sound found rfl favour
  obtain ⟨w, stored, sources, teardown, guarded, synced, _⟩ := stands rfl rfl
  exact ⟨w, stored, sources, teardown, guarded, synced⟩

end Engine

end Tributary
