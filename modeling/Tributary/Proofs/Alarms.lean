import Tributary.Proofs.Debouncing
import Tributary.Rehearsal.Quiet

/-!
# Alarms that ring in order

A rehearsed debouncer moves its clock by hand and rings its alarms in the order of their times.
That is one of the orders in which timers may wake and look (`rehearsal_plays`), so what holds
of all of them holds of it.
-/

namespace Tributary.Rehearsal.Quiet

open Debouncing

/-- The timer that an alarm stands for. -/
def timer (a : Alarm Wait) : Timer := { key := a.what.key, number := a.what.number, due := a.due }

/-- When the action of a request ran, and for which key. -/
def ran? (e : Entry) : Option (Nat × String) :=
  match e.deed with
  | .acted key _ => some (e.time, key)
  | _ => none

/-- What fired, the last first, as a log tells it. -/
def told (fired : List Fired) : List (Nat × String) := (fired.map fun f => (f.time, f.key)).reverse

theorem told_append (fired later : List Fired) :
    told (fired ++ later) = told later ++ told fired := by
  simp [told]

/-- A rehearsed debouncer and timers that stand for its alarms, of which none is overdue. -/
structure Beside (q : Quiet) (s : Timers) : Prop where
  orderly : Orderly s
  debouncer : s.debouncer = q.debouncer
  alive : s.alive.Perm (q.alarms.alarms.map timer)
  ahead : ∀ a ∈ q.alarms.alarms, s.clock ≤ a.due

/-- Both are at the same time. -/
structure Follows (q : Quiet) (s : Timers) : Prop extends Beside q s where
  clock : s.clock = q.clock

theorem opening : Follows {} {} where
  orderly := Orderly.opening
  debouncer := rfl
  alive := .refl _
  clock := rfl
  ahead := nofun

variable {q : Quiet} {s : Timers}

namespace Follows

theorem schedule (h : Follows q s) (key : String) (ms : Nat) (tag : String) :
    Follows (q.schedule key ms tag) (s.schedule key ms) where
  orderly := h.orderly.schedule key ms
  debouncer := by simp [Quiet.schedule, Timers.schedule, Timers.note, h.debouncer]
  alive := by
    have := (h.alive.cons
      { key, number := q.debouncer.issued + 1, due := Timeline.after q.clock ms }).trans
        (List.perm_append_singleton _ _).symm
    simpa [Quiet.schedule, Timers.schedule, Timers.note, Timeline.set, timer, Debouncer.schedule,
      h.debouncer, h.clock] using this
  clock := h.clock
  ahead := by
    intro a mem
    rcases List.mem_append.mp mem with old | new
    · exact h.ahead a old
    · cases List.mem_singleton.mp new
      show s.clock ≤ Timeline.after q.clock ms
      rw [h.clock]
      exact Nat.le_add_right _ _

theorem cancel (h : Follows q s) (key : String) :
    Follows { q with debouncer := q.debouncer.cancel key } (s.cancel key) where
  orderly := h.orderly.cancel key
  debouncer := congrArg (Debouncer.cancel · key) h.debouncer
  alive := h.alive
  clock := h.clock
  ahead := h.ahead

theorem flush (h : Follows q s) :
    Follows { q with debouncer := q.debouncer.flush } s.flush where
  orderly := h.orderly.flush
  debouncer := congrArg Debouncer.flush h.debouncer
  alive := h.alive
  clock := h.clock
  ahead := h.ahead

end Follows

/-- The first alarm rings: its timer wakes and looks. -/
theorem Beside.ring (h : Beside q s) {a : Alarm Wait} {alarms : Timeline Wait} {limit : Nat}
    (rings : q.alarms.ring? limit = some (a, alarms)) :
    Beside
        { q with
          alarms
          debouncer := (q.debouncer.claim a.what.key a.what.number).getD q.debouncer }
        (s.ring (timer a)) ∧
      (s.ring (timer a)).clock = a.due ∧
      (s.ring (timer a)).log.filterMap ran? =
        (if (q.debouncer.claim a.what.key a.what.number).isSome then [(a.due, a.what.key)]
          else []) ++
          s.log.filterMap ran? := by
  obtain ⟨_, perm, first⟩ := Timeline.due_of_ring? rings
  have alive : s.alive.Perm (timer a :: alarms.alarms.map timer) := h.alive.trans (perm.map timer)
  obtain ⟨clock, gone, debouncer, log⟩ := h.orderly.ring alive
  have due : s.clock + ((timer a).due - s.clock) = a.due := by
    have := h.ahead a (perm.mem_iff.mpr List.mem_cons_self)
    show s.clock + (a.due - s.clock) = a.due
    omega
  rw [due] at clock log
  rw [h.debouncer] at debouncer log
  refine ⟨⟨h.orderly.acts _, debouncer, gone, ?_⟩, clock, ?_⟩
  · intro b mem
    rw [clock]
    exact first b (perm.mem_iff.mpr (List.mem_cons_of_mem a mem))
  · rw [log, List.filterMap_cons]
    cases claim : q.debouncer.claim a.what.key a.what.number <;> simp [ran?, timer, claim]

/-- A timer that rings before some acts is itself a list of acts. -/
theorem ring_then (s : Timers) (t : Timer) (acts : List Act) :
    ∃ all : List Act, all.foldl Timers.act s = acts.foldl Timers.act (s.ring t) :=
  ⟨[.tick (t.due - s.clock), .wake t.number, .look t.number] ++ acts, List.foldl_append⟩

/-- Ringing every alarm up to a time is a list of acts. -/
theorem ringUntil_plays (h : Beside q s) {time : Nat} (early : s.clock ≤ time) :
    ∃ acts : List Act, Follows (q.ringUntil time).1 (acts.foldl Timers.act s) ∧
      (acts.foldl Timers.act s).log.filterMap ran? =
        told (q.ringUntil time).2 ++ s.log.filterMap ran? := by
  fun_induction ringUntil time q generalizing s with
  | case1 q silent =>
    refine ⟨[.tick (time - s.clock)], ⟨⟨h.orderly.tick _, h.debouncer, h.alive, ?_⟩, ?_⟩, rfl⟩
    · intro a mem
      have := Timeline.due_of_silence silent a mem
      show s.clock + (time - s.clock) ≤ a.due
      omega
    · show s.clock + (time - s.clock) = time
      omega
  | case2 q a alarms rings shorter gone ih =>
    obtain ⟨beside, clock, log⟩ := h.ring rings
    have soon := (Timeline.due_of_ring? rings).1
    simp only [gone, Option.getD_none] at beside
    simp only [gone, Option.isSome_none, Bool.false_eq_true, if_false, List.nil_append] at log
    obtain ⟨acts, follows, later⟩ := ih beside (clock ▸ soon)
    obtain ⟨all, same⟩ := ring_then s (timer a) acts
    exact ⟨all, same ▸ follows, by rw [same, later, log]⟩
  | case3 q a alarms rings shorter debouncer claimed q' fired rest ih =>
    obtain ⟨beside, clock, log⟩ := h.ring rings
    have soon := (Timeline.due_of_ring? rings).1
    simp only [claimed, Option.getD_some] at beside
    simp only [claimed, Option.isSome_some, if_true] at log
    obtain ⟨acts, follows, later⟩ := ih beside (clock ▸ soon)
    rw [rest] at follows later
    obtain ⟨all, same⟩ := ring_then s (timer a) acts
    exact ⟨all, same ▸ follows, by rw [same, later, log]; simp [told]⟩

/-! ## Rehearsals -/

/-- A step of a rehearsal. -/
inductive Step
  | schedule (key : String) (ms : Nat) (tag : String)
  | cancel (key : String)
  | flush
  | advance (ms : Nat)

def step (q : Quiet) : Step → Quiet × List Fired
  | .schedule key ms tag => (q.schedule key ms tag, [])
  | .cancel key => ({ q with debouncer := q.debouncer.cancel key }, [])
  | .flush => ({ q with debouncer := q.debouncer.flush }, [])
  | .advance ms => q.advance ms

def rehearse (q : Quiet) : List Step → Quiet × List Fired
  | [] => (q, [])
  | x :: steps =>
    let (q, fired) := q.step x
    let (q, later) := q.rehearse steps
    (q, fired ++ later)

theorem Follows.step (h : Follows q s) (x : Step) :
    ∃ acts : List Act, Follows (q.step x).1 (acts.foldl Timers.act s) ∧
      (acts.foldl Timers.act s).log.filterMap ran? = told (q.step x).2 ++ s.log.filterMap ran? := by
  cases x with
  | schedule key ms tag => exact ⟨[.schedule key ms], h.schedule key ms tag, rfl⟩
  | cancel key => exact ⟨[.cancel key], h.cancel key, rfl⟩
  | flush => exact ⟨[.flush], h.flush, rfl⟩
  | advance ms =>
    have early : s.clock ≤ Timeline.after q.clock ms := by
      rw [h.clock]
      exact Nat.le_add_right _ _
    exact ringUntil_plays h.toBeside early

theorem Follows.rehearse (h : Follows q s) (steps : List Step) :
    ∃ acts : List Act, Follows (q.rehearse steps).1 (acts.foldl Timers.act s) ∧
      (acts.foldl Timers.act s).log.filterMap ran? =
        told (q.rehearse steps).2 ++ s.log.filterMap ran? := by
  induction steps generalizing q s with
  | nil => exact ⟨[], h, rfl⟩
  | cons x steps ih =>
    obtain ⟨first, follows, now⟩ := h.step x
    obtain ⟨others, follows, later⟩ := ih follows
    refine ⟨first ++ others, ?_, ?_⟩
    · rw [List.foldl_append]
      exact follows
    · rw [List.foldl_append, later, now, ← List.append_assoc, ← told_append]
      rfl

/-- Every rehearsal is one of the orders in which timers may wake and look: the same requests
wait at its end, and the same actions have run at the same times. -/
theorem rehearsal_plays (steps : List Step) :
    ∃ acts : List Act,
      let s := Timers.play acts
      s.clock = (rehearse {} steps).1.clock ∧ s.debouncer = (rehearse {} steps).1.debouncer ∧
      s.log.filterMap ran? = told (rehearse {} steps).2 := by
  obtain ⟨acts, follows, log⟩ := opening.rehearse steps
  exact ⟨acts, follows.clock, follows.debouncer, log.trans (List.append_nil _)⟩

end Tributary.Rehearsal.Quiet
