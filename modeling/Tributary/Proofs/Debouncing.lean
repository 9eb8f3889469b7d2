import Mathlib.Data.List.Nodup
import Mathlib.Data.List.Perm.Basic
import Tributary.Debouncer
import Tributary.Time.Timeline

/-!
# Debouncing

The callers of a debouncer and the timers of its requests take their steps in any order. A
timer wakes at some moment after its time has come and looks at the debouncer at some moment
after that, so it may be awake while it is replaced. Whether stopping such a timer comes in
time is left open: one that was replaced or called off may still wake and look.
`requests_settled` says which requests act, and when, in whatever order all this happens.
-/

namespace Tributary.Debouncing

/-- The timer of a request. -/
structure Timer where
  key : String
  number : Nat
  due : Nat
  awake : Bool := false
  deriving DecidableEq

/-- The timer after the one of a request could wake: it has if its time has come. -/
def Timer.called (number now : Nat) (t : Timer) : Timer :=
  { t with awake := t.awake || (decide (t.number = number) && decide (t.due ≤ now)) }

/-- What was done with a debouncer. -/
inductive Deed
  | scheduled (key : String) (number delay : Nat)
  | cancelled (key : String) (found : Bool)
  | flushed
  /-- A timer looked, and the action of its request ran. -/
  | acted (key : String) (number : Nat)
  /-- A timer looked, and its request was not there any more. -/
  | passed (key : String) (number : Nat)
  deriving DecidableEq

namespace Deed

/-- A deed by which earlier requests for a key lose their turn. -/
def Withdraws (key : String) : Deed → Prop
  | scheduled k _ _ | cancelled k _ => k = key
  | flushed => True
  | acted .. | passed .. => False

/-- The number that was given to a request. -/
def issues? : Deed → Option Nat
  | scheduled _ number _ => some number
  | _ => none

/-- The request whose action ran. -/
def acts? : Deed → Option Nat
  | acted _ number => some number
  | _ => none

/-- The request whose timer looked. -/
def looks? : Deed → Option Nat
  | acted _ number | passed _ number => some number
  | _ => none

end Deed

structure Entry where
  time : Nat
  deed : Deed

/-- The latest request for a key has this number and has neither acted nor been withdrawn. -/
def Outstanding (key : String) (number : Nat) : List Entry → Prop
  | [] => False
  | e :: log =>
    (∃ delay, e.deed = .scheduled key number delay) ∨
      (Outstanding key number log ∧ ¬ e.deed.Withdraws key ∧ e.deed ≠ .acted key number)

structure Timers where
  clock : Nat := 0
  debouncer : Debouncer := {}
  /-- The timers that have not looked yet. -/
  alive : List Timer := []
  /-- What was done, the last first. -/
  log : List Entry := []

inductive Act
  | schedule (key : String) (delay : Nat)
  | cancel (key : String)
  | flush
  | tick (time : Nat)
  | wake (number : Nat)
  | look (number : Nat)

namespace Timers

def note (s : Timers) (deed : Deed) : Timers := { s with log := ⟨s.clock, deed⟩ :: s.log }

def schedule (s : Timers) (key : String) (delay : Nat) : Timers :=
  let (debouncer, number) := s.debouncer.schedule key
  { s with
    debouncer
    alive := { key, number, due := Timeline.after s.clock delay } :: s.alive }.note
      (.scheduled key number delay)

/-- Whether there was a request to cancel is what the caller is told. -/
def cancel (s : Timers) (key : String) : Timers :=
  { s with debouncer := s.debouncer.cancel key }.note (.cancelled key (s.debouncer.isPending key))

def flush (s : Timers) : Timers := { s with debouncer := s.debouncer.flush }.note .flushed

/-- Wakes the timer of a request if its time has come. -/
def wake (s : Timers) (number : Nat) : Timers :=
  { s with alive := s.alive.map (Timer.called number s.clock) }

/-- The timer of a request, if it is awake, looks at the debouncer and is gone. -/
def look (s : Timers) (number : Nat) : Timers :=
  match s.alive.find? fun t => decide (t.number = number) && t.awake with
  | none => s
  | some t =>
    let s := { s with alive := s.alive.erase t }
    match s.debouncer.claim t.key number with
    | none => s.note (.passed t.key number)
    | some debouncer => { s with debouncer }.note (.acted t.key number)

def act (s : Timers) : Act → Timers
  | .schedule key delay => s.schedule key delay
  | .cancel key => s.cancel key
  | .flush => s.flush
  | .tick time => { s with clock := s.clock + time }
  | .wake number => s.wake number
  | .look number => s.look number

/-- The clock is moved to the time of a timer, which wakes and looks. -/
def ring (s : Timers) (t : Timer) : Timers :=
  [.tick (t.due - s.clock), .wake t.number, .look t.number].foldl act s

/-- A timer that has not looked yet, and whose request is the one that waits under its key. -/
def Pending (s : Timers) (t : Timer) : Prop :=
  t ∈ s.alive ∧ s.debouncer.waiting.get? t.key = some t.number

/-- What a list of acts on a new debouncer leads to. -/
def play (acts : List Act) : Timers := acts.foldl act {}

end Timers

/-! ## What a log says -/

def issued (log : List Entry) : List Nat := log.filterMap (·.deed.issues?)

def looked (log : List Entry) : List Nat := log.filterMap (·.deed.looks?)

def performed (log : List Entry) : List Nat := log.filterMap (·.deed.acts?)

theorem performed_sublist (log : List Entry) : (performed log).Sublist (looked log) := by
  induction log with
  | nil => exact List.Sublist.slnil
  | cons e log ih =>
    obtain ⟨time, deed⟩ := e
    cases deed with
    | acted key number => exact ih.cons_cons number
    | passed key number => exact ih.cons number
    | scheduled | cancelled | flushed => exact ih

theorem Outstanding.issued {key : String} {number : Nat} {log : List Entry}
    (h : Outstanding key number log) : number ∈ issued log := by
  induction log with
  | nil => exact h.elim
  | cons e log ih =>
    rcases h with ⟨delay, same⟩ | ⟨earlier, -, -⟩
    · exact List.mem_filterMap.mpr ⟨e, List.mem_cons_self, by rw [same]; rfl⟩
    · obtain ⟨r, mem, issues⟩ := List.mem_filterMap.mp (ih earlier)
      exact List.mem_filterMap.mpr ⟨r, List.mem_cons_of_mem e mem, issues⟩

/-- A request is outstanding until its key is withdrawn or it acts. -/
theorem outstanding_after {key : String} {number delay : Nat} {r : Entry}
    {between before : List Entry}
    (request : r.deed = .scheduled key number delay)
    (once : (issued (between ++ r :: before)).Nodup)
    (waits : number ∉ looked (between ++ r :: before)) :
    Outstanding key number (between ++ r :: before) ↔ ∀ y ∈ between, ¬ y.deed.Withdraws key := by
  induction between with
  | nil =>
    constructor
    · intro _ y mem
      cases mem
    · intro _
      exact .inl ⟨delay, request⟩
  | cons y between ih =>
    have anew : ∀ d, y.deed ≠ .scheduled key number d := by
      intro d same
      have again : number ∈ issued (between ++ r :: before) :=
        List.mem_filterMap.mpr ⟨r, by simp, by rw [request]; rfl⟩
      simp only [issued, List.cons_append, List.filterMap_cons, same, Deed.issues?] at once
      exact (List.nodup_cons.mp once).1 again
    have idle : y.deed ≠ .acted key number := by
      intro same
      exact waits (List.mem_filterMap.mpr ⟨y, List.mem_cons_self, by rw [same]; rfl⟩)
    have once' : (issued (between ++ r :: before)).Nodup :=
      once.sublist ((List.sublist_cons_self _ _).filterMap _)
    have waits' : number ∉ looked (between ++ r :: before) := by
      intro mem
      exact waits (((List.sublist_cons_self _ _).filterMap _).subset mem)
    simp only [List.cons_append, Outstanding, ih once' waits', List.forall_mem_cons]
    constructor
    · rintro (⟨d, same⟩ | ⟨later, kept, -⟩)
      · exact absurd same (anew d)
      · exact ⟨kept, later⟩
    · rintro ⟨kept, later⟩
      exact .inr ⟨later, kept, idle⟩

/-- What an entry says is right in view of what was done before it. -/
structure Entry.Right (x : Entry) (earlier : List Entry) : Prop where
  found : ∀ key answer, x.deed = .cancelled key answer →
    (answer = true ↔ ∃ number, Outstanding key number earlier)
  deserved : ∀ key number, x.deed = .acted key number ∨ x.deed = .passed key number →
    ∃ between r before delay, earlier = between ++ r :: before ∧
      r.deed = .scheduled key number delay ∧
      r.time + min delay Timeline.longestWait ≤ x.time ∧
      (x.deed = .acted key number ↔ ∀ y ∈ between, ¬ y.deed.Withdraws key)

/-- Every entry of a log is right. -/
def Right (log : List Entry) : Prop :=
  ∀ later x earlier, log = later ++ x :: earlier → x.Right earlier

theorem Right.cons {e : Entry} {log : List Entry} (right : Right log) (last : e.Right log) :
    Right (e :: log) := by
  intro later x earlier same
  cases later with
  | nil =>
    obtain ⟨rfl, rfl⟩ := List.cons.inj same
    exact last
  | cons y later => exact right later x earlier (List.cons.inj same).2

/-! ## What every act preserves -/

structure Orderly (s : Timers) : Prop where
  known : ∀ number ∈ issued s.log, number ≤ s.debouncer.issued
  once : (issued s.log).Nodup
  /-- The timer of every request is alive or has looked. -/
  accounted : (issued s.log).Perm (s.alive.map (·.number) ++ looked s.log)
  timed : ∀ t ∈ s.alive, ∃ r ∈ s.log, ∃ delay,
    r.deed = .scheduled t.key t.number delay ∧ t.due = Timeline.after r.time delay
  due : ∀ t ∈ s.alive, t.awake = true → t.due ≤ s.clock
  waits : ∀ key number,
    s.debouncer.waiting.get? key = some number ↔ Outstanding key number s.log
  ascending : s.debouncer.waiting.Ascending
  attended : ∀ key number, Outstanding key number s.log →
    ∃ t ∈ s.alive, t.key = key ∧ t.number = number
  right : Right s.log

namespace Orderly

variable {s : Timers}

theorem isPending_iff (h : Orderly s) (key : String) :
    s.debouncer.isPending key = true ↔ ∃ number, Outstanding key number s.log := by
  simp only [← h.waits, Debouncer.isPending, Table.contains, Option.isSome_iff_exists]

theorem opening : Orderly {} where
  known := by intro _ mem; cases mem
  once := List.nodup_nil
  accounted := List.Perm.refl _
  timed := by intro _ mem; cases mem
  due := by intro _ mem; cases mem
  waits := by
    intro key number
    constructor
    · intro some
      cases some
    · exact False.elim
  ascending := Table.ascending_empty
  attended := by intro _ _ waits; exact waits.elim
  right := by
    intro later x earlier same
    simp at same

theorem schedule (h : Orderly s) (key : String) (delay : Nat) :
    Orderly (s.schedule key delay) := by
  have new : s.debouncer.issued + 1 ∉ issued s.log := by
    intro mem
    have := h.known _ mem
    omega
  exact {
    known := by
      intro number mem
      rcases List.mem_cons.mp mem with rfl | earlier
      · exact Nat.le_refl _
      · exact Nat.le_succ_of_le (h.known number earlier)
    once := List.nodup_cons.mpr ⟨new, h.once⟩
    accounted := h.accounted.cons _
    timed := by
      intro t mem
      rcases List.mem_cons.mp mem with rfl | earlier
      · exact ⟨_, List.mem_cons_self, delay, rfl, rfl⟩
      · obtain ⟨r, mem, timed⟩ := h.timed t earlier
        exact ⟨r, List.mem_cons_of_mem _ mem, timed⟩
    due := by
      intro t mem awake
      rcases List.mem_cons.mp mem with rfl | earlier
      · cases awake
      · exact h.due t earlier awake
    waits := by
      intro k number
      by_cases same : k = key
      · simp [Timers.schedule, Timers.note, Debouncer.schedule, Outstanding, Deed.Withdraws, same]
      · have other : ¬ key = k := fun eq => same eq.symm
        simp [Timers.schedule, Timers.note, Debouncer.schedule, Outstanding, Deed.Withdraws, same,
          other, h.waits]
    ascending := h.ascending.set key _
    attended := by
      intro k number waits
      rcases waits with ⟨d, same⟩ | ⟨earlier, -, -⟩
      · cases same
        exact ⟨_, List.mem_cons_self, rfl, rfl⟩
      · obtain ⟨t, mem, same⟩ := h.attended k number earlier
        exact ⟨t, List.mem_cons_of_mem _ mem, same⟩
    right := h.right.cons ⟨by rintro _ _ ⟨⟩, by rintro _ _ (⟨⟨⟩⟩ | ⟨⟨⟩⟩)⟩ }

/-- A deed of a caller that is no request. -/
theorem withdrawal (h : Orderly s) {deed : Deed} {debouncer : Debouncer}
    (issues : deed.issues? = none) (looks : deed.looks? = none)
    (counts : debouncer.issued = s.debouncer.issued)
    (waits : ∀ key number, debouncer.waiting.get? key = some number ↔
      s.debouncer.waiting.get? key = some number ∧ ¬ deed.Withdraws key)
    (ascending : debouncer.waiting.Ascending)
    (right : (Entry.mk s.clock deed).Right s.log) :
    Orderly ({ s with debouncer }.note deed) := by
  have issued_note : issued (⟨s.clock, deed⟩ :: s.log) = issued s.log := by
    simp [issued, issues]
  have looked_note : looked (⟨s.clock, deed⟩ :: s.log) = looked s.log := by
    simp [looked, looks]
  have outstanding : ∀ key number, Outstanding key number (⟨s.clock, deed⟩ :: s.log) ↔
      Outstanding key number s.log ∧ ¬ deed.Withdraws key := by
    intro key number
    have request : ∀ delay, deed ≠ .scheduled key number delay := by
      rintro delay rfl
      cases issues
    have acts : deed ≠ .acted key number := by
      rintro rfl
      cases looks
    simp [Outstanding, request, acts]
  exact {
    known := by
      intro number mem
      exact counts ▸ h.known number (issued_note ▸ mem)
    once := issued_note ▸ h.once
    accounted := by
      have accounted := h.accounted
      rw [← issued_note, ← looked_note] at accounted
      exact accounted
    timed := by
      intro t mem
      obtain ⟨r, mem, timed⟩ := h.timed t mem
      exact ⟨r, List.mem_cons_of_mem _ mem, timed⟩
    due := h.due
    waits := by
      intro key number
      exact (waits key number).trans
        ((and_congr_left' (h.waits key number)).trans (outstanding key number).symm)
    ascending := ascending
    attended := by
      intro key number waits
      exact h.attended key number ((outstanding key number).mp waits).1
    right := h.right.cons right }

theorem cancel (h : Orderly s) (key : String) : Orderly (s.cancel key) := by
  refine h.withdrawal rfl rfl rfl ?_ (h.ascending.erase key) ?_
  · intro k number
    by_cases same : k = key
    · simp [Debouncer.cancel, Deed.Withdraws, same]
    · have other : ¬ key = k := fun eq => same eq.symm
      simp [Debouncer.cancel, Deed.Withdraws, same, other]
  · constructor
    · intro k answer same
      cases same
      exact h.isPending_iff key
    · rintro _ _ (⟨⟨⟩⟩ | ⟨⟨⟩⟩)

theorem flush (h : Orderly s) : Orderly s.flush := by
  refine h.withdrawal rfl rfl rfl ?_ Table.ascending_empty ?_
  · intro key number
    constructor
    · intro some
      cases some
    · intro kept
      exact absurd trivial kept.2
  · constructor
    · rintro _ _ ⟨⟩
    · rintro _ _ (⟨⟨⟩⟩ | ⟨⟨⟩⟩)

theorem tick (h : Orderly s) (time : Nat) : Orderly { s with clock := s.clock + time } where
  known := h.known
  once := h.once
  accounted := h.accounted
  timed := h.timed
  due t mem awake := Nat.le_add_right_of_le (h.due t mem awake)
  waits := h.waits
  ascending := h.ascending
  attended := h.attended
  right := h.right

theorem wake (h : Orderly s) (number : Nat) : Orderly (s.wake number) where
  known := h.known
  once := h.once
  accounted := by
    have same : (s.wake number).alive.map (·.number) = s.alive.map (·.number) := by
      simp [Timers.wake, Timer.called, Function.comp_def]
    rw [same]
    exact h.accounted
  timed := by
    intro t mem
    obtain ⟨u, asleep, rfl⟩ := List.mem_map.mp mem
    exact h.timed u asleep
  due := by
    intro t mem awake
    obtain ⟨u, asleep, rfl⟩ := List.mem_map.mp mem
    rcases Bool.or_eq_true_iff.mp awake with before | now
    · exact h.due u asleep before
    · exact of_decide_eq_true (Bool.and_eq_true_iff.mp now).2
  waits := h.waits
  ascending := h.ascending
  attended := by
    intro key n waits
    obtain ⟨t, mem, same⟩ := h.attended key n waits
    exact ⟨_, List.mem_map_of_mem mem, same⟩
  right := h.right

/-- No two timers have the same number, whether they have looked or not. -/
theorem numbers_nodup (h : Orderly s) : (s.alive.map (·.number) ++ looked s.log).Nodup :=
  h.accounted.nodup_iff.mp h.once

theorem not_looked (h : Orderly s) {t : Timer} (alive : t ∈ s.alive) :
    t.number ∉ looked s.log := by
  intro gone
  exact List.disjoint_of_nodup_append h.numbers_nodup (List.mem_map_of_mem alive) gone

/-- A timer that is awake looks. Its request acts if it is outstanding. -/
theorem looking (h : Orderly s) {t : Timer} (alive : t ∈ s.alive) (awake : t.awake = true)
    {deed : Deed} {debouncer : Debouncer}
    (looks : deed = .acted t.key t.number ∨ deed = .passed t.key t.number)
    (turn : deed = .acted t.key t.number ↔ Outstanding t.key t.number s.log)
    (counts : debouncer.issued = s.debouncer.issued)
    (waits : ∀ key number, debouncer.waiting.get? key = some number ↔
      s.debouncer.waiting.get? key = some number ∧ deed ≠ .acted key number)
    (ascending : debouncer.waiting.Ascending) :
    Orderly ({ s with debouncer, alive := s.alive.erase t }.note deed) := by
  have issued_note : issued (⟨s.clock, deed⟩ :: s.log) = issued s.log := by
    rcases looks with rfl | rfl <;> rfl
  have looked_note : looked (⟨s.clock, deed⟩ :: s.log) = t.number :: looked s.log := by
    rcases looks with rfl | rfl <;> rfl
  have outstanding : ∀ key number, Outstanding key number (⟨s.clock, deed⟩ :: s.log) ↔
      Outstanding key number s.log ∧ deed ≠ .acted key number := by
    intro key number
    rcases looks with rfl | rfl <;> simp [Outstanding, Deed.Withdraws]
  exact {
    known := by
      intro number mem
      exact counts ▸ h.known number (issued_note ▸ mem)
    once := issued_note ▸ h.once
    accounted := by
      have numbers : (s.alive.map (·.number)).Perm
          (t.number :: (s.alive.erase t).map (·.number)) :=
        (List.perm_cons_erase alive).map _
      have accounted := h.accounted.trans (numbers.append_right _)
      rw [← issued_note] at accounted
      exact (accounted.trans List.perm_middle.symm).trans (looked_note ▸ List.Perm.refl _)
    timed := by
      intro u mem
      obtain ⟨r, mem, timed⟩ := h.timed u (List.mem_of_mem_erase mem)
      exact ⟨r, List.mem_cons_of_mem _ mem, timed⟩
    due := by
      intro u mem
      exact h.due u (List.mem_of_mem_erase mem)
    waits := by
      intro key number
      exact (waits key number).trans
        ((and_congr_left' (h.waits key number)).trans (outstanding key number).symm)
    ascending := ascending
    attended := by
      intro key number waits
      obtain ⟨earlier, acts⟩ := (outstanding key number).mp waits
      obtain ⟨u, mem, rfl, rfl⟩ := h.attended key number earlier
      have other : u ≠ t := by
        rintro rfl
        exact acts (turn.mpr earlier)
      exact ⟨u, (List.mem_erase_of_ne other).mpr mem, rfl, rfl⟩
    right := by
      apply h.right.cons
      constructor
      · intro key answer same
        rcases looks with rfl | rfl <;> cases same
      · intro key number same
        obtain ⟨rfl, rfl⟩ : t.key = key ∧ t.number = number := by
          rcases looks with rfl | rfl <;> rcases same with same | same <;> cases same <;>
            exact ⟨rfl, rfl⟩
        obtain ⟨r, mem, delay, request, due⟩ := h.timed t alive
        obtain ⟨between, before, split⟩ := List.append_of_mem mem
        have once := h.once
        have waits := h.not_looked alive
        rw [split] at once waits turn
        refine ⟨between, r, before, delay, split, request, ?_, ?_⟩
        · have slept := h.due t alive awake
          rw [due] at slept
          exact slept
        · exact turn.trans (outstanding_after request once waits) }

theorem look (h : Orderly s) (number : Nat) : Orderly (s.look number) := by
  unfold Timers.look
  split
  · exact h
  · next t found =>
    have alive := List.mem_of_find?_eq_some found
    obtain ⟨rfl, awake⟩ : t.number = number ∧ t.awake = true := by
      simpa using List.find?_some found
    by_cases turn : s.debouncer.waiting.get? t.key = some t.number
    · simp only [Debouncer.claim, if_pos turn]
      refine h.looking alive awake (.inl rfl) (by simp [← h.waits, turn]) rfl ?_
        (h.ascending.erase t.key)
      intro key number
      by_cases same : key = t.key
      · subst same
        have only : s.debouncer.waiting.get? t.key = some number → t.number = number := by
          intro waits
          exact Option.some.inj (turn.symm.trans waits)
        simpa using only
      · have other : ¬ t.key = key := fun eq => same eq.symm
        simp [same, other]
    · simp only [Debouncer.claim, if_neg turn]
      refine h.looking alive awake (.inr rfl) (by simp [← h.waits, turn]) rfl ?_ h.ascending
      simp

theorem act (h : Orderly s) (a : Act) : Orderly (s.act a) := by
  cases a with
  | schedule key delay => exact h.schedule key delay
  | cancel key => exact h.cancel key
  | flush => exact h.flush
  | tick time => exact h.tick time
  | wake number => exact h.wake number
  | look number => exact h.look number

theorem acts (h : Orderly s) (acts : List Act) : Orderly (acts.foldl Timers.act s) := by
  induction acts generalizing s with
  | nil => exact h
  | cons a acts ih => exact ih (h.act a)

theorem eq_of_number (h : Orderly s) {t u : Timer} (alive : t ∈ s.alive) (alive' : u ∈ s.alive)
    (same : t.number = u.number) : t = u := by
  have once : (s.alive.map (·.number)).Nodup := List.Nodup.of_append_left h.numbers_nodup
  exact List.inj_on_of_nodup_map once alive alive' same

/-- A timer wakes when its time has come, and the others do not. -/
theorem wakes (h : Orderly s) {t : Timer} {others : List Timer}
    (alive : s.alive.Perm (t :: others)) :
    ((s.act (.tick (t.due - s.clock))).act (.wake t.number)).alive.Perm
      ({ t with awake := true } :: others) := by
  have once : (t.number :: others.map (·.number)).Nodup :=
    (alive.map _).nodup_iff.mp (List.Nodup.of_append_left h.numbers_nodup)
  have due : t.due ≤ s.clock + (t.due - s.clock) := by omega
  have first : t.called t.number (s.clock + (t.due - s.clock)) = { t with awake := true } := by
    simp [Timer.called, due]
  have asleep : others.map (Timer.called t.number (s.clock + (t.due - s.clock))) = others := by
    refine (List.map_congr_left ?_).trans (List.map_id others)
    intro u mem
    have other : u.number ≠ t.number := by
      intro same
      exact (List.nodup_cons.mp once).1 (same ▸ List.mem_map_of_mem mem)
    simp [Timer.called, other]
  have mapped := alive.map (Timer.called t.number (s.clock + (t.due - s.clock)))
  rwa [List.map_cons, first, asleep] at mapped

/-- Nothing keeps a timer from waking and looking when its time has come. Its request acts if it is
the one that waits. -/
theorem ring (h : Orderly s) {t : Timer} {others : List Timer}
    (alive : s.alive.Perm (t :: others)) :
    (s.ring t).clock = s.clock + (t.due - s.clock) ∧ (s.ring t).alive.Perm others ∧
      (s.ring t).debouncer = (s.debouncer.claim t.key t.number).getD s.debouncer ∧
      (s.ring t).log = ⟨s.clock + (t.due - s.clock),
        if (s.debouncer.claim t.key t.number).isSome then .acted t.key t.number
        else .passed t.key t.number⟩ :: s.log := by
  have ready : Orderly ((s.act (.tick (t.due - s.clock))).act (.wake t.number)) :=
    (h.act _).act _
  have woken := h.wakes alive
  unfold Timers.ring
  generalize waken : (s.act (.tick (t.due - s.clock))).act (.wake t.number) = w at ready woken
  have clock : w.clock = s.clock + (t.due - s.clock) := waken ▸ rfl
  have debouncer : w.debouncer = s.debouncer := waken ▸ rfl
  have log : w.log = s.log := waken ▸ rfl
  have awake : { t with awake := true } ∈ w.alive := woken.mem_iff.mpr List.mem_cons_self
  -- No other timer has the number, so the look is that of this one.
  have found : w.alive.find? (fun u => decide (u.number = t.number) && u.awake) =
      some { t with awake := true } := by
    cases found : w.alive.find? (fun u => decide (u.number = t.number) && u.awake) with
    | none => simpa using List.find?_eq_none.mp found _ awake
    | some u =>
      obtain ⟨same, -⟩ : u.number = t.number ∧ u.awake = true := by
        simpa using List.find?_some found
      exact congrArg some (ready.eq_of_number (List.mem_of_find?_eq_some found) awake same)
  have gone : (w.alive.erase { t with awake := true }).Perm others := by
    simpa using woken.erase { t with awake := true }
  simp only [List.foldl_cons, List.foldl_nil, waken]
  simp only [Timers.act, Timers.look, found, debouncer]
  cases claim : s.debouncer.claim t.key t.number with
  | none => exact ⟨clock, gone, rfl, by simp [Timers.note, clock, log]⟩
  | some d => exact ⟨clock, gone, rfl, by simp [Timers.note, clock, log]⟩

end Orderly

/-! ## Which requests act -/

/-- In whatever order requests are made, cancelled and flushed and timers wake and look, each
request acts at most once, and when its timer looks it acts if and only if its key has not been
withdrawn since. It never acts before its delay, or the longest wait that a clock knows if that
is shorter, is over. A key has at most one pending timer, and what the debouncer tells its
callers agrees with the requests that are outstanding. -/
theorem requests_settled (acts : List Act) :
    let s := Timers.play acts
    ((issued s.log).Nodup ∧ (performed s.log).Nodup ∧
      (∀ number ∈ issued s.log, number ∈ looked s.log ∨ ∃ t ∈ s.alive, t.number = number) ∧
      ∀ later x earlier, s.log = later ++ x :: earlier →
        ∀ key number, x.deed = .acted key number ∨ x.deed = .passed key number →
          ∃ between r before delay, earlier = between ++ r :: before ∧
            r.deed = .scheduled key number delay ∧
            r.time + min delay Timeline.longestWait ≤ x.time ∧
            (x.deed = .acted key number ↔ ∀ y ∈ between, ¬ y.deed.Withdraws key)) ∧
    (∀ t u, s.Pending t → s.Pending u → t.key = u.key → t = u) ∧
    (∀ key, s.debouncer.isPending key = true ↔ ∃ number, Outstanding key number s.log) ∧
    (∃ keys : List String, keys.Nodup ∧ keys.length = s.debouncer.pendingCount ∧
      ∀ key, key ∈ keys ↔ ∃ number, Outstanding key number s.log) ∧
    ∀ later x earlier, s.log = later ++ x :: earlier →
      ∀ key found, x.deed = .cancelled key found →
        (found = true ↔ ∃ number, Outstanding key number earlier) := by
  intro s
  have h : Orderly s := Orderly.opening.acts acts
  refine ⟨⟨h.once, ?_, ?_, ?_⟩, ?_, h.isPending_iff, ?_, ?_⟩
  · have once : (looked s.log).Nodup := List.Nodup.of_append_right h.numbers_nodup
    exact once.sublist (performed_sublist s.log)
  · intro number mem
    rcases List.mem_append.mp (h.accounted.subset mem) with alive | gone
    · obtain ⟨t, alive, same⟩ := List.mem_map.mp alive
      exact .inr ⟨t, alive, same⟩
    · exact .inl gone
  · intro later x earlier split
    exact (h.right later x earlier split).deserved
  · rintro t u ⟨alive, waits⟩ ⟨alive', waits'⟩ same
    rw [same, waits'] at waits
    exact h.eq_of_number alive alive' (Option.some.inj waits).symm
  · refine ⟨s.debouncer.waiting.keys, h.ascending.nodup, List.length_map _, ?_⟩
    intro key
    exact (Table.mem_keys _ key).trans (h.isPending_iff key)
  · intro later x earlier split
    exact (h.right later x earlier split).found

/-- A request for more than the longest wait acts before its delay is over. -/
theorem long_request_early :
    let s := Timers.play [.schedule "a" (Timeline.longestWait + 1), .tick Timeline.longestWait,
      .wake 1, .look 1]
    s.log = [⟨Timeline.longestWait, .acted "a" 1⟩,
      ⟨0, .scheduled "a" 1 (Timeline.longestWait + 1)⟩] ∧
    ¬ 0 + (Timeline.longestWait + 1) ≤ Timeline.longestWait := by
  constructor
  · rfl
  · decide

/-- A request that is left alone acts when its time has come. -/
theorem acts_when_left_alone {s : Timers} (h : Orderly s) {key : String} {number : Nat}
    (waits : Outstanding key number s.log) :
    ∃ t ∈ s.alive, t.number = number ∧
      (s.ring t).log = ⟨max s.clock t.due, .acted key number⟩ :: s.log := by
  obtain ⟨t, mem, rfl, rfl⟩ := h.attended key number waits
  have claims : (s.debouncer.claim t.key t.number).isSome = true := by
    simp [Debouncer.claim, (h.waits t.key t.number).mpr waits]
  obtain ⟨-, -, -, log⟩ := h.ring (List.perm_cons_erase mem)
  have time : s.clock + (t.due - s.clock) = max s.clock t.due := by omega
  exact ⟨t, mem, rfl, by rw [log, claims, if_pos rfl, time]⟩

end Tributary.Debouncing
