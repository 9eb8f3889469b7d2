/-!
# Timelines

Alarms in the order in which they were set. They ring in the order of their times; those of
one time ring in the order in which they were set. No wait is longer than thirty years.
-/

namespace Tributary

structure Alarm (α : Type) where
  due : Nat
  what : α

structure Timeline (α : Type) where
  alarms : List (Alarm α) := []

namespace Timeline

variable {α : Type}

/-- Thirty years of 365 days, in milliseconds. -/
def longestWait : Nat := 30 * 365 * 24 * 60 * 60 * 1000

/-- When a wait ends. -/
def after (now wait : Nat) : Nat := now + min wait longestWait

def set (t : Timeline α) (due : Nat) (what : α) : Timeline α :=
  ⟨t.alarms ++ [⟨due, what⟩]⟩

/-- The time of the next alarm. -/
def next? (t : Timeline α) : Option Nat := (t.alarms.map (·.due)).min?

/-- The first alarm of a time and the others. -/
def takeFirst (time : Nat) : List (Alarm α) → Option (Alarm α × List (Alarm α))
  | [] => none
  | a :: rest =>
    if a.due = time then some (a, rest)
    else (takeFirst time rest).map fun (b, rest) => (b, a :: rest)

/-- The next alarm, if it is due by a time, and what is left. -/
def ring? (t : Timeline α) (limit : Nat) : Option (Alarm α × Timeline α) :=
  match t.next? with
  | none => none
  | some time =>
    if time ≤ limit then (takeFirst time t.alarms).map fun (a, rest) => (a, ⟨rest⟩) else none

def size (t : Timeline α) : Nat := t.alarms.length

theorem takeFirst_length {time : Nat} {as rest : List (Alarm α)} {a : Alarm α}
    (h : takeFirst time as = some (a, rest)) : rest.length + 1 = as.length := by
  induction as generalizing rest with
  | nil => simp [takeFirst] at h
  | cons b as ih =>
    unfold takeFirst at h
    split at h
    · simp only [Option.some.injEq, Prod.mk.injEq] at h
      simp [← h.2]
    · simp only [Option.map_eq_some_iff, Prod.exists, Prod.mk.injEq] at h
      obtain ⟨c, r, hr, rfl, rfl⟩ := h
      simpa using ih hr

/-- An alarm rings once. -/
theorem size_of_ring? {t rest : Timeline α} {a : Alarm α} {time : Nat}
    (h : t.ring? time = some (a, rest)) : rest.size + 1 = t.size := by
  unfold ring? at h
  split at h
  · simp at h
  · split at h
    · simp only [Option.map_eq_some_iff, Prod.exists, Prod.mk.injEq] at h
      obtain ⟨b, r, hr, rfl, rfl⟩ := h
      exact takeFirst_length hr
    · simp at h

theorem takeFirst_perm {time : Nat} {as rest : List (Alarm α)} {a : Alarm α}
    (h : takeFirst time as = some (a, rest)) : a.due = time ∧ as.Perm (a :: rest) := by
  induction as generalizing rest with
  | nil => simp [takeFirst] at h
  | cons b as ih =>
    unfold takeFirst at h
    split at h
    · next due =>
      obtain ⟨rfl, rfl⟩ := Prod.mk.inj (Option.some.inj h)
      exact ⟨due, .refl _⟩
    · simp only [Option.map_eq_some_iff, Prod.exists, Prod.mk.injEq] at h
      obtain ⟨c, r, found, rfl, rfl⟩ := h
      obtain ⟨due, perm⟩ := ih found
      exact ⟨due, (perm.cons b).trans (.swap c b r)⟩

theorem takeFirst_ne_none {time : Nat} {as : List (Alarm α)} (mem : time ∈ as.map (·.due)) :
    takeFirst time as ≠ none := by
  induction as with
  | nil => cases mem
  | cons b as ih =>
    unfold takeFirst
    split
    · simp
    · next other =>
      rcases List.mem_cons.mp mem with same | later
      · exact absurd same.symm other
      · simpa using ih later

/-- An alarm that rings is due, and none is due before it. -/
theorem due_of_ring? {t rest : Timeline α} {a : Alarm α} {limit : Nat}
    (h : t.ring? limit = some (a, rest)) :
    a.due ≤ limit ∧ t.alarms.Perm (a :: rest.alarms) ∧ ∀ b ∈ t.alarms, a.due ≤ b.due := by
  unfold ring? at h
  split at h
  · cases h
  · next time next =>
    split at h
    · next soon =>
      simp only [Option.map_eq_some_iff, Prod.exists, Prod.mk.injEq] at h
      obtain ⟨c, r, found, rfl, rfl⟩ := h
      obtain ⟨rfl, perm⟩ := takeFirst_perm found
      refine ⟨soon, perm, ?_⟩
      intro b mem
      exact (List.min?_eq_some_iff.mp next).2 b.due (List.mem_map_of_mem mem)
    · cases h

/-- If no alarm rings, the others are due later. -/
theorem due_of_silence {t : Timeline α} {limit : Nat} (h : t.ring? limit = none) :
    ∀ b ∈ t.alarms, limit < b.due := by
  intro b mem
  unfold ring? at h
  split at h
  · next silent =>
    have none_left : t.alarms.map (·.due) = [] := List.min?_eq_none_iff.mp silent
    have := List.mem_map_of_mem (f := (·.due)) mem
    rw [none_left] at this
    cases this
  · next time next =>
    obtain ⟨mem_time, first⟩ := List.min?_eq_some_iff.mp next
    split at h
    · rw [Option.map_eq_none_iff] at h
      exact absurd h (takeFirst_ne_none mem_time)
    · next later =>
      have := first b.due (List.mem_map_of_mem mem)
      omega

end Timeline

end Tributary
