import Tributary.Proofs.Workforce

/-!
# Workers that come to an end

Not every order of turns lets a worker go on: one may never get its turn. But as long as there
are workers one of them is not waiting (`exists_busy`), and each turn of such a worker brings the
end nearer (`work_rest`). So once nobody triggers keys any more, all that is owed can be done.
-/

namespace Tributary

namespace Workforce

variable {passes : Nat} {w : Workforce}

/-- A permit is free only while nobody waits for one. -/
def Thrifty (d : Dispatcher) : Prop := d.waiting = [] ∨ d.free = 0

theorem turn_thrifty (h : Thrifty w.host.dispatcher) (t : Turn) :
    Thrifty (w.turn t).host.dispatcher := by
  cases t with
  | trigger key => exact h
  | work i outcome =>
    simp only [turn, work]
    split
    · exact h
    · simp only [ask, Dispatcher.acquire]
      split
      · next none_free => exact .inr none_free
      · next n free =>
        have nobody := h.resolve_right (by omega)
        exact .inl nobody
    · exact h
    · exact h
    · simp only [finish, Dispatcher.giveBack]
      split
      · next nobody => exact .inl nobody
      · next waits =>
        have none_free := h.resolve_left (by simp [waits])
        exact .inr none_free
    · simpa [settle] using h
    · simp only [goOn, Dispatcher.again]
      split <;> exact h

theorem play_thrifty (config : HostConfig) (turns : List Turn) :
    Thrifty (play config turns).host.dispatcher :=
  play_preserves (P := fun w => Thrifty w.host.dispatcher) (.inl rfl) turn_thrifty turns

/-- As long as there are workers, one of them can go on. -/
theorem exists_busy (config : HostConfig) (permits : 1 ≤ config.passes) (turns : List Turn)
    (somebody : (play config turns).hands ≠ []) :
    ∃ h ∈ (play config turns).hands, h.duty ≠ .waiting := by
  have staffed := play_staffed config turns
  apply Classical.byContradiction
  intro nobody
  have all_wait : ∀ h ∈ (play config turns).hands, h.duty = .waiting := by
    intro h mem
    apply Classical.byContradiction
    intro busy
    exact nobody ⟨h, mem, busy⟩
  have none_hold : (play config turns).hands.countP (·.duty.holdsPermit) = 0 := by
    apply List.countP_eq_zero.mpr
    intro h mem
    simp [all_wait h mem, Duty.holdsPermit]
  obtain ⟨h, mem⟩ := List.exists_mem_of_ne_nil _ somebody
  have waits : h.key ∈ (play config turns).host.dispatcher.waiting := by
    apply (staffed.waits h.key).mpr
    rw [← all_wait h mem]
    exact mem
  have none_free : (play config turns).host.dispatcher.free = 0 :=
    (play_thrifty config turns).resolve_left (List.ne_nil_of_mem waits)
  have := staffed.permits
  omega

/-! ## What is left to do -/

/-- How far a worker is from leaving if its key is not dirty. -/
def distance : Duty → Nat
  | .asking => 6
  | .waiting => 5
  | .permitted => 4
  | .running _ => 3
  | .returned _ => 2
  | .settled => 1

/-- A worker whose key is dirty has to start again. -/
def restOf (inFlight : Table Bool) (h : Hand) : Nat :=
  distance h.duty + if inFlight.get? h.key = some true then 6 else 0

/-- The workers take at most so many turns until all of them have left. -/
def restOfAll (inFlight : Table Bool) : List Hand → Nat
  | [] => 0
  | h :: hands => restOf inFlight h + restOfAll inFlight hands

def rest (w : Workforce) : Nat := restOfAll w.host.dispatcher.inFlight w.hands

theorem restOfAll_middle (inFlight : Table Bool) (before after : List Hand) (h : Hand) :
    restOfAll inFlight (before ++ h :: after) =
      restOfAll inFlight (before ++ after) + restOf inFlight h := by
  induction before with
  | nil => exact Nat.add_comm _ _
  | cons g before ih =>
    simp only [List.cons_append, restOfAll, ih]
    omega

theorem restOfAll_congr {inFlight inFlight' : Table Bool} {hands : List Hand}
    (same : ∀ h ∈ hands, inFlight.get? h.key = inFlight'.get? h.key) :
    restOfAll inFlight hands = restOfAll inFlight' hands := by
  induction hands with
  | nil => rfl
  | cons h hands ih =>
    obtain ⟨first, others⟩ := List.forall_mem_cons.mp same
    rw [restOfAll, restOfAll, restOf, restOf, first, ih others]

/-- A worker that gets a permit is no farther from leaving. -/
theorem restOfAll_promote (inFlight : Table Bool) (key : String) (hands : List Hand) :
    restOfAll inFlight (promote key hands) ≤ restOfAll inFlight hands := by
  induction hands with
  | nil => exact Nat.le_refl _
  | cons h hands ih =>
    obtain ⟨k, duty⟩ := h
    have later (g : Hand) : restOfAll inFlight (g :: promote key hands) ≤
        restOfAll inFlight (g :: hands) := Nat.add_le_add_left ih _
    cases duty with
    | waiting =>
      by_cases same : k = key
      · simp [promote, same, restOfAll, restOf, distance]
      · simpa [promote, same] using later ⟨k, .waiting⟩
    | _ => exact later _

/-- A worker that does not leave comes nearer to it. -/
theorem rest_of_replace {w' : Workforce} {before after : List Hand} {k : String}
    {duty : Duty} (duty' : Duty) (split : w.hands = before ++ ⟨k, duty⟩ :: after)
    (inFlight : w'.host.dispatcher.inFlight = w.host.dispatcher.inFlight)
    (hands : w'.rest ≤ restOfAll w'.host.dispatcher.inFlight (before ++ ⟨k, duty'⟩ :: after))
    (nearer : distance duty' < distance duty) : w'.rest < w.rest := by
  have before_turn : w.rest = restOfAll w.host.dispatcher.inFlight (before ++ after) +
      restOf w.host.dispatcher.inFlight ⟨k, duty⟩ := by
    rw [rest, split, restOfAll_middle]
  rw [inFlight, restOfAll_middle] at hands
  simp only [restOf] at hands before_turn
  omega

theorem goOn_rest (staffed : Staffed passes w.host.dispatcher w.hands) {i : Nat} {key : String}
    (settled : w.hands[i]? = some ⟨key, .settled⟩) : (w.goOn i key).rest < w.rest := by
  obtain ⟨before, after, split, set, erase⟩ := exists_split settled
  have once := staffed.once
  rw [split] at once
  have others : ∀ h ∈ before ++ after, h.key ≠ key := by
    intro h mem same
    exact key_apart once (same ▸ List.mem_map_of_mem mem)
  by_cases dirty : w.host.dispatcher.inFlight.get? key = some true
  · have hands : (w.goOn i key).hands = before ++ ⟨key, .asking⟩ :: after := by
      simp [goOn, Dispatcher.again, dirty, set]
    have inFlight : (w.goOn i key).host.dispatcher.inFlight =
        w.host.dispatcher.inFlight.set key false := by
      simp [goOn, Dispatcher.again, dirty]
    have same : restOfAll (w.host.dispatcher.inFlight.set key false) (before ++ after) =
        restOfAll w.host.dispatcher.inFlight (before ++ after) := by
      apply restOfAll_congr
      intro h mem
      simp [others h mem]
    rw [rest, rest, hands, inFlight, split, restOfAll_middle, restOfAll_middle, same]
    simp [restOf, distance, dirty]
  · have hands : (w.goOn i key).hands = before ++ after := by
      simp [goOn, Dispatcher.again, dirty, erase]
    have inFlight : (w.goOn i key).host.dispatcher.inFlight =
        w.host.dispatcher.inFlight.erase key := by
      simp [goOn, Dispatcher.again, dirty]
    have same : restOfAll (w.host.dispatcher.inFlight.erase key) (before ++ after) =
        restOfAll w.host.dispatcher.inFlight (before ++ after) := by
      apply restOfAll_congr
      intro h mem
      simp [others h mem]
    rw [rest, rest, hands, inFlight, split, restOfAll_middle, same]
    simp [restOf, distance, dirty]

/-- A turn of a worker that is not waiting brings the end nearer. -/
theorem work_rest (staffed : Staffed passes w.host.dispatcher w.hands) {i : Nat} {h : Hand}
    (found : w.hands[i]? = some h) (busy : h.duty ≠ .waiting) (outcome : Except SyncError Action) :
    (w.work i outcome).rest < w.rest := by
  obtain ⟨before, after, split, set, -⟩ := exists_split found
  obtain ⟨key, duty⟩ := h
  cases duty with
  | asking =>
    simp only [work, found]
    cases free : w.host.dispatcher.free with
    | zero =>
      apply rest_of_replace .waiting split
      all_goals simp [ask, Dispatcher.acquire, free, set, rest, distance]
    | succ n =>
      apply rest_of_replace .permitted split
      all_goals simp [ask, Dispatcher.acquire, free, set, rest, distance]
  | waiting => exact absurd rfl busy
  | permitted =>
    simp only [work, found]
    apply rest_of_replace (.running w.begun) split
    all_goals simp [begin, set, rest, distance]
  | running pass =>
    simp only [work, found]
    cases waiting : w.host.dispatcher.waiting with
    | nil =>
      apply rest_of_replace (.returned outcome) split
      all_goals simp [finish, Dispatcher.giveBack, waiting, set, rest, distance]
    | cons other others =>
      apply rest_of_replace (.returned outcome) split
      all_goals simp [finish, Dispatcher.giveBack, waiting, set, rest, distance, restOfAll_promote]
  | returned result =>
    simp only [work, found]
    apply rest_of_replace .settled split
    all_goals simp [settle, set, rest, distance]
  | settled =>
    simp only [work, found]
    exact goOn_rest staffed found

theorem play_append (config : HostConfig) (turns later : List Turn) :
    play config (turns ++ later) = later.foldl turn (play config turns) :=
  List.foldl_append

/-- Whatever has been triggered, the workers can leave with nothing left to do. -/
theorem leave_nothing (config : HostConfig) (permits : 1 ≤ config.passes) (turns : List Turn) :
    ∃ later : List Turn, (∀ key, .trigger key ∉ later) ∧
      let v := play config (turns ++ later)
      v.hands = [] ∧ ∀ key, awaits key v.log = false := by
  generalize far : (play config turns).rest = n
  induction n using Nat.strongRecOn generalizing turns with
  | ind n ih =>
    by_cases nobody : (play config turns).hands = []
    · refine ⟨[], nofun, ?_⟩
      rw [List.append_nil]
      refine ⟨nobody, ?_⟩
      intro key
      have staffed := play_staffed config turns
      have gone : (play config turns).host.dispatcher.inFlight.contains key = false := by
        have := staffed.known key
        simpa [nobody] using this
      have nothing := staffed.owed_of_gone gone
      apply Bool.eq_false_iff.mpr
      intro triggered
      have := owed_of_awaits config turns key triggered
      omega
    · obtain ⟨h, mem, busy⟩ := exists_busy config permits turns nobody
      obtain ⟨i, found⟩ := List.mem_iff_getElem?.mp mem
      have turn : play config (turns ++ [.work i (.ok .done)]) =
          (play config turns).work i (.ok .done) := by
        rw [play_append]
        rfl
      have nearer := work_rest (play_staffed config turns) found busy (.ok .done)
      rw [← turn, far] at nearer
      obtain ⟨later, quiet, done⟩ := ih _ nearer _ rfl
      refine ⟨.work i (.ok .done) :: later, ?_, ?_⟩
      · intro key mem
        rcases List.mem_cons.mp mem with same | mem
        · cases same
        · exact quiet key mem
      · rwa [List.append_assoc] at done

end Workforce

end Tributary
