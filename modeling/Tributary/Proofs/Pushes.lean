import Tributary.Proofs.Attempts
import Tributary.Proofs.Contributions
import Tributary.Proofs.Skips

/-!
# What is pushed

A pass makes sure that its record asks for no teardown, but then it may set the guard or reset a
failure, and read the record again. What it pushes is what the version read then asks for, and
nobody looks any more whether that asks for a teardown: it does iff somebody has withdrawn or asked
for the deletion in the meantime (`Run.push_current`). Then a record that is to go is created
downstream (`walkout_pushed`).
-/

namespace Tributary

open Exchange (Kind)

/-! ## What was held before -/

/-- A version that was held at the latest exchange of a kind was read last then. -/
theorem exists_of_heldAt {k : Kind} {past : List Exchange} {c : Record}
    (held : heldAt k past = some c) :
    ∃ since x before, past = since ++ x :: before ∧ x.kind = k ∧
      lastRead (x :: before) = some c := by
  induction past with
  | nil => cases held
  | cons x past ih =>
    by_cases hx : x.kind = k
    · rw [heldAt_cons_of_eq hx] at held
      exact ⟨[], x, past, rfl, hx, held⟩
    · rw [heldAt_cons_of_ne hx] at held
      obtain ⟨since, y, before, rfl, hy, read⟩ := ih held
      exact ⟨x :: since, y, before, rfl, hy, read⟩

/-- What is no upkeep was done before the upkeep. -/
theorem Upkeep.exists_append {base past : List Exchange} (u : Upkeep base past)
    {since before : List Exchange} {x : Exchange} (split : past = since ++ x :: before)
    (hx : x.kind ≠ .upkeep) : ∃ since', base = since' ++ x :: before := by
  induction u generalizing since with
  | refl => exact ⟨since, split⟩
  | @step y past _ hy ih =>
    cases since with
    | nil =>
      obtain ⟨rfl, _⟩ := List.cons.inj split
      exact absurd hy hx
    | cons _ since => exact ih (List.cons.inj split).2

/-- What a member had read last at some time it has read no later than what it reads last later. -/
theorem exists_reads_since {i : Nat} {since past : List Move} {c g : Record}
    (first : lastRead (own i past) = some c) (second : lastRead (own i (since ++ past)) = some g) :
    ∃ after between before, since ++ past = after ++ (between ++ before) ∧ Reads i c before ∧
      Reads i g (between ++ before) := by
  obtain ⟨late, before, rfl, reads⟩ := exists_reads first
  induction since with
  | nil =>
    obtain rfl : g = c := Option.some.inj (second.symm.trans first)
    exact ⟨late, [], before, rfl, reads, reads⟩
  | cons mv since ih =>
    by_cases reading : mv.member = i ∧ mv.exchange.read? ≠ none
    · obtain ⟨rfl, some⟩ := reading
      rw [List.cons_append, own_cons_self, lastRead_cons] at second
      obtain ⟨r, read⟩ := Option.ne_none_iff_exists'.1 some
      rw [read] at second
      obtain rfl := Option.some.inj second
      refine ⟨[], mv :: (since ++ late), before, ?_, reads, mv, _, rfl, rfl, read⟩
      simp
    · have same : lastRead (own i (mv :: since ++ (late ++ before))) =
          lastRead (own i (since ++ (late ++ before))) := by
        by_cases mine : mv.member = i
        · have unread : mv.exchange.read? = none := by simpa [mine] using reading
          rw [List.cons_append, ← mine, own_cons_self, lastRead_cons_of_none unread]
        · rw [List.cons_append, own_cons_of_ne mine]
      obtain ⟨after, between, before', split, rest⟩ := ih (same ▸ second)
      exact ⟨mv :: after, between, before', congrArg (mv :: ·) split, rest⟩

/-! ## Requests for a teardown -/

namespace Record

/-- Nothing but a mark makes a record ask for a teardown. -/
def Unprompted (r : Record) : Prop := r.marked = false → r.sources ≠ []

theorem needsTeardown_iff {r : Record} (h : r.Unprompted) :
    r.needsTeardown = true ↔ r.marked = true := by
  cases marked : r.marked with
  | true =>
    obtain requested | deletion := Bool.or_eq_true_iff.1 marked
    · simp [needsTeardown, requested]
    · simp [needsTeardown, deletion]
  | false =>
    have some := h marked
    simp only [Record.marked, Bool.or_eq_false_iff] at marked
    simp [needsTeardown, marked, some]

theorem unprompted_of_needless {r : Record} (h : r.needsTeardown = false) :
    r.Unprompted ∧ r.marked = false := by
  simp only [needsTeardown, Bool.or_eq_false_iff] at h
  refine ⟨fun _ => by simpa using h.2, ?_⟩
  simp [marked, h.1]

end Record

namespace Job

/-- A job that asks for something of a record to be taken down. -/
def dismisses (key : String) : Job → Bool
  | .unregister _ k _ | .requestDeletion _ k => k = key
  | .register .. | .reconcile .. => false

/-- What may be made of a version as far as a teardown is concerned. -/
structure Prompts (dismissed : Prop) (v w : Record) : Prop where
  marked : w.marked = true ↔ v.marked = true ∨ dismissed
  unprompted : v.Unprompted → w.Unprompted

variable {j : Job} {past : List Exchange} {key : String} {x : Exchange} {v w r : Record}

theorem Prompts.of_same {dismissed : Prop} (none : ¬ dismissed)
    (same : w.marked = v.marked ∧ w.sources = v.sources) : Prompts dismissed v w where
  marked := by simp [same.1, none]
  unprompted h := by
    unfold Record.Unprompted
    rw [same.1, same.2]
    exact h

theorem Prompts.of_marked {dismissed : Prop} (some : dismissed) (marked : w.marked = true) :
    Prompts dismissed v w where
  marked := iff_of_true marked (.inr some)
  unprompted _ none := by cases none.symm.trans marked

/-- A version is marked for a teardown by those who ask for one, and cleared of it by a pass for the
generation that was torn down. -/
theorem edits_prompt (mine : j.protocol.key = key) (h : j.protocol.edits past v r)
    (calm : j.passes key = true → ∀ c, heldAt .aggregation past = some c →
      v.generation = c.generation → v.teardownRequested = false) :
    Prompts (j.dismisses key = true ∧ v.generation < r.generation) v r := by
  cases j with
  | register policy k template source =>
    obtain rfl : r = Registry.contribute source v := h
    have marked : (Registry.contribute source v).marked = v.marked := by
      unfold Registry.contribute
      split <;> rfl
    refine ⟨by simp [marked, dismisses], fun _ _ => ?_⟩
    rw [Registry.contribute_sources]
    exact upsert_ne_nil source v.sources
  | unregister policy k owner =>
    obtain rfl : r = (Registry.withdraw owner v).1 := h
    by_cases present : (v.sourceFor owner).isSome = true
    · have made : (Registry.withdraw owner v).1 = { v.removeSource owner with
          generation := v.generation + 1, teardownRequested := true } := by
        simp [Registry.withdraw, present]
      rw [made]
      exact .of_marked ⟨decide_eq_true mine, Nat.lt_succ_self _⟩ rfl
    · have same : (Registry.withdraw owner v).1 = v := by simp [Registry.withdraw, present]
      rw [same]
      exact .of_same (by simp) ⟨rfl, rfl⟩
  | requestDeletion policy k =>
    obtain rfl : r = Registry.condemn v := h
    refine .of_marked ⟨decide_eq_true mine, Nat.lt_succ_self _⟩ ?_
    simp [Registry.condemn, Record.marked]
  | reconcile e k =>
    have none (r : Record) :
        ¬ (dismisses key (.reconcile e k) = true ∧ v.generation < r.generation) := by
      simp [dismisses]
    refine .of_same (none r) ?_
    cases (h : Pass.Edits past v r) with
    | guard | adopt => exact ⟨rfl, rfl⟩
    | release => split <;> exact ⟨rfl, rfl⟩
    | @clear c _ aggregated =>
      split
      · next same =>
        have cleared := calm (decide_eq_true mine) c aggregated same
        exact ⟨by simp [Record.marked, cleared], rfl⟩
      · exact ⟨rfl, rfl⟩

theorem commit_prompts (h : Commit j.protocol past key x (some v) (some w))
    (calm : j.passes key = true → ∀ c, heldAt .aggregation past = some c →
      v.generation = c.generation → v.teardownRequested = false) :
    Prompts (j.dismisses key = true ∧ v.generation < w.generation) v w := by
  cases h with
  | kept => exact .of_same (by simp) ⟨rfl, rfl⟩
  | marked => exact .of_same (fun risen => Nat.lt_irrefl _ risen.2) ⟨rfl, rfl⟩
  | edited token now mine _ _ edits =>
    have prompts := edits_prompt mine edits calm
    exact ⟨prompts.marked, prompts.unprompted⟩

end Job

variable {faulty : StoreError → Prop} {jobs : Nat → Job} {start m : Memory}
  {history earlier later before : List Move} {mv : Move} {key : String} {c g w : Record}

namespace Run

/-- A record that asked for no teardown asks for one iff somebody has asked for one since, as long
as no pass clears it of that for a generation that is newer. -/
theorem marked_since (run : Run faulty (Job.crew jobs) start (later ++ before) m) (h : start.Sound)
    (found : (memoryAfter start before).records.get? key = some c) (undeleted : Undeleted key later)
    (needless : c.needsTeardown = false)
    (calm : ∀ later' mv later'', later = later' ++ mv :: later'' →
      (jobs mv.member).passes key = true →
      ∀ c', heldAt .aggregation (own mv.member (later'' ++ before)) = some c' →
        c'.generation ≤ c.generation) :
    ∃ w, m.records.get? key = some w ∧ w.Unprompted ∧
      (w.marked = true ↔
        ∃ mv ∈ later, (jobs mv.member).dismisses key = true ∧ mv.raises key = true) := by
  induction later generalizing m with
  | nil =>
    obtain ⟨unprompted, unmarked⟩ := Record.unprompted_of_needless needless
    exact ⟨c, run.memory_eq ▸ found, unprompted, by simp [unmarked]⟩
  | cons mv later ih =>
    obtain ⟨run', _⟩ := run.last
    obtain ⟨v, stored, unprompted, marked⟩ := ih run' (fun x hx => undeleted x (.tail _ hx))
      fun later' x later'' split => calm (mv :: later') x later'' (congrArg (mv :: ·) split)
    obtain ⟨w, made, _⟩ := run.lineage h found undeleted
    have risen : v.generation = c.generation + rises key later := by
      obtain ⟨v', stored', risen, _⟩ := run'.lineage h found fun x hx => undeleted x (.tail _ hx)
      obtain rfl : v' = v := Option.some.inj (stored'.symm.trans stored)
      exact risen
    have after : mv.after.records.get? key = some w := by
      rw [run.memory_eq] at made
      exact made
    have committed := run.committed h key
    rw [stored, after] at committed
    have raises : mv.raises key = decide (v.generation < w.generation) := by
      simp [Move.raises, stored, after]
    have prompts := Job.commit_prompts committed fun pass c' held same => by
      have older := calm [] mv later rfl pass c' held
      have none : rises key later = 0 := by omega
      have unmarked : ¬ v.marked = true := by
        rw [marked]
        rintro ⟨x, hx, _, raised⟩
        exact List.countP_eq_zero.1 none x hx raised
      simp only [Record.marked, Bool.not_eq_true, Bool.or_eq_false_iff] at unmarked
      exact unmarked.1
    refine ⟨w, made, prompts.unprompted unprompted, ?_⟩
    rw [prompts.marked, marked]
    simp [raises, or_comm]

end Run

/-- Whoever passes over a record since a pass has read it is that pass. -/
theorem OnePassAtATime.same_of_reads {since : List Move}
    (alone : OnePassAtATime jobs key (mv :: (since ++ before)))
    (pass : (jobs mv.member).passes key = true) (reads : Reads mv.member c before) {x : Move}
    (hx : x ∈ since) (other : (jobs x.member).passes key = true) : x.member = mv.member := by
  obtain ⟨began, past, rfl, mine, _⟩ := reads
  exact (alone [] mv since began past rfl mine.symm (mine ▸ pass) x hx other).trans mine

namespace Run

variable {after between : List Move}

/-- Between two readings of a pass its record is not deleted. -/
theorem undeleted_between (run : Run faulty (Job.crew jobs) start
      (mv :: (after ++ (between ++ before))) m) (h : start.Sound)
    (alone : OnePassAtATime jobs key (mv :: (after ++ (between ++ before))))
    (pass : (jobs mv.member).passes key = true) (first : Reads mv.member c before) :
    Undeleted key between := by
  have split : after ++ (between ++ before) = (after ++ between) ++ before := by simp
  have undeleted := Run.undeleted (split ▸ run) h (split ▸ alone) pass first
  exact fun x hx => undeleted x (List.mem_append_right _ hx)

/-- What a pass held before it was done with its teardown is no newer than what it held then. -/
theorem older_of_held (run : Run faulty (Job.crew jobs) start (mv :: (later ++ history)) m)
    (h : start.Sound) (alone : OnePassAtATime jobs key (mv :: (later ++ history)))
    (pass : (jobs mv.member).passes key = true)
    {base : List Exchange} (upkeep : Upkeep base (own mv.member history))
    (tested : lastRead base = some c) {sooner since : List Move} (split : history = since ++ sooner)
    {k : Kind} (other : k ≠ .upkeep) (held : heldAt k (own mv.member sooner) = some g) :
    g.generation ≤ c.generation := by
  obtain ⟨past, x, before, parts, hx, read⟩ := exists_of_heldAt held
  have whole : own mv.member history = (own mv.member since ++ past) ++ x :: before := by
    rw [split, own_append, parts, List.append_assoc]
  obtain ⟨past', rfl⟩ := upkeep.exists_append whole (hx ▸ other)
  obtain ⟨prep, prepared⟩ := upkeep.append
  obtain ⟨mid, rest, rfl, _, same⟩ := exists_of_own_append prepared
  obtain ⟨past'', earlier, rfl, _, same'⟩ := exists_of_own_append same
  have earlier_read : lastRead (own mv.member earlier) = some g := same' ▸ read
  have later_read : lastRead (own mv.member (past'' ++ earlier)) = some c := same ▸ tested
  obtain ⟨after, between, before', moves, first, second⟩ :=
    exists_reads_since earlier_read later_read
  have parts : later ++ (mid ++ (past'' ++ earlier)) =
      (later ++ mid ++ after) ++ (between ++ before') := by
    rw [moves]
    simp
  rw [parts] at run alone
  have undeleted := run.undeleted_between h alone pass first
  obtain ⟨_, reading⟩ := run.last.1.upto
  have found := reading.memory_eq ▸ reading.found_of_reads h pass second
  have risen := reading.generation_of_read h pass first undeleted found
  omega

/-- A pass reads the version that it aggregates after the one that asked for no teardown, or it is
the same. In between the record is not deleted, and no pass clears it of a newer teardown. -/
theorem reads_of_screened (run : Run faulty (Job.crew jobs) start (mv :: earlier) m)
    (h : start.Sound) (alone : OnePassAtATime jobs key (mv :: earlier))
    (pass : (jobs mv.member).passes key = true)
    (screened : Pass.Screened (own mv.member earlier) c g) :
    ∃ after between before, earlier = after ++ (between ++ before) ∧ Reads mv.member c before ∧
      Reads mv.member g (between ++ before) ∧ Undeleted key between ∧
      ∀ later x sooner, between = later ++ x :: sooner → (jobs x.member).passes key = true →
        ∀ c', heldAt .aggregation (own x.member (sooner ++ before)) = some c' →
          c'.generation ≤ c.generation := by
  obtain ⟨_, since, k, busy, tested, base, split, upkeep, readC, readG, _⟩ := screened
  obtain ⟨later, quiet, rest, rfl, member, _, _, own_rest⟩ := exists_of_own split
  obtain ⟨prep, prepared⟩ := upkeep.append
  obtain ⟨mid, bottom, rfl, _, own_bottom⟩ := exists_of_own_append (own_rest.trans prepared)
  have tested_read : lastRead (own mv.member bottom) = some c := own_bottom ▸ readC
  have aggregated_read : lastRead (own mv.member (mid ++ bottom)) = some g := own_rest ▸ readG
  obtain ⟨after, between, before, moves, first, second⟩ :=
    exists_reads_since tested_read aggregated_read
  have parts : later ++ quiet :: (mid ++ bottom) =
      (later ++ quiet :: after) ++ (between ++ before) := by
    rw [moves]
    simp
  have parts' : later ++ quiet :: (mid ++ bottom) = (later ++ [quiet]) ++ (mid ++ bottom) := by simp
  refine ⟨later ++ quiet :: after, between, before, parts, first, second,
    Run.undeleted_between (parts ▸ run) h (parts ▸ alone) pass first,
    fun later' x sooner split other c' held => ?_⟩
  have whole : later ++ quiet :: (mid ++ bottom) =
      (later ++ quiet :: after ++ between) ++ before := by simp [parts]
  have mine : x.member = mv.member :=
    OnePassAtATime.same_of_reads (whole ▸ alone) pass first (by simp [split]) other
  have earlier_part : mid ++ bottom = (after ++ later' ++ [x]) ++ (sooner ++ before) := by
    simp [moves, split]
  exact (parts' ▸ run).older_of_held h (parts' ▸ alone) pass (own_rest ▸ upkeep) readC earlier_part
    (by decide) (mine ▸ held)

end Run

/-- What a pass pushes is what a version asks for that it has read when it was done with its
teardown. That version asks for a teardown itself iff somebody has asked for one since the pass read
the version that did not. If that one had the guard and had not failed, it is the same. -/
theorem Run.push_current (run : Run faulty (Job.crew jobs) start (mv :: earlier) m)
    (h : start.Sound) (key : String) (alone : OnePassAtATime jobs key (mv :: earlier))
    (pass : (jobs mv.member).passes key = true) {type : String} {scope : Table String}
    {credentials : Credentials} {a : Aggregation}
    (pushes : mv.exchange.request = .push type scope credentials a) :
    ∃ c g after between before, earlier = after ++ (between ++ before) ∧
      Reads mv.member c before ∧ Reads mv.member g (between ++ before) ∧
      c.needsTeardown = false ∧ Pass.Aggregated (own mv.member earlier) g (.ok a) ∧
      (g.needsTeardown = true ↔
        ∃ x ∈ between, (jobs x.member).dismisses key = true ∧ x.raises key = true) ∧
      (c.pendingTeardown = true → c.status.phase ≠ .failed → g = c) := by
  have asked := run.attempted h pass
  rw [pushes] at asked
  obtain ⟨c, g, screened, aggregated⟩ := asked
  obtain ⟨after, between, before, rfl, first, second, undeleted, calm⟩ :=
    run.reads_of_screened h alone pass screened
  obtain ⟨_, reading⟩ := run.last.1.upto
  obtain ⟨_, reading'⟩ := reading.upto
  obtain ⟨w, stored, unprompted, marked⟩ :=
    reading.marked_since h (reading'.found_of_reads h pass first) undeleted screened.1 calm
  obtain rfl : w = g := Option.some.inj
    (stored.symm.trans (reading.memory_eq ▸ reading.found_of_reads h pass second))
  exact ⟨c, w, after, between, before, rfl, first, second, screened.1, aggregated,
    (Record.needsTeardown_iff unprompted).trans marked, screened.same⟩

/-- While a pass looks at a new record, its only contributor leaves. -/
def newcomers : Nat → Job := Job.roster [.founds "a", .leaves "a", .looks]

theorem newcomers_alone (history : List Move) : OnePassAtATime newcomers "r" history := by
  refine onePassAtATime_of_single fun i pass => (?_ : i = 2)
  match i with
  | 2 => rfl
  | 0 | 1 | _ + 3 => cases pass

/-- The withdrawal comes between the reading of the record and the write of its guard. -/
def walkout : Scene (Job.crew newcomers) :=
  (Scene.opening (Job.crew newcomers) {}).play {}
    [0, 0, 0, 2, 1, 1, 1, 2, 2, 2, 2, 2, 2, 2, 2, 2, 2, 2, 2]

theorem walkout_dismissed :
    ∃ x ∈ walkout.history, (newcomers x.member).dismisses "r" = true ∧ x.raises "r" = true := by
  have run : Run (fun _ => False) (Job.crew newcomers) {} walkout.history walkout.memory :=
    (Scene.real_play _).run
  obtain ⟨c, g, after, between, before, split, _, _, _, aggregated, dismissed, _⟩ :=
    Run.push_current run Memory.sound_empty "r" (newcomers_alone _) rfl rfl
  have asks : ∃ g ∈ heldAt .aggregation (own 2 walkout.history.tail), g.needsTeardown = true := by
    decide +kernel
  obtain ⟨g', held, asks⟩ := asks
  obtain rfl : g' = g := Option.some.inj (held.symm.trans aggregated.1)
  obtain ⟨x, hx, dismissed⟩ := dismissed.1 asks
  have earlier : walkout.history.tail = after ++ (between ++ before) := split
  refine ⟨x, List.mem_of_mem_tail ?_, dismissed⟩
  rw [earlier]
  exact List.mem_append_right _ (List.mem_append_left _ hx)

/-- What is pushed was aggregated for a record that nobody contributes to, and that does not exist
downstream. -/
theorem walkout_pushed :
    ∃ mv earlier type scope credentials a g, walkout.history = mv :: earlier ∧
      mv.exchange.request = .push type scope credentials a ∧
      Pass.Aggregated (own mv.member earlier) g (.ok a) ∧ g.sources = [] ∧
      g.teardownRequested = true ∧ g.isPending = true :=
  ⟨_, _, _, _, _, _, _, rfl, rfl, ⟨rfl, _, rfl⟩, rfl, rfl, by decide⟩

end Tributary
