import Tributary.Proofs.Attempts
import Tributary.Proofs.Identities

/-!
# Identities that are replaced

A record keeps its identity but for what passes enter, and the last one that enters an identity
decides. A pass that enters one over a real one has read the placeholder before the record had the
real one: it does not look again before it writes (`Run.identity_replaced`). So two passes at the
same time may create a record twice downstream, and the second one takes the place of the first
(`duplication_replaced`).
-/

namespace Tributary

/-- No pass has entered an identity since. -/
def Retained (jobs : Nat → Job) (key : String) (since before : List Move) : Prop :=
  ∀ later mv sooner, since = later ++ mv :: sooner → ¬ Adopts jobs key mv (sooner ++ before)

/-- The last pass that has entered an identity since has entered this one, as its push had reported
it. -/
def AdoptedLast (jobs : Nat → Job) (key : String) (since before : List Move) (id : String) : Prop :=
  ∃ later mv sooner, since = later ++ mv :: sooner ∧ Adopts jobs key mv (sooner ++ before) ∧
    Pass.Reported (own mv.member (sooner ++ before)) id ∧
    Retained jobs key later (mv :: (sooner ++ before))

variable {faulty : StoreError → Prop} {jobs : Nat → Job} {start m : Memory}
  {history earlier since before : List Move} {mv : Move} {key : String} {v w : Record}

theorem Retained.cons (h : Retained jobs key since before)
    (none : ¬ Adopts jobs key mv (since ++ before)) : Retained jobs key (mv :: since) before := by
  intro later x sooner split
  cases later with
  | nil =>
    obtain ⟨rfl, rfl⟩ := List.cons.inj split
    exact none
  | cons _ later => exact h later x sooner (List.cons.inj split).2

theorem AdoptedLast.cons {id : String} (h : AdoptedLast jobs key since before id)
    (none : ¬ Adopts jobs key mv (since ++ before)) :
    AdoptedLast jobs key (mv :: since) before id := by
  obtain ⟨later, x, sooner, rfl, adopts, reported, retained⟩ := h
  refine ⟨mv :: later, x, sooner, rfl, adopts, reported, retained.cons ?_⟩
  rwa [List.append_assoc, List.cons_append] at none

/-- The identity that is entered is the one that is stored. -/
theorem Commit.identity {p : Protocol} {past : List Exchange} {r : Record} {token : Nat}
    (h : Commit p past key ⟨.store (.update r), .ok token⟩ (some v) (some w)) (hkey : r.key = key) :
    w.externalId = r.externalId := by
  cases h with
  | kept none => simp [Exchange.commits, hkey] at none
  | edited => rfl

namespace Run

/-- In the life of a record its identity is the one that it had or the one that was entered last,
which is a real one. -/
theorem identity_since (run : Run faulty (Job.crew jobs) start (since ++ before) m)
    (h : start.Sound) (found : (memoryAfter start before).records.get? key = some v)
    (undeleted : Undeleted key since) :
    ∃ w, m.records.get? key = some w ∧
      ((Retained jobs key since before ∧ w.externalId = v.externalId) ∨
        (AdoptedLast jobs key since before w.externalId ∧ w.isPending = false)) := by
  induction since generalizing m with
  | nil =>
    refine ⟨v, run.memory_eq ▸ found, .inl ⟨fun later mv sooner split => ?_, rfl⟩⟩
    cases later <;> cases split
  | cons mv since ih =>
    obtain ⟨u, stored, known⟩ := ih run.last.1 fun x hx => undeleted x (.tail _ hx)
    obtain ⟨w, made, _⟩ := run.lineage h found undeleted
    have after : mv.after.records.get? key = some w := by
      rw [run.memory_eq] at made
      exact made
    refine ⟨w, made, ?_⟩
    obtain ⟨adopts, real⟩ | ⟨none, same⟩ := run.identity_step h stored after
    · refine .inr ⟨⟨[], mv, since, rfl, adopts, ?_, ?_⟩, real⟩
      · obtain ⟨_, r, token, edit, hkey, reported⟩ := adopts
        have committed := run.committed h key
        rw [stored, after, edit] at committed
        rw [committed.identity hkey]
        exact reported
      · intro later x sooner split
        cases later <;> cases split
    · obtain ⟨retained, kept⟩ | ⟨adopted, real⟩ := known
      · exact .inl ⟨retained.cons none, same.trans kept⟩
      · rw [Record.isPending, same]
        exact .inr ⟨adopted.cons none, real⟩

/-- A pass enters an identity only if the version that it held at its push had a placeholder. -/
theorem pending_of_adopts (run : Run faulty (Job.crew jobs) start (mv :: earlier) m)
    (h : start.Sound) (adopts : Adopts jobs key mv earlier) :
    ∃ c, heldAt .push (own mv.member earlier) = some c ∧ c.isPending = true := by
  obtain ⟨pass, r, token, edit, _, reported⟩ := adopts
  have asked := run.attempted h pass
  rw [edit] at asked
  obtain ⟨_, _, _, _, _, held⟩ := asked
  exact held (run.last.1.late_of_reported h pass reported)

/-- What a pass has read was read before, unless it was stored at some time since. -/
theorem read_before (run : Run faulty (Job.crew jobs) start (since ++ before) m) (h : start.Sound)
    {i : Nat} (pass : (jobs i).passes key = true) {c : Record} {after sooner : List Move}
    (split : since ++ before = after ++ sooner) (reads : Reads i c sooner)
    (never : ∀ later between m', since = later ++ between →
      Run faulty (Job.crew jobs) start (between ++ before) m' → m'.records.get? key ≠ some c) :
    ∃ after', before = after' ++ sooner := by
  obtain ⟨after', _, before_eq⟩ | ⟨between, rfl, rfl⟩ := List.append_eq_append_iff.1 split
  · exact ⟨after', before_eq⟩
  · rw [split] at run
    obtain ⟨m', reading⟩ := run.upto
    have found := reading.memory_eq ▸ reading.found_of_reads h pass reads
    exact absurd found (never after between m' rfl reading)

end Run

/-- A real identity stays a real one as long as the record is not deleted. It is the same until a
pass enters another one that its push has reported; a pass that does so has read the placeholder
before the record had a real identity. -/
theorem Run.identity_replaced (run : Run faulty (Job.crew jobs) start (since ++ before) m)
    (h : start.Sound) (key : String)
    (found : (memoryAfter start before).records.get? key = some v) (real : v.isPending = false)
    (undeleted : Undeleted key since) :
    ∃ w, m.records.get? key = some w ∧ w.isPending = false ∧
      ((Retained jobs key since before ∧ w.externalId = v.externalId) ∨
        AdoptedLast jobs key since before w.externalId) ∧
      ∀ later mv sooner, since = later ++ mv :: sooner → Adopts jobs key mv (sooner ++ before) →
        ∃ c after earlier, before = after ++ earlier ∧ Reads mv.member c earlier ∧
          c.isPending = true ∧ heldAt .push (own mv.member (sooner ++ before)) = some c := by
  obtain ⟨w, stored, known⟩ := run.identity_since h found undeleted
  refine ⟨w, stored, ?_, known.imp_right And.left, ?_⟩
  · obtain ⟨_, same⟩ | ⟨_, real'⟩ := known
    · rw [Record.isPending, same]
      exact real
    · exact real'
  · rintro later mv sooner rfl adopts
    rw [List.append_assoc] at run
    have upto := run.upto_move
    obtain ⟨c, held, pending⟩ := upto.pending_of_adopts h adopts
    obtain ⟨after, earlier, split, reads⟩ := exists_reads_of_heldAt held
    have never (later' : List Move) (between : List Move) (m' : Memory)
        (split : sooner = later' ++ between)
        (reading : Run faulty (Job.crew jobs) start (between ++ before) m') :
        m'.records.get? key ≠ some c := by
      intro read
      obtain ⟨u, stored', known⟩ := reading.identity_since h found fun x hx =>
        undeleted x (by simp [split, hx])
      obtain rfl : c = u := Option.some.inj (read.symm.trans stored')
      obtain ⟨_, same⟩ | ⟨_, real'⟩ := known
      · rw [Record.isPending, same] at pending
        cases real.symm.trans pending
      · cases real'.symm.trans pending
    obtain ⟨after', before_eq⟩ := upto.last.1.read_before h adopts.1 split reads never
    exact ⟨c, after', earlier, before_eq, reads, pending, held⟩

/-- Two passes look at a new record. -/
def duplicates : Nat → Job := Job.roster [.founds "a", .looks, .looks]

/-- Both passes push the record while it has its placeholder, and both try their write again. -/
def duplication : Scene (Job.crew duplicates) :=
  ((Scene.opening (Job.crew duplicates) {}).play { push := .ok { externalId := some "zone-1" } }
      [0, 0, 0, 1, 1, 1, 1, 1, 1, 1, 1, 1, 1]).play
    { push := .ok { externalId := some "zone-2" } }
      [2, 2, 2, 2, 2, 2, 2, 2, 1, 1, 1, 1, 1, 2, 2, 2, 2]

theorem duplication_adopted :
    AdoptedLast duplicates "r" (duplication.history.take 4) (duplication.history.drop 4)
      "zone-2" := by
  have run : Run (fun _ => False) (Job.crew duplicates) {}
      (duplication.history.take 4 ++ duplication.history.drop 4) duplication.memory := by
    rw [List.take_append_drop]
    exact ((Scene.real_opening.play _).play _).run
  have first : ∃ v ∈ (memoryAfter {} (duplication.history.drop 4)).records.get? "r",
      v.isPending = false ∧ v.externalId = "zone-1" := by decide +kernel
  have second : ∃ w ∈ duplication.memory.records.get? "r", w.externalId = "zone-2" := by
    decide +kernel
  have undeleted : Undeleted "r" (duplication.history.take 4) := by
    unfold Undeleted
    decide +kernel
  obtain ⟨v, found, real, known⟩ := first
  obtain ⟨w', stored', new⟩ := second
  obtain ⟨w, stored, _, ⟨_, same⟩ | adopted, _⟩ :=
    run.identity_replaced Memory.sound_empty "r" found real undeleted
  · obtain rfl : w' = w := Option.some.inj (stored'.symm.trans stored)
    exact absurd (known.symm.trans (same.symm.trans new)) (by decide)
  · obtain rfl : w' = w := Option.some.inj (stored'.symm.trans stored)
    exact new ▸ adopted

/-- What was created first downstream is not known any more. -/
theorem duplication_replaced :
    ∃ since before v w, duplication.history = since ++ before ∧
      (memoryAfter {} before).records.get? "r" = some v ∧
      duplication.memory.records.get? "r" = some w ∧ Undeleted "r" since ∧
      v.isPending = false ∧ v.externalId = "zone-1" ∧ w.externalId = "zone-2" := by
  refine ⟨duplication.history.take 4, duplication.history.drop 4, _, _,
    (List.take_append_drop ..).symm, rfl, rfl, ?_, by decide +kernel, rfl, rfl⟩
  unfold Undeleted
  decide +kernel

end Tributary
