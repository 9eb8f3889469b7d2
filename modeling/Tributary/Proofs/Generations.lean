import Tributary.Proofs.Jobs

/-!
# Generations

A generation identifies the contributions of a record. Each commit leaves both as they are or
counts the generation up, and no pass does so. `Run.lineage` follows a version to a later one
of the same record: the generation has risen once for each `Move.raises` in between, and if it
has not risen, the contributions are the same.
-/

namespace Tributary

namespace Record

/-- Two versions that ask for the same at the same generation. -/
structure Agrees (v w : Record) : Prop where
  generation : w.generation = v.generation
  sources : w.sources = v.sources
  deletionRequested : w.deletionRequested = v.deletionRequested

/-- What may come of a version in one commit. -/
inductive Follows (v w : Record) : Prop
  | same (agrees : v.Agrees w)
  | raised (next : w.generation = v.generation + 1)

variable {u v w : Record}

theorem Agrees.refl (v : Record) : v.Agrees v := ⟨rfl, rfl, rfl⟩

theorem Agrees.trans (h : u.Agrees v) (h' : v.Agrees w) : u.Agrees w :=
  ⟨h'.generation.trans h.generation, h'.sources.trans h.sources,
    h'.deletionRequested.trans h.deletionRequested⟩

theorem Agrees.abandoned (h : v.Agrees w) : w.abandoned = v.abandoned := by
  simp [Record.abandoned, h.sources, h.deletionRequested]

theorem Follows.le (h : v.Follows w) : v.generation ≤ w.generation := by
  cases h with
  | same agrees => exact Nat.le_of_eq agrees.generation.symm
  | raised next => omega

theorem contribute_follows (source : Contribution) (r : Record) :
    r.Follows (Registry.contribute source r) := by
  unfold Registry.contribute
  split
  · exact .raised rfl
  · exact .same (.refl r)

theorem withdraw_follows (owner : Owner) (r : Record) :
    r.Follows (Registry.withdraw owner r).1 := by
  unfold Registry.withdraw
  split
  · exact .raised rfl
  · exact .same (.refl r)

theorem condemn_follows (r : Record) : r.Follows (Registry.condemn r) := .raised rfl

end Record

theorem Pass.Edits.agrees {past : List Exchange} {v r : Record} (h : Pass.Edits past v r) :
    v.Agrees r := by
  cases h with
  | guard | adopt => exact ⟨rfl, rfl, rfl⟩
  | release | clear => split <;> exact ⟨rfl, rfl, rfl⟩

namespace Job

variable {j : Job} {past : List Exchange} {key : String} {x : Exchange} {v w r : Record}

theorem edits_follow (h : j.protocol.edits past v r) : v.Follows r := by
  cases j with
  | register policy key template source => exact h ▸ Record.contribute_follows source v
  | unregister policy key owner => exact h ▸ Record.withdraw_follows owner v
  | requestDeletion policy key => exact h ▸ Record.condemn_follows v
  | reconcile e key => exact .same (Pass.Edits.agrees h)

theorem commit_follows (h : Commit j.protocol past key x (some v) (some w)) : v.Follows w := by
  cases h with
  | kept => exact .same (.refl v)
  | edited token now _ _ _ edits =>
    cases edits_follow edits with
    | same agrees => exact .same ⟨agrees.generation, agrees.sources, agrees.deletionRequested⟩
    | raised next => exact .raised next
  | marked => exact .same ⟨rfl, rfl, rfl⟩

end Job

/-! ## Versions of one record -/

/-- A record was deleted. -/
def Exchange.removes (key : String) : Exchange → Bool
  | ⟨.store (.delete r), .ok _⟩ => r.key = key
  | _ => false

/-- No record of a key was deleted. -/
def Undeleted (key : String) (moves : List Move) : Prop :=
  ∀ mv ∈ moves, mv.exchange.removes key = false

/-- The generation of a record was counted up. -/
def Move.raises (key : String) (mv : Move) : Bool :=
  match mv.before.records.get? key, mv.after.records.get? key with
  | some v, some w => v.generation < w.generation
  | _, _ => false

/-- How often the generation of a record was counted up. -/
def rises (key : String) (moves : List Move) : Nat := moves.countP (·.raises key)

variable {faulty : StoreError → Prop} {jobs : Nat → Job} {start m m' : Memory}
  {history earlier later : List Move} {mv : Move} {key : String} {v : Record}

namespace Run

theorem lineage (run : Run faulty (Job.crew jobs) start (later ++ earlier) m) (h : start.Sound)
    (found : (memoryAfter start earlier).records.get? key = some v)
    (undeleted : Undeleted key later) :
    ∃ w, m.records.get? key = some w ∧ w.generation = v.generation + rises key later ∧
      (rises key later = 0 → v.Agrees w) := by
  induction later generalizing m with
  | nil =>
    rw [run.memory_eq]
    exact ⟨v, found, rfl, fun _ => .refl v⟩
  | cons mv later ih =>
    have committed := run.committed h key
    obtain ⟨before, _⟩ := run.last
    have after := run.memory_eq
    obtain ⟨u, stored, risen, agrees⟩ := ih before fun mv hmv => undeleted mv (.tail _ hmv)
    have last := undeleted mv List.mem_cons_self
    rw [stored] at committed
    cases hw : mv.after.records.get? key with
    | none =>
      rw [hw] at committed
      generalize hx : mv.exchange = x at committed
      cases committed with
      | deleted mine hkey => simp [hx, Exchange.removes, hkey] at last
    | some w =>
      rw [hw] at committed
      have step : rises key (mv :: later) =
          rises key later + if u.generation < w.generation then 1 else 0 := by
        simp [rises, List.countP_cons, Move.raises, stored, hw]
      refine ⟨w, by rw [after]; exact hw, ?_⟩
      rw [step]
      cases Job.commit_follows committed with
      | same same =>
        rw [if_neg (by have := same.generation; omega)]
        exact ⟨same.generation.trans risen, fun none => (agrees none).trans same⟩
      | raised next =>
        rw [if_pos (by omega)]
        exact ⟨by omega, fun none => by omega⟩

/-- In the life of a record its generation identifies what it asks for. -/
theorem agrees_of_generation (run : Run faulty (Job.crew jobs) start (later ++ earlier) m)
    (h : start.Sound) (found : (memoryAfter start earlier).records.get? key = some v)
    (undeleted : Undeleted key later) {w : Record} (stored : m.records.get? key = some w)
    (same : w.generation = v.generation) : v.Agrees w := by
  obtain ⟨w', stored', risen, agrees⟩ := run.lineage h found undeleted
  obtain rfl : w' = w := Option.some.inj (stored'.symm.trans stored)
  exact agrees (by omega)

/-- The stored generation is the one that a pass has read and what has been added since. -/
theorem generation_of_read (run : Run faulty (Job.crew jobs) start (later ++ earlier) m)
    (h : start.Sound) {i : Nat} (pass : (jobs i).passes key = true) (reads : Reads i v earlier)
    (undeleted : Undeleted key later) {w : Record} (stored : m.records.get? key = some w) :
    w.generation = v.generation + rises key later := by
  obtain ⟨_, run'⟩ := run.upto
  obtain ⟨w', stored', risen, _⟩ := run.lineage h (run'.found_of_reads h pass reads) undeleted
  obtain rfl : w' = w := Option.some.inj (stored'.symm.trans stored)
  exact risen

end Run

end Tributary
