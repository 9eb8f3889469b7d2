import Tributary.Proofs.Renamings

/-!
# Placeholders of what is synchronised

A record that was created without an identity and is synchronised has the identity that a push has
reported, unless there is none to be had (`Run.synced_identity`): the last push may have reported
none, the placeholder may not be taken for one, as it is that of an owner without a name, or a pass
may go by what it has read of an earlier record. So a record that exists downstream may keep its
placeholder although it is synchronised (`anonymity_synced`).
-/

namespace Tributary

open Exchange (Kind)

/-- A pass enters that a record is synchronised. -/
def Synchronises (jobs : Nat → Job) (key : String) (mv : Move) : Prop :=
  (jobs mv.member).passes key = true ∧ ∃ r token,
    mv.exchange = ⟨.store (.updateStatus r), .ok token⟩ ∧ r.key = key ∧ r.status.phase = .synced

/-- The version that a member held when it pushed, or when it asked for the time, it had read before
some moves. -/
def Outdated (i : Nat) (history before : List Move) : Prop :=
  ∃ c after earlier, before = after ++ earlier ∧ Reads i c earlier ∧
    (heldAt .push (own i history) = some c ∨ heldAt .clock (own i history) = some c)

variable {faulty : StoreError → Prop} {jobs : Nat → Job} {start m : Memory}
  {earlier since before : List Move} {mv birth : Move} {key : String} {r v w : Record}

theorem Retained.suffix {later between : List Move}
    (h : Retained jobs key (later ++ between) before) : Retained jobs key between before := by
  intro later' x sooner split
  exact h (later ++ later') x sooner (by rw [split, List.append_assoc])

theorem Retained.not_adoptedLast {id : String} (h : Retained jobs key since before) :
    ¬ AdoptedLast jobs key since before id := by
  rintro ⟨later, x, sooner, split, adopts, _⟩
  exact h later x sooner split adopts

/-- The status of a record is changed by passes only. -/
theorem Job.status_of_commit {j : Job} {past : List Exchange} {x : Exchange}
    (h : Commit j.protocol past key x (some v) (some w)) :
    w.status = v.status ∨ (j.passes key = true ∧ lastRead past = some v ∧ ∃ r token,
      x = ⟨.store (.updateStatus r), .ok token⟩ ∧ r.key = key ∧ w.status = r.status) := by
  cases h with
  | kept | edited => exact .inl rfl
  | @marked _ r token mine hkey read marks =>
    cases j with
    | register | unregister | requestDeletion => exact marks.elim
    | reconcile e k => exact .inr ⟨decide_eq_true mine, read, r, token, rfl, hkey, rfl⟩

namespace Run

/-- A record that has become synchronised was entered as such by a pass that had a reason to take it
for one with an identity. -/
theorem exists_synchronises (run : Run faulty (Job.crew jobs) start (since ++ before) m)
    (h : start.Sound) (found : (memoryAfter start before).records.get? key = some v)
    (undeleted : Undeleted key since) (unsynced : v.status.phase ≠ .synced)
    (stored : m.records.get? key = some w) (synced : w.status.phase = .synced) :
    ∃ later mark sooner, since = later ++ mark :: sooner ∧ Synchronises jobs key mark ∧
      Pass.Credible (own mark.member (sooner ++ before)) := by
  induction since generalizing m w with
  | nil =>
    rw [run.memory_eq, List.nil_append, found] at stored
    obtain rfl := Option.some.inj stored
    exact absurd synced unsynced
  | cons mv since ih =>
    have kept : Undeleted key since := fun x hx => undeleted x (.tail _ hx)
    obtain ⟨u, old, _⟩ := run.last.1.lineage h found kept
    have already (synced : u.status.phase = .synced) :
        ∃ later mark sooner, mv :: since = later ++ mark :: sooner ∧
          Synchronises jobs key mark ∧ Pass.Credible (own mark.member (sooner ++ before)) := by
      obtain ⟨later, mark, sooner, rfl, rest⟩ := ih run.last.1 kept old synced
      exact ⟨mv :: later, mark, sooner, rfl, rest⟩
    have made : mv.after.records.get? key = some w := by
      rw [run.memory_eq] at stored
      exact stored
    have committed := run.committed h key
    rw [old, made] at committed
    obtain same | ⟨pass, read, r, token, mark, hkey, status⟩ := Job.status_of_commit committed
    · exact already (same ▸ synced)
    · have entered : r.status.phase = .synced := status ▸ synced
      have asked := run.attempted h pass
      rw [mark] at asked
      obtain ⟨c, read', _, _, _, marks⟩ := asked
      obtain rfl : u = c := Option.some.inj (read.symm.trans read')
      obtain same | credible := marks entered
      · exact already (same ▸ entered)
      · exact ⟨[], mv, since, rfl, ⟨pass, r, token, mark, hkey, entered⟩, credible⟩

/-- What a pass holds since the creation of a record has its identity, or is of an earlier one. -/
theorem outdated_of_real (run : Run faulty (Job.crew jobs) start (since ++ birth :: before) m)
    (h : start.Sound) (born : birth.after.records.get? key = some r) (pending : r.isPending = true)
    (undeleted : Undeleted key since) (retained : Retained jobs key since (birth :: before))
    {i : Nat} (pass : (jobs i).passes key = true) {c : Record} (real : c.isPending = false)
    {after sooner : List Move} (split : since ++ birth :: before = after ++ sooner)
    (reads : Reads i c sooner) : ∃ after', before = after' ++ sooner := by
  have never (later between : List Move) (m' : Memory) (parts : since = later ++ between)
      (reading : Run faulty (Job.crew jobs) start (between ++ birth :: before) m') :
      m'.records.get? key ≠ some c := by
    intro read
    subst parts
    obtain ⟨u, stored, known⟩ := reading.identity_since h born fun x hx =>
      undeleted x (List.mem_append_right _ hx)
    obtain rfl : c = u := Option.some.inj (read.symm.trans stored)
    obtain ⟨_, same⟩ | ⟨adopted, _⟩ := known
    · rw [Record.isPending, same] at real
      cases pending.symm.trans real
    · exact retained.suffix.not_adoptedLast adopted
  obtain ⟨after', before_eq⟩ := run.read_before h pass split reads never
  cases after' with
  | nil =>
    obtain rfl : birth :: before = sooner := before_eq
    have found := run.upto_move.found_of_reads h pass reads
    obtain rfl : r = c := Option.some.inj (born.symm.trans found)
    cases pending.symm.trans real
  | cons _ after' => exact ⟨after', (List.cons.inj before_eq).2⟩

/-- A pass that changes something but the status after its teardown enters an identity. -/
theorem adopts_of_late (run : Run faulty (Job.crew jobs) start (mv :: earlier) m)
    (h : start.Sound) (pass : (jobs mv.member).passes key = true)
    (late : ¬ Pass.Early (own mv.member earlier)) {r : Record} {token : Nat}
    (edit : mv.exchange = ⟨.store (.update r), .ok token⟩) : Adopts jobs key mv earlier := by
  have mine : (jobs mv.member).protocol.key = key := by
    rw [Job.protocol_of_passes pass]
    rfl
  obtain ⟨hkey, u, w, _, stored, made, _⟩ := run.edited h mine edit
  have passed := run.passed h pass
  rw [stored, made, edit] at passed
  exact ⟨pass, r, token, edit, hkey, (Pass.adopted_of_late late hkey passed).1⟩

/-- What a pass has entered since its push it has entered into an earlier record, if no identity was
entered into this one. -/
theorem outdated_of_entered
    (run : Run faulty (Job.crew jobs) start (since ++ birth :: before) m) (h : start.Sound)
    (retained : Retained jobs key since (birth :: before)) {i : Nat}
    (pass : (jobs i).passes key = true) (other : birth.member ≠ i) {c : Record}
    (held : heldAt .push (own i (since ++ birth :: before)) = some c)
    (entered : Pass.EditedSince (own i (since ++ birth :: before))) :
    ∃ after earlier, before = after ++ earlier ∧ Reads i c earlier := by
  obtain ⟨past, r', token, past', split, same, late⟩ := entered
  obtain ⟨later, mv, earlier, parts, rfl, edit, _, rfl⟩ := exists_of_own split
  rw [held] at same
  obtain ⟨after, sooner, rfl, reads⟩ := exists_reads_of_heldAt same
  obtain ⟨between, _, rest⟩ | ⟨between, split', rest⟩ := List.append_eq_append_iff.1 parts
  · cases between with
    | nil =>
      obtain ⟨rfl, _⟩ := List.cons.inj rest
      exact absurd rfl other
    | cons _ between =>
      refine ⟨between ++ mv :: after, sooner, ?_, reads⟩
      rw [(List.cons.inj rest).2]
      simp
  · cases between with
    | nil =>
      obtain ⟨rfl, _⟩ := List.cons.inj rest
      exact absurd rfl other
    | cons _ between =>
      obtain ⟨rfl, past_eq⟩ := List.cons.inj rest
      rw [past_eq] at late
      subst split'
      rw [List.append_assoc] at run
      exact absurd (run.upto_move.adopts_of_late h pass late edit) (retained later mv between rfl)

/-- If no identity was entered into a record, a pass takes it for one that has its own because its
push has reported none, or because of what it has read of an earlier record. -/
theorem outdated_of_credible (run : Run faulty (Job.crew jobs) start (since ++ birth :: before) m)
    (h : start.Sound) (born : birth.after.records.get? key = some r) (pending : r.isPending = true)
    (undeleted : Undeleted key since) (retained : Retained jobs key since (birth :: before))
    {i : Nat} (pass : (jobs i).passes key = true) (other : birth.member ≠ i)
    (credible : Pass.Credible (own i (since ++ birth :: before))) :
    Pass.Unnamed (own i (since ++ birth :: before)) ∨
      Outdated i (since ++ birth :: before) before := by
  have outdated_of_held {k : Kind} {c : Record}
      (held : heldAt k (own i (since ++ birth :: before)) = some c) (real : c.isPending = false) :
      ∃ after earlier, before = after ++ earlier ∧ Reads i c earlier := by
    obtain ⟨_, read, split, reads⟩ := exists_reads_of_heldAt held
    obtain ⟨after, before_eq⟩ :=
      run.outdated_of_real h born pending undeleted retained pass real split reads
    exact ⟨after, read, before_eq, reads⟩
  cases credible with
  | remaining _ held real =>
    obtain ⟨after, earlier, before_eq, reads⟩ := outdated_of_held held real
    exact .inr ⟨_, after, earlier, before_eq, reads, .inr held⟩
  | pushed _ held cause =>
    obtain real | entered | unnamed := cause
    · obtain ⟨after, earlier, before_eq, reads⟩ := outdated_of_held held real
      exact .inr ⟨_, after, earlier, before_eq, reads, .inl held⟩
    · obtain ⟨after, earlier, before_eq, reads⟩ :=
        run.outdated_of_entered h retained pass other held entered
      exact .inr ⟨_, after, earlier, before_eq, reads, .inl held⟩
    · exact .inl unnamed

end Run

/-- With one pass at a time a pass goes by nothing that it has read of an earlier record. -/
theorem Run.not_outdated (run : Run faulty (Job.crew jobs) start
      (mv :: (since ++ birth :: before)) m) (h : start.Sound)
    (absent : birth.before.records.get? key = none)
    (alone : OnePassAtATime jobs key (mv :: (since ++ birth :: before)))
    (pass : (jobs mv.member).passes key = true) {history : List Move} :
    ¬ Outdated mv.member history before := by
  rintro ⟨c, after, earlier, rfl, reads, _⟩
  have split : since ++ birth :: (after ++ earlier) = (since ++ birth :: after) ++ earlier := by
    simp
  have undeleted := Run.undeleted (split ▸ run) h (split ▸ alone) pass reads
  obtain ⟨birthRun, _⟩ := run.last.1.upto_move.last
  obtain ⟨_, reading⟩ := birthRun.upto
  obtain ⟨w, stored, _⟩ := birthRun.lineage h (reading.found_of_reads h pass reads)
    fun x hx => undeleted x (by simp [hx])
  cases absent.symm.trans stored

/-- A record that was created without an identity has a real one when it is synchronised: the one
that was entered last, as a push had reported it. Else it has its placeholder still, and that is of
an owner without a name, or a pass has entered it as synchronised whose latest push was accepted
without reporting an identity, or, if there is more than one pass at a time, a pass that goes by
what it has read of an earlier record. -/
theorem Run.synced_identity (run : Run faulty (Job.crew jobs) start (since ++ birth :: before) m)
    (h : start.Sound) (key : String) {policy : RetryPolicy} {template : Template}
    {source : Contribution} (job : jobs birth.member = .register policy key template source)
    (unknown : template.externalId = none) (absent : birth.before.records.get? key = none)
    (born : birth.after.records.get? key = some r) (undeleted : Undeleted key since)
    (stored : m.records.get? key = some w) (synced : w.status.phase = .synced) :
    (AdoptedLast jobs key since (birth :: before) w.externalId ∧ w.isPending = false) ∨
    (Retained jobs key since (birth :: before) ∧
      w.externalId = Pending.placeholder source.owner.name ∧
      (source.owner.name = "" ∨ ∃ later mark sooner, since = later ++ mark :: sooner ∧
        Synchronises jobs key mark ∧
        (Pass.Unnamed (own mark.member (sooner ++ birth :: before)) ∨
          Outdated mark.member (sooner ++ birth :: before) before ∧
            ¬ OnePassAtATime jobs key (mark :: (sooner ++ birth :: before))))) := by
  have created : r.externalId = Pending.placeholder source.owner.name ∧
      r.status.phase ≠ .synced := by
    have committed := run.upto_move.committed h key
    rw [absent, born, job] at committed
    generalize birth.exchange = x at committed
    cases committed with
    | created _ _ _ creates =>
      obtain ⟨now, rfl⟩ := creates
      simp [Template.instantiate, Record.blank, unknown]
  obtain ⟨w', stored', known⟩ := run.identity_since h born undeleted
  obtain rfl : w' = w := Option.some.inj (stored'.symm.trans stored)
  obtain ⟨retained, same⟩ | adopted := known
  · refine .inr ⟨retained, same.trans created.1, ?_⟩
    by_cases unnamed : source.owner.name = ""
    · exact .inl unnamed
    · refine .inr ?_
      have pending : r.isPending = true := by
        rw [Record.isPending, created.1, Pending.isPlaceholder_placeholder]
        simpa using unnamed
      obtain ⟨later, mark, sooner, rfl, synchronises, credible⟩ :=
        run.exists_synchronises h born undeleted created.2 stored synced
      refine ⟨later, mark, sooner, rfl, synchronises, ?_⟩
      rw [List.append_assoc] at run
      have upto := run.upto_move
      have pass := synchronises.1
      have kept : Undeleted key sooner := fun x hx => undeleted x (by simp [hx])
      have retained : Retained jobs key ((later ++ [mark]) ++ sooner) (birth :: before) := by
        simpa using retained
      have other : birth.member ≠ mark.member := by
        intro same
        rw [← same, job] at pass
        cases pass
      exact (upto.last.1.outdated_of_credible h born pending kept retained.suffix pass other
        credible).imp_right fun outdated =>
          ⟨outdated, fun alone => upto.not_outdated h absent alone pass outdated⟩
  · exact .inl adopted

/-- An owner registers something new, and a pass looks at it. -/
def strangers (name : String) : Nat → Job := Job.roster [.founds name, .looks]

theorem strangers_alone (name : String) (history : List Move) :
    OnePassAtATime (strangers name) "r" history := by
  refine onePassAtATime_of_single fun i pass => (?_ : i = 1)
  match i with
  | 1 => rfl
  | 0 | _ + 2 => cases pass

/-- The push is accepted, whatever it reports. -/
def anonymity (name : String) (id : Option String) : Scene (Job.crew (strangers name)) :=
  (Scene.opening (Job.crew (strangers name)) {}).play { push := .ok { externalId := id } }
    [0, 0, 0, 1, 1, 1, 1, 1, 1, 1, 1, 1, 1, 1, 1]

theorem anonymity_unnamed :
    ∃ later mark sooner, (anonymity "a" none).history = later ++ mark :: sooner ∧
      Synchronises (strangers "a") "r" mark ∧ Pass.Unnamed (own mark.member sooner) := by
  have run : Run (fun _ => False) (Job.crew (strangers "a")) {} (anonymity "a" none).history
      (anonymity "a" none).memory := (Scene.real_play _).run
  have first : ∃ mv ∈ ((anonymity "a" none).history.drop 12).head?, mv.member = 0 ∧
      (mv.before.records.get? "r").isNone = true ∧
        (mv.after.records.get? "r").isSome = true := by decide +kernel
  have undeleted : Undeleted "r" ((anonymity "a" none).history.take 12) := by
    unfold Undeleted
    decide +kernel
  have last : ∃ w ∈ (anonymity "a" none).memory.records.get? "r",
      w.status.phase = .synced ∧ w.isPending = true := by decide +kernel
  obtain ⟨birth, head, member, absent, born⟩ := first
  obtain ⟨before, hbirth⟩ := List.head?_eq_some_iff.1 head
  obtain ⟨r, born⟩ := Option.isSome_iff_exists.1 born
  obtain ⟨w, stored, synced, pending⟩ := last
  have whole : (anonymity "a" none).history =
      (anonymity "a" none).history.take 12 ++ birth :: before := by
    rw [← hbirth, List.take_append_drop]
  rw [whole] at run
  obtain ⟨_, real⟩ | ⟨_, _, nameless | ⟨later, mark, sooner, split, synchronises, cause⟩⟩ :=
    run.synced_identity Memory.sound_empty "r" (by rw [member]; rfl) rfl
      (Option.isNone_iff_eq_none.1 absent) born undeleted stored synced
  · cases real.symm.trans pending
  · exact absurd nameless (by decide)
  · obtain unnamed | ⟨_, many⟩ := cause
    · refine ⟨later, mark, sooner ++ birth :: before, ?_, synchronises, unnamed⟩
      rw [whole, split, List.append_assoc]
      rfl
    · exact absurd (strangers_alone "a" _) many

/-- What a push has created without a word about its identity is synchronised under its placeholder.
If the owner has no name, so is what a push has created and named. -/
theorem anonymity_synced :
    (∃ w, (anonymity "a" none).memory.records.get? "r" = some w ∧
      w.status.phase = .synced ∧ w.externalId = "pending-a") ∧
    ∃ w, (anonymity "" (some "zone-1")).memory.records.get? "r" = some w ∧
      w.status.phase = .synced ∧ w.externalId = "pending-" ∧
      Pass.Reported (own 1 (anonymity "" (some "zone-1")).history) "zone-1" :=
  ⟨⟨_, rfl, rfl, rfl⟩, _, rfl, rfl, rfl, rfl⟩

end Tributary
