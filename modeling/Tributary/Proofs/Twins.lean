import Tributary.Proofs.Incarnations
import Tributary.Proofs.Likeness

/-!
# Two stores that are asked alike

Memory and a directory that nobody has used before answer the same calls alike, publish the same
events and show the same records (`alike_of_pairs`). They give other tokens and other times of
change; but what one has told stands for what the other has told in its place, one for one, and
each is asked with the tokens that it has told itself.
-/

namespace Tributary

/-! ## Records that survive -/

namespace Record

/-- A record that is read back as it is from its document. -/
structure Survives (r : Record) : Prop where
  fits : r.Fits
  lasting : r.Lasting

theorem lasting_iff_restored {r : Record} :
    r.Lasting ↔ r.status.nesting ≤ 126 ∧ r.status.restored = r.status ∧
      r.createdAt.settled = r.createdAt ∧ r.updatedAt.settled = r.updatedAt := by
  constructor
  · rintro ⟨shallow, same⟩
    exact ⟨shallow, congrArg Record.status same, congrArg createdAt same, congrArg updatedAt same⟩
  · rintro ⟨shallow, status, created, updated⟩
    refine ⟨shallow, ?_⟩
    rw [restored, status, created, updated]

namespace Survives

variable {r stored : Record} {token : Nat}

theorem withToken (given : r.Survives) (room : token < 2 ^ 64) : { r with token }.Survives :=
  ⟨given.fits.withToken room, given.lasting.withToken token⟩

theorem updated (given : r.Survives) (there : stored.Survives) (room : token < 2 ^ 64)
    {now : Instant} (dated : now.InRange) (settled : now.settled = now) :
    (r.updated stored token now).Survives := by
  obtain ⟨-, -, created, -⟩ := lasting_iff_restored.1 given.lasting
  obtain ⟨shallow, status, -, -⟩ := lasting_iff_restored.1 there.lasting
  exact ⟨{ given.fits with status := there.fits.status, token := room, updatedAt := dated },
    lasting_iff_restored.2 ⟨shallow, status, created, settled⟩⟩

theorem statusUpdated (given : r.Survives) (there : stored.Survives) (room : token < 2 ^ 64) :
    (r.statusUpdated stored token).Survives := by
  obtain ⟨shallow, status, -, -⟩ := lasting_iff_restored.1 given.lasting
  obtain ⟨-, -, created, updated⟩ := lasting_iff_restored.1 there.lasting
  exact ⟨{ there.fits with status := given.fits.status, token := room },
    lasting_iff_restored.2 ⟨shallow, status, created, updated⟩⟩

end Survives

end Record

theorem Directory.eq_of_create {d d' : Directory} {now : Instant} {r v : Record}
    (created : d.create now r = (.ok v, d')) : v = { r with token := v.token } := by
  unfold create at created
  split at created
  · cases created
  · dsimp only at created
    split at created
    · cases created
    · split at created
      · obtain rfl := Except.ok.inj (Prod.mk.inj created).1
        rfl
      · cases created

namespace Rehearsal

namespace Turn

variable {t : Turn} {records : Table Record}

/-- A call that a directory can take, and whose record comes back from its document. -/
structure Fair (t : Turn) : Prop where
  valid : ∀ key ∈ t.call.key?, Directory.checkKey key = .ok ()
  /-- The files are there to be read and written. -/
  reachable : t.answer ≠ .error .unreachable
  given : ∀ r ∈ t.call.record?, r.Survives
  /-- The clock shows an instant that has a date. -/
  dated : t.now.InRange
  /-- It shows no leap second that does not end a minute. -/
  settled : t.now.settled = t.now
  /-- Tokens have 64 bits. -/
  room : ∀ token ∈ t.told?, token < 2 ^ 64
  /-- The text of what is written carries its data. -/
  carried : ∀ v ∈ t.written?, v.carried = true

theorem smooth_of_memory {m : Memory} {folder : Folder} (here : t.before = .memory m folder) :
    t.Smooth := by
  obtain ⟨b, now, c⟩ := t
  obtain rfl := here
  constructor
  case reachable =>
    intro unreachable
    have refuses : m.Refuses c .unreachable := Memory.refuses_of_perform (Prod.ext unreachable rfl)
    cases refuses
  case readable => exact fun _ directory => nomatch directory

/-- What a directory writes survives, as what it was given and what it has stored do. -/
theorem survives_of_written {d : Directory} (here : t.before = .directory d) (fair : t.Fair)
    (stored : ∀ key v, t.before.shown key = some v → v.Survives) :
    ∀ v ∈ t.written?, v.Survives := by
  obtain ⟨b, now, c⟩ := t
  obtain rfl := here
  obtain ⟨-, -, given, dated, settled, room, -⟩ := fair
  intro v written
  unfold written? at written
  unfold told? at room
  cases answer : (Turn.mk (.directory d) now c).answer with
  | error e =>
    rw [answer] at written
    cases c <;> cases written
  | ok a =>
    rw [answer] at written room
    cases c with
    | get | list | delete => cases written
    | create r =>
      obtain rfl : a = v := Option.some.inj written
      have made : a = { r with token := a.token } :=
        Directory.eq_of_create (Prod.ext answer rfl : d.create now r = (.ok a, (d.create now r).2))
      rw [made]
      exact (given r rfl).withToken (room _ rfl)
    | update r =>
      obtain ⟨w, found, rfl⟩ := Option.map_eq_some_iff.1 written
      exact (given r rfl).updated (stored _ _ found) (room _ rfl) dated settled
    | updateStatus r =>
      obtain ⟨w, found, rfl⟩ := Option.map_eq_some_iff.1 written
      exact (given r rfl).statusUpdated (stored _ _ found) (room _ rfl)

theorem Fair.smooth {d : Directory} (fair : t.Fair) (here : t.before = .directory d)
    (stored : ∀ key v, t.before.shown key = some v → v.Survives) : t.Smooth := by
  refine ⟨fair.reachable, fun _ _ v written => ?_⟩
  have survives := survives_of_written here fair stored v written
  exact (Record.ofDocument?_document_eq_some survives.fits (fair.carried v written)).2
    survives.lasting

theorem mirrors_of_valid (keeps : t.before.Keeps records) (smooth : t.Smooth)
    (valid : ∀ key ∈ t.call.key?, Directory.checkKey key = .ok ()) :
    t.answer = (Memory.perform ⟨records, t.next⟩ t.now t.call).1 ∧
      t.after.Keeps (Memory.perform ⟨records, t.next⟩ t.now t.call).2.records := by
  rcases mirrors keeps smooth with same | ⟨key, e, about, -, invalid, -⟩
  · exact same
  · cases (valid key about).symm.trans invalid

end Turn

/-! ## Both stores -/

/-- A call, and when it is made. -/
abbrev Asked := Instant × Store.Call

/-- What two stores are asked, each call with the store that it meets. -/
def pairs (b b' : Backend) : List (Asked × Asked) → List (Turn × Turn)
  | [] => []
  | ((now, c), (now', c')) :: rest =>
    (⟨b, now, c⟩, ⟨b', now', c'⟩) :: pairs (b.perform now c).2 (b'.perform now' c').2 rest

/-- The tokens that two stores have told, each with the one in its place. -/
def toldBy (past : List (Turn × Turn)) : List (Nat × Nat) :=
  past.flatMap fun p => p.1.call.pairsTold p.1.answer p.2.call p.2.answer

/-- Both stores are asked the same, each with tokens that it has told itself. -/
structure Paired (earlier : List (Turn × Turn)) (p : Turn × Turn) : Prop where
  asked : p.1.call.Alike (toldBy earlier) p.2.call
  fair : p.2.Fair

/-- Both stores come to the same. -/
structure Twins (told : List (Nat × Nat)) (p : Turn × Turn) : Prop where
  /-- They answer the same. -/
  agree : p.1.call.Agree told p.1.answer p.2.call p.2.answer
  /-- They publish the same events. -/
  published : p.1.published = p.2.published
  /-- In any two worlds, those who listen to them hear the same. -/
  heard : ∀ w w' : World, w.backend = p.1.before → w.now = p.1.now →
    w'.backend = p.2.before → w'.now = p.2.now →
    ∃ events, (w.perform p.1.call).2.published = w.published ++ events ∧
      (w'.perform p.2.call).2.published = w'.published ++ events
  /-- They show the same records. -/
  shown : Record.Matching told p.1.after.shown p.2.after.shown

/-- Memory and a directory that have the same records, and have told nothing that they could issue
again. -/
structure Level (told : List (Nat × Nat)) (b b' : Backend) (records records' : Table Record) :
    Prop where
  memory : ∃ m folder, b = .memory m folder
  directory : ∃ d, b' = .directory d
  keeps : b.Keeps records
  keeps' : b'.Keeps records'
  ascending : records.Ascending
  ascending' : records'.Ascending
  alike : Record.Matching told records.get? records'.get?
  one : OneToOne told
  passed : ∀ q ∈ told, b.Passed q.1 ∧ b'.Passed q.2
  survive : ∀ key v, records'.get? key = some v → v.Survives

theorem toldBy_append (past later : List (Turn × Turn)) :
    toldBy (past ++ later) = toldBy past ++ toldBy later :=
  List.flatMap_append

theorem toldBy_singleton (p : Turn × Turn) :
    toldBy [p] = p.1.call.pairsTold p.1.answer p.2.call p.2.answer := by
  simp [toldBy]

theorem Twins.mono {told told' : List (Nat × Nat)} (more : told ⊆ told') {p : Turn × Turn}
    (twins : Twins told p) : Twins told' p :=
  ⟨twins.agree.mono more, twins.published, twins.heard, twins.shown.mono more⟩

namespace Level

variable {told : List (Nat × Nat)} {b b' : Backend} {records records' : Table Record}

theorem start (folder : Folder) {f : Folder} (ordered : f.entries.Ascending)
    (bare : f.isBare Directory.base = true) :
    Level [] (.memory {} folder) (.directory (.openAt f)) {} {} where
  memory := ⟨{}, folder, rfl⟩
  directory := ⟨.openAt f, rfl⟩
  keeps := (Backend.Fresh.memory folder).keeps
  keeps' := (Backend.Fresh.directory ordered bare).keeps
  ascending := Table.ascending_empty
  ascending' := Table.ascending_empty
  alike := fun _ => .none
  one := fun _ mem => absurd mem List.not_mem_nil
  passed := fun _ mem => absurd mem List.not_mem_nil
  survive := by
    intro key v stored
    rw [show Table.get? {} key = none from Table.get?_empty key] at stored
    cases stored

variable {past : List (Turn × Turn)} {p : Turn × Turn}

/-- What both stores come to by a call is what memory comes to with their records. -/
structure Outcome (told : List (Nat × Nat)) (p : Turn × Turn) (records records' : Table Record)
    (m m' : Memory) : Prop where
  smooth : p.1.Smooth
  smooth' : p.2.Smooth
  performed : Memory.perform ⟨records, p.1.next⟩ p.1.now p.1.call = (p.1.answer, m)
  performed' : Memory.perform ⟨records', p.2.next⟩ p.2.now p.2.call = (p.2.answer, m')
  kept : p.1.after.Keeps m.records
  kept' : p.2.after.Keeps m'.records
  alike : Memory.Alike told p.1.call (p.1.answer, m) p.2.call (p.2.answer, m')

theorem survive_shown (level : Level told b b' records records') :
    ∀ key v, b'.shown key = some v → v.Survives := by
  intro key v stored
  rw [level.keeps'.shown] at stored
  exact level.survive key v stored

theorem outcome (level : Level told p.1.before p.2.before records records')
    (asked : p.1.call.Alike told p.2.call) (fair : p.2.Fair) :
    ∃ m m', Outcome told p records records' m m' := by
  obtain ⟨m, folder, memory⟩ := level.memory
  obtain ⟨d, directory⟩ := level.directory
  have smooth : p.1.Smooth := Turn.smooth_of_memory memory
  have smooth' : p.2.Smooth := fair.smooth directory level.survive_shown
  have valid : ∀ key ∈ p.1.call.key?, Directory.checkKey key = .ok () := by
    rw [asked.about.1]
    exact fair.valid
  obtain ⟨answer, kept⟩ := Turn.mirrors_of_valid level.keeps smooth valid
  obtain ⟨answer', kept'⟩ := Turn.mirrors_of_valid level.keeps' smooth' fair.valid
  refine ⟨_, _, smooth, smooth', Prod.ext answer.symm rfl, Prod.ext answer'.symm rfl,
    kept, kept', ?_⟩
  rw [answer, answer']
  exact Memory.perform_alike level.alike level.ascending level.ascending' level.one p.1.now p.2.now
    asked

section Outcome

variable {m m' : Memory}

theorem twins (asked : p.1.call.Alike told p.2.call)
    (outcome : Outcome told p records records' m m') :
    Twins (told ++ p.1.call.pairsTold p.1.answer p.2.call p.2.answer) p := by
  have published : p.1.published = p.2.published := by
    have granted : p.1.granted = p.2.granted := outcome.alike.agree.isOk
    rw [p.1.published_eq, p.2.published_eq, granted, asked.about.2]
  constructor
  case agree => exact outcome.alike.agree
  case published => exact published
  case heard =>
    intro w w' backend now backend' now'
    rw [Turn.perform_world backend now, Turn.perform_world backend' now', published]
    exact ⟨_, rfl, rfl⟩
  case shown =>
    intro key
    rw [outcome.kept.shown, outcome.kept'.shown]
    exact outcome.alike.records key

/-- What is told was told before, or is issued by both stores now. -/
theorem issued (level : Level told p.1.before p.2.before records records')
    (outcome : Outcome told p records records' m m') :
    ∀ q ∈ p.1.call.pairsTold p.1.answer p.2.call p.2.answer,
      q ∈ told ∨ p.1.issued? = some q.1 ∧ p.2.issued? = some q.2 := by
  intro q mem
  refine (outcome.alike.known q mem).imp_right fun new => ?_
  exact ⟨Turn.issued_of_told level.keeps outcome.smooth new.1,
    Turn.issued_of_told level.keeps' outcome.smooth' new.2⟩

theorem survive_after (level : Level told p.1.before p.2.before records records')
    (fair : p.2.Fair) (outcome : Outcome told p records records' m m') :
    ∀ key v, m'.records.get? key = some v → v.Survives := by
  obtain ⟨d, directory⟩ := level.directory
  intro key v stored
  have after :
      (Memory.perform ⟨records', p.2.next⟩ p.2.now p.2.call).2.records.get? key = some v := by
    rw [outcome.performed']
    exact stored
  rcases Memory.stored_or_written after with old | written
  · exact level.survive key v old
  · have shown : records'.get? = p.2.before.shown :=
      funext fun key => (level.keeps'.shown key).symm
    rw [outcome.performed', shown] at written
    exact Turn.survives_of_written directory fair level.survive_shown v written

theorem after (level : Level told p.1.before p.2.before records records')
    (fair : p.2.Fair) (outcome : Outcome told p records records' m m') :
    Level (told ++ p.1.call.pairsTold p.1.answer p.2.call p.2.answer) p.1.after p.2.after
      m.records m'.records := by
  have issued := level.issued outcome
  constructor
  case memory =>
    obtain ⟨before, folder, memory⟩ := level.memory
    exact ⟨(before.perform p.1.now p.1.call).2, folder, by rw [Turn.after, memory]; rfl⟩
  case directory =>
    obtain ⟨before, directory⟩ := level.directory
    exact ⟨(before.perform p.2.now p.2.call).2, by rw [Turn.after, directory]; rfl⟩
  case keeps => exact outcome.kept
  case keeps' => exact outcome.kept'
  case ascending =>
    have kept :=
      Memory.ascending_perform (m := ⟨records, p.1.next⟩) level.ascending p.1.now p.1.call
    rwa [outcome.performed] at kept
  case ascending' =>
    have kept :=
      Memory.ascending_perform (m := ⟨records', p.2.next⟩) level.ascending' p.2.now p.2.call
    rwa [outcome.performed'] at kept
  case alike => exact outcome.alike.records
  case one =>
    apply level.one.append issued
    intro q mem
    obtain ⟨passed, passed'⟩ := level.passed q mem
    exact ⟨fun _ new => Turn.lt_of_passed new passed, fun _ new => Turn.lt_of_passed new passed'⟩
  case passed =>
    intro q mem
    rcases (List.mem_append.1 mem).elim .inl (issued q) with old | ⟨new, new'⟩
    · obtain ⟨passed, passed'⟩ := level.passed q old
      exact ⟨Turn.passed_after passed, Turn.passed_after passed'⟩
    · exact ⟨Turn.passed_of_issued new, Turn.passed_of_issued new'⟩
  case survive => exact level.survive_after fair outcome

end Outcome

/-- Both stores come to the same by all that they are asked. -/
theorem run {calls : List (Asked × Asked)}
    (level : Level (toldBy past) b b' records records')
    (paired : ∀ earlier p later, pairs b b' calls = earlier ++ p :: later →
      Paired (past ++ earlier) p) :
    OneToOne (toldBy (past ++ pairs b b' calls)) ∧
      ∀ p ∈ pairs b b' calls, Twins (toldBy (past ++ pairs b b' calls)) p := by
  induction calls generalizing b b' records records' past with
  | nil =>
    rw [pairs, List.append_nil]
    exact ⟨level.one, List.forall_mem_nil _⟩
  | cons asked rest ih =>
    obtain ⟨⟨now, c⟩, now', c'⟩ := asked
    let first : Turn × Turn := (⟨b, now, c⟩, ⟨b', now', c'⟩)
    have begins : pairs b b' (((now, c), (now', c')) :: rest) =
        first :: pairs first.1.after first.2.after rest := rfl
    rw [begins] at paired ⊢
    obtain ⟨alike, fair⟩ : Paired past first := by
      simpa using paired [] first _ rfl
    obtain ⟨m, m', outcome⟩ := Level.outcome (p := first) level alike fair
    have twins := Level.twins alike outcome
    have after := Level.after level fair outcome
    rw [← toldBy_singleton, ← toldBy_append] at twins after
    obtain ⟨one, all⟩ := ih after (by
      intro earlier p later split
      simpa using paired (first :: earlier) p later (by rw [split]; rfl))
    have whole : past ++ first :: pairs first.1.after first.2.after rest =
        (past ++ [first]) ++ pairs first.1.after first.2.after rest := by simp
    rw [whole]
    refine ⟨one, List.forall_mem_cons.2 ⟨?_, all⟩⟩
    apply twins.mono
    rw [toldBy_append (past ++ [first])]
    exact List.subset_append_left _ _

end Level

/-- Memory and a directory that are new and are asked the same, each with the tokens that it has
told itself, come to the same by every call; their tokens stand for one another. -/
theorem alike_of_pairs (folder : Folder) {f : Folder} (ordered : f.entries.Ascending)
    (bare : f.isBare Directory.base = true) {calls : List (Asked × Asked)}
    {history : List (Turn × Turn)}
    (asked : history = pairs (.memory {} folder) (.directory (.openAt f)) calls)
    (paired : ∀ earlier p later, history = earlier ++ p :: later → Paired earlier p) :
    OneToOne (toldBy history) ∧ ∀ p ∈ history, Twins (toldBy history) p := by
  subst asked
  have level : Level (toldBy []) (.memory {} folder) (.directory (.openAt f)) {} {} :=
    .start folder ordered bare
  exact level.run paired

/-! ## A record in both stores -/

/-- The record in memory. -/
def founderTwin : Record := { founder with token := 1 }

def founderMemory : Memory := (Memory.perform {} founded (.create founder)).2

/-- A record is created in both stores and deleted again, in each with the copy that it has
answered. -/
def lifetime : List (Asked × Asked) :=
  [((founded, .create founder), (founded, .create founder)),
   ((founded, .delete founderTwin), (founded, .delete founderCopy))]

theorem pairs_lifetime :
    pairs (.memory {} .start) (.directory emptyDirectory) lifetime =
      [(⟨.memory {} .start, founded, .create founder⟩,
        ⟨.directory emptyDirectory, founded, .create founder⟩),
       (⟨.memory founderMemory .start, founded, .delete founderTwin⟩,
        ⟨.directory founderStore, founded, .delete founderCopy⟩)] := by
  have here : ((Backend.memory {} .start).perform founded (.create founder)).2 =
      .memory founderMemory .start := rfl
  have there : ((Backend.directory emptyDirectory).perform founded (.create founder)).2 =
      .directory founderStore := rfl
  simp only [lifetime, pairs, here, there]

theorem founder_survives : founder.Survives := ⟨founder_fits, founder_lasting⟩

theorem founding_fair : (Turn.mk (.directory emptyDirectory) founded (.create founder)).Fair where
  valid := by
    rintro key ⟨⟩
    rfl
  reachable := by
    rw [founding_answer]
    nofun
  given := by
    rintro r ⟨⟩
    exact founder_survives
  dated := ⟨by decide, by decide, by decide⟩
  settled := rfl
  room := by
    intro token told
    rw [Turn.told?, founding_answer] at told
    obtain rfl := Option.some.inj told
    decide
  carried := by
    intro v written
    rw [Turn.written?, founding_answer] at written
    obtain rfl := Option.some.inj written
    exact founderCopy_carried

theorem removal_fair : (Turn.mk (.directory founderStore) founded (.delete founderCopy)).Fair where
  valid := by
    rintro key ⟨⟩
    rfl
  reachable := by
    rw [removal_answer]
    nofun
  given := by
    rintro r ⟨⟩
    exact founder_survives.withToken (by decide)
  dated := ⟨by decide, by decide, by decide⟩
  settled := rfl
  room := by
    intro token told
    rw [Turn.told?, removal_answer] at told
    cases told
  carried := by
    intro v written
    rw [Turn.written?, removal_answer] at written
    cases written

theorem told_founding :
    toldBy [(⟨.memory {} .start, founded, .create founder⟩,
      ⟨.directory emptyDirectory, founded, .create founder⟩)] = [(1, 1767225600000001)] := by
  rw [toldBy_singleton, founding_answer]
  rfl

/-- Both records are deleted, each with the token that its store has told. -/
theorem lifetime_alike :
    ∃ history, history = pairs (.memory {} .start) (.directory emptyDirectory) lifetime ∧
      (1, 1767225600000001) ∈ toldBy history ∧ OneToOne (toldBy history) ∧
      (∀ p ∈ history, Twins (toldBy history) p) ∧ ∀ p ∈ history, p.2.granted = true := by
  refine ⟨_, pairs_lifetime.symm, ?_, ?_⟩
  · rw [← List.singleton_append, toldBy_append, told_founding]
    exact List.mem_append_left _ (List.mem_singleton.2 rfl)
  · rw [← and_assoc]
    constructor
    · apply alike_of_pairs .start (Table.ascending_ofList _) (by decide) pairs_lifetime.symm
      intro earlier p later split
      rcases earlier with _ | ⟨_, _ | ⟨_, _⟩⟩
      · obtain ⟨rfl, -⟩ := List.cons.inj split
        exact ⟨.create ⟨founder.token, founder.updatedAt, rfl⟩, founding_fair⟩
      · simp only [List.cons_append, List.nil_append, List.cons.injEq] at split
        obtain ⟨rfl, rfl, -⟩ := split
        refine ⟨.delete ⟨⟨founderCopy.token, founder.updatedAt, rfl⟩, ?_⟩, removal_fair⟩
        rw [told_founding]
        exact List.mem_singleton.2 rfl
      · simp at split
    · simp only [List.forall_mem_cons]
      refine ⟨?_, ?_, List.forall_mem_nil _⟩
      · rw [Turn.granted, founding_answer]
        rfl
      · rw [Turn.granted, removal_answer]
        rfl

end Rehearsal

end Tributary
