import Tributary.Proofs.Filing
import Tributary.Proofs.Restoring

/-!
# Records across restarts

What a directory has saved, it loads again, also after it has been opened anew: the record with
every field as it was, unless its snapshot is null or nested too deeply, or a leap second in it
does not follow the last second of a minute (`Directory.load_saved`). A null snapshot is forgotten
(`voidSnapshot_forgotten`): both an absent one and a null one are read as absent.
-/

namespace Tributary

namespace Record

/-- Every instant of a record. -/
def instants (r : Record) : List Instant :=
  r.createdAt :: r.updatedAt ::
    (r.status.lastSyncTime.toList ++ r.status.failedAt.toList ++ r.status.nextRetryAt.toList)

theorem map_settled_eq_self {t : Option Instant} :
    t.map Instant.settled = t ↔ ∀ i ∈ t.toList, i.settled = i := by
  cases t <;> simp

theorem forgetNull_eq_self {snapshot : Option Json} :
    forgetNull snapshot = snapshot ↔ snapshot ≠ some .null := by
  unfold forgetNull
  split
  · simp
  · next present => simpa using fun h => present h

/-- What a record must not have to be read back as it is. -/
theorem lasting_iff {r : Record} :
    r.Lasting ↔ r.status.nesting ≤ 126 ∧ r.status.snapshot ≠ some .null ∧
      ∀ t ∈ r.instants, t.isLeap = true → t.seconds % 60 = 59 := by
  have instants : (∀ t ∈ r.instants, t.isLeap = true → t.seconds % 60 = 59) ↔
      r.createdAt.settled = r.createdAt ∧ r.updatedAt.settled = r.updatedAt ∧
      r.status.lastSyncTime.map Instant.settled = r.status.lastSyncTime ∧
      r.status.failedAt.map Instant.settled = r.status.failedAt ∧
      r.status.nextRetryAt.map Instant.settled = r.status.nextRetryAt := by
    simp only [Record.instants, List.forall_mem_cons, List.forall_mem_append, map_settled_eq_self,
      Instant.settled_eq_self, and_assoc]
  rw [instants, ← forgetNull_eq_self]
  constructor
  · rintro ⟨shallow, same⟩
    have status := congrArg Record.status same
    exact ⟨shallow, congrArg Status.snapshot status, congrArg createdAt same,
      congrArg updatedAt same, congrArg Status.lastSyncTime status,
      congrArg Status.failedAt status, congrArg Status.nextRetryAt status⟩
  · rintro ⟨shallow, snapshot, created, updated, synced, failed, retried⟩
    refine ⟨shallow, ?_⟩
    rw [restored, Status.restored, snapshot, created, updated, synced, failed, retried]

theorem Fits.withToken {r : Record} (fits : r.Fits) {token : Nat} (short : token < 2 ^ 64) :
    { r with token }.Fits :=
  { fits with token := short }

theorem Lasting.withToken {r : Record} (lasting : r.Lasting) (token : Nat) :
    { r with token }.Lasting := by
  obtain ⟨shallow, snapshot, instants⟩ := lasting_iff.1 lasting
  exact lasting_iff.2 ⟨shallow, snapshot, instants⟩

end Record

namespace Directory

variable {d d' : Directory} {r : Record}

theorem isDirectory_saved (valid : checkKey r.key = .ok ())
    (saved : d.save r.key r = (.ok (), d')) : d'.folder.isDirectory base = true := by
  obtain ⟨-, there, after⟩ := saved_of_save valid saved
  have kept : d'.folder.entry? base = d.folder.entry? base := by
    have not_place : base.name ≠ (place r.key).name := base_ne _
    rw [after, if_neg not_place, if_neg (base_ne _)]
  rwa [Folder.isDirectory, kept]

theorem load_of_save (valid : checkKey r.key = .ok ()) (fits : r.Fits) (carried : r.carried = true)
    (saved : d.save r.key r = (.ok (), d')) :
    d'.load r.key = if r.status.nesting ≤ 126 then .ok r.restored else .error .malformed := by
  obtain ⟨-, -, after⟩ := saved_of_save valid saved
  rw [load_of_filed (by rw [after, if_pos rfl]), Record.ofDocument?_document fits carried]
  split <;> rfl

/-- What a directory has saved it loads, before and after it is opened anew: the record, its null
snapshot forgotten and its leap seconds settled, unless the snapshot is nested too deeply. So it
is the same record exactly if it has none of these. -/
theorem load_saved (valid : checkKey r.key = .ok ()) (fits : r.Fits) (carried : r.carried = true)
    (saved : d.save r.key r = (.ok (), d')) :
    d'.load r.key = (if r.status.nesting ≤ 126 then .ok r.restored else .error .malformed) ∧
    (openAt d'.folder).load r.key = d'.load r.key ∧
    (d'.load r.key = .ok r ↔
      r.status.nesting ≤ 126 ∧ r.status.snapshot ≠ some .null ∧
        ∀ t ∈ r.instants, t.isLeap = true → t.seconds % 60 = 59) := by
  have load := load_of_save valid fits carried saved
  refine ⟨load, load_congr (folder_openAt (isDirectory_saved valid saved)) _, ?_⟩
  rw [load, ← Record.lasting_iff]
  constructor
  · intro same
    split at same
    · next shallow => exact ⟨shallow, Except.ok.inj same⟩
    · cases same
  · intro lasting
    rw [if_pos lasting.shallow, lasting.restored]

end Directory

/-! ## Two records -/

/-- The text of a document is what is written of its members. -/
theorem Record.toList_document (r : Record) :
    r.document.toList = Yaml.Writer.members 0 r.members := by
  have first : r.members = ("key", .str r.key) :: r.members.tail := rfl
  rw [document, toJson_eq, first, Yaml.Writer.document, String.toList_ofList]

theorem Record.carried_eq (r : Record) :
    r.carried =
      ((Yaml.tokens? (Yaml.Writer.members 0 r.members)).bind Yaml.Node.document).any fun p =>
        p.2.tokens.all (· = .documentEnd) && r.toJson.shownBy p.1 := by
  have nothing : Yaml.Node.document [] = none := by cbv
  unfold carried Yaml.Document.ofText?
  simp only [toList_document]
  cases Yaml.tokens? (Yaml.Writer.members 0 r.members) with
  | none => rfl
  | some tokens =>
    cases tokens with
    | nil => simp only [Option.bind_eq_bind, Option.bind_some, nothing, Option.any_none]
    | cons t ts =>
      simp only [Option.bind_eq_bind, Option.bind_some]
      cases Yaml.Node.document (t :: ts) with
      | none => rfl
      | some p =>
        obtain ⟨root, state⟩ := p
        simp only [Option.bind_some, Option.any_some]
        cases state.tokens.all (· = .documentEnd) <;> rfl

/-- A directory without records. -/
def emptyDirectory : Directory := .openAt .start

/-- A record that was synchronised in a leap second and has failed since. -/
def keepsake : Record :=
  { Record.blank "zone-a" "zone" "live-1" ⟨1767225600, 0⟩ with
    sources := [⟨⟨"Route", "ns", "a"⟩, -5, [123, 125]⟩]
    generation := 2
    token := 7
    status :=
      { phase := .error
        lastSyncTime := some ⟨-1, 1500000000⟩
        errorCategory := some .transient
        snapshot := some (.obj [("a", .arr [.null, .num (.int (-1))])]) } }

/-- A record that was synchronised with nothing to configure. -/
def voidSnapshot : Record :=
  { Record.blank "zone-a" "zone" "live-1" ⟨1767225600, 0⟩ with
    status := { phase := .synced, snapshot := some .null } }

theorem keepsake_fits : keepsake.Fits where
  scopeIds := .nil
  sources := by
    intro c mem
    obtain rfl := List.mem_singleton.1 mem
    exact ⟨by decide, by decide⟩
  generation := by decide
  token := by decide
  status :=
    { configVersion := by decide
      lastSyncTime := by
        rintro t ⟨⟩
        exact ⟨by decide, by decide, by decide⟩
      retryCount := by decide
      maxRetries := by decide
      failedAt := nofun
      nextRetryAt := nofun
      observedGeneration := by decide
      resultData := .nil
      snapshot := by
        rintro v ⟨⟩
        refine .obj (List.pairwise_singleton _ _) fun m mem => ?_
        obtain rfl := List.mem_singleton.1 mem
        refine .arr fun v mem => ?_
        rcases List.mem_pair.1 mem with rfl | rfl
        · exact .null
        · exact .int (-1) (by decide) (by decide) }
  createdAt := ⟨by decide, by decide, by decide⟩
  updatedAt := ⟨by decide, by decide, by decide⟩

theorem voidSnapshot_fits : voidSnapshot.Fits where
  scopeIds := .nil
  sources := nofun
  generation := by decide
  token := by decide
  status :=
    { configVersion := by decide
      lastSyncTime := nofun
      retryCount := by decide
      maxRetries := by decide
      failedAt := nofun
      nextRetryAt := nofun
      observedGeneration := by decide
      resultData := .nil
      snapshot := by
        rintro v ⟨⟩
        exact .null }
  createdAt := ⟨by decide, by decide, by decide⟩
  updatedAt := ⟨by decide, by decide, by decide⟩

theorem keepsake_carried : keepsake.carried = true := by
  rw [Record.carried_eq]
  decide +kernel

/-- After the leap second and the failure have been saved, the record is loaded as it was. -/
theorem keepsake_loaded :
    ∃ d' : Directory, emptyDirectory.save keepsake.key keepsake = (.ok (), d') ∧
      d'.load keepsake.key = .ok keepsake ∧
      (Directory.openAt d'.folder).load keepsake.key = .ok keepsake := by
  have valid : Directory.checkKey keepsake.key = .ok () := by decide
  have saved : emptyDirectory.save keepsake.key keepsake =
      (.ok (), (emptyDirectory.save keepsake.key keepsake).2) := rfl
  obtain ⟨-, reopened, same⟩ := Directory.load_saved valid keepsake_fits keepsake_carried saved
  have loaded := same.2 ⟨by decide, nofun, by decide⟩
  exact ⟨_, saved, loaded, reopened.trans loaded⟩

/-- A record whose snapshot is null is saved without an error, and its document carries it, but
what is loaded has no snapshot. -/
theorem voidSnapshot_forgotten :
    voidSnapshot.carried = true ∧
    ∃ d' : Directory, emptyDirectory.save voidSnapshot.key voidSnapshot = (.ok (), d') ∧
      d'.load voidSnapshot.key = .ok { voidSnapshot with status := { phase := .synced } } ∧
      d'.load voidSnapshot.key ≠ .ok voidSnapshot := by
  have carried : voidSnapshot.carried = true := by
    rw [Record.carried_eq]
    decide +kernel
  have valid : Directory.checkKey voidSnapshot.key = .ok () := by decide
  have saved : emptyDirectory.save voidSnapshot.key voidSnapshot =
      (.ok (), (emptyDirectory.save voidSnapshot.key voidSnapshot).2) := rfl
  have loaded := Directory.load_of_save valid voidSnapshot_fits carried saved
  have settled : voidSnapshot.restored = { voidSnapshot with status := { phase := .synced } } := rfl
  rw [if_pos (by decide), settled] at loaded
  refine ⟨carried, _, saved, loaded, ?_⟩
  rw [loaded]
  intro same
  have snapshots := congrArg (fun r : Record => r.status.snapshot) (Except.ok.inj same)
  cases snapshots

end Tributary
