import Tributary.Preview
import Tributary.Proofs.Coherence
import Tributary.Proofs.Differences
import Tributary.Proofs.Layouts
import Tributary.Proofs.Restoring

/-!
# What a preview shows

A preview says that something changes iff it has a diff, and the diff has lines that differ from
the snapshot then (`Run.preview_shows`). Whether something changes is read off the digests, and the
diff is made of the snapshot: they agree since every write of a pass leaves a digest that is that of
the snapshot, and values with different digests are laid out differently. Nothing is assumed of
the digests: if those of two values collide, the preview says that nothing changes, and shows
nothing.
-/

namespace Tributary

/-! ## What is remembered of the last success -/

namespace Status

/-- The digest is that of the snapshot, if there is one, and there is none before the first
success. -/
structure Backed (s : Status) : Prop where
  hash : ∀ value, s.snapshot = some value → s.configHash = value.fingerprint
  time : s.configHash = "" ↔ s.lastSyncTime = none

theorem Ledger.backed {s : Status} (h : s.Ledger) : s.Backed :=
  ⟨h.hash, h.snapshot.trans h.time⟩

/-- A write that is no success leaves what is remembered of the last one. -/
theorem Backed.kept {s t : Status} (h : s.Backed) (hash : t.configHash = s.configHash)
    (snapshot : t.snapshot = s.snapshot) (time : t.lastSyncTime = s.lastSyncTime) : t.Backed := by
  constructor
  · rw [snapshot, hash]
    exact h.hash
  · rw [hash, time]
    exact h.time

/-- A status that is read back may have lost its snapshot, but not the digest of it. -/
theorem Backed.restored {s : Status} (h : s.Backed) : s.restored.Backed where
  hash value same := by
    have kept : s.snapshot = some value := by
      change forgetNull s.snapshot = some value at same
      unfold forgetNull at same
      split at same
      · cases same
      · exact same
    exact h.hash value kept
  time := h.time.trans Option.map_eq_none_iff.symm

end Status

namespace Pass

variable {past : List Exchange} {v : Record} {s : Status}

/-- Whatever a pass writes, the digest stays that of the snapshot. -/
theorem Marks.backed (marks : Marks past v s) (h : v.status.Backed) : s.Backed := by
  cases marks with
  | remaining =>
    split
    · exact (Status.coherent_synced v.status _ _ _ _ v.status.resultData).ledger.backed
    · exact h
  | success => exact (Status.coherent_synced v.status _ _ _ _ _).ledger.backed
  | reset | syncing => exact h.kept rfl rfl rfl
  | failure =>
    unfold Backoff.recordFailure
    extract_lets entered secs
    split <;> exact h.kept rfl rfl rfl

/-- Only a success has a time. -/
theorem Marks.lastSyncTime (marks : Marks past v s) :
    s.lastSyncTime = v.status.lastSyncTime ∨ s.phase = .synced := by
  cases marks with
  | remaining =>
    split
    · exact .inr rfl
    · exact .inl rfl
  | success => exact .inr rfl
  | reset | syncing => exact .inl rfl
  | failure =>
    unfold Backoff.recordFailure
    extract_lets entered secs
    split <;> exact .inl rfl

end Pass

/-- A record that somebody creates. -/
theorem Job.status_of_creates {j : Job} {r : Record} (creates : j.protocol.creates r) :
    r.status = {} := by
  cases j with
  | register policy k template source =>
    obtain ⟨now, rfl⟩ := creates
    rfl
  | unregister | requestDeletion | reconcile => exact creates.elim

variable {faulty : StoreError → Prop} {jobs : Nat → Job} {start m : Memory}
  {history earlier since before : List Move} {mv birth : Move} {key : String} {v w : Record}

namespace Run

/-- What one move leaves. -/
theorem backed_step (run : Run faulty (Job.crew jobs) start (mv :: earlier) m) (h : start.Sound)
    (before : ∀ v, mv.before.records.get? key = some v → v.status.Backed)
    (stored : mv.after.records.get? key = some w) : w.status.Backed := by
  have committed := run.committed h key
  rw [stored] at committed
  generalize mv.before.records.get? key = old at committed before
  generalize mv.exchange = x at committed
  cases committed with
  | kept => exact before w rfl
  | created token _ _ creates =>
    change Status.Backed (Record.status _)
    rw [Job.status_of_creates creates]
    exact Status.coherent_new.ledger.backed
  | @edited v => exact before v rfl
  | @marked v r token mine _ _ marks =>
    exact (Job.passes_of_marks mine marks).2.backed (before v rfl)

/-- Whatever is stored, its digest is that of its snapshot. -/
theorem backed (run : Run faulty (Job.crew jobs) start history m) (h : start.Sound)
    (fresh : ∀ v, start.records.get? key = some v → v.status.Backed)
    (stored : m.records.get? key = some w) : w.status.Backed := by
  induction history generalizing m w with
  | nil =>
    rw [run.memory_eq] at stored
    exact fresh w stored
  | cons mv earlier ih =>
    apply run.backed_step h fun v found => ih run.last.1 found
    rwa [run.memory_eq] at stored

end Run

/-- Since somebody created the record, no pass has entered it as synchronised. -/
def Unsynchronised (jobs : Nat → Job) (key : String) (history : List Move) : Prop :=
  ∃ since birth before r, history = since ++ birth :: before ∧
    birth.before.records.get? key = none ∧ birth.after.records.get? key = some r ∧
    Undeleted key since ∧ ∀ mark ∈ since, ¬ Synchronises jobs key mark

namespace Run

/-- A record without a success has none until a pass enters one. -/
theorem lastSyncTime_since (run : Run faulty (Job.crew jobs) start (since ++ before) m)
    (h : start.Sound) (found : (memoryAfter start before).records.get? key = some v)
    (never : v.status.lastSyncTime = none) (undeleted : Undeleted key since)
    (unmarked : ∀ mark ∈ since, ¬ Synchronises jobs key mark)
    (stored : m.records.get? key = some w) : w.status.lastSyncTime = none := by
  induction since generalizing m w with
  | nil =>
    rw [run.memory_eq, List.nil_append, found] at stored
    exact Option.some.inj stored ▸ never
  | cons mv since ih =>
    obtain ⟨unremoved, undeleted⟩ := List.forall_mem_cons.1 undeleted
    obtain ⟨unsynced, unmarked⟩ := List.forall_mem_cons.1 unmarked
    obtain ⟨u, old, -⟩ := run.last.1.lineage h found undeleted
    have before := ih run.last.1 undeleted unmarked old
    have made : mv.after.records.get? key = some w := by
      rw [run.memory_eq] at stored
      exact stored
    have committed := run.committed h key
    rw [old, made] at committed
    generalize entered : mv.exchange = x at committed
    cases committed with
    | kept | edited => exact before
    | @marked _ r token mine hkey _ marks =>
      obtain ⟨pass, marks⟩ := Job.passes_of_marks mine marks
      obtain same | synced := marks.lastSyncTime
      · exact same.trans before
      · exact absurd ⟨pass, r, token, entered, hkey, synced⟩ unsynced

theorem lastSyncTime_of_unsynchronised (run : Run faulty (Job.crew jobs) start history m)
    (h : start.Sound) (unsynchronised : Unsynchronised jobs key history)
    (stored : m.records.get? key = some w) : w.status.lastSyncTime = none := by
  obtain ⟨since, birth, before, r, rfl, absent, born, undeleted, unmarked⟩ := unsynchronised
  refine run.lastSyncTime_since h born ?_ undeleted unmarked stored
  have committed := run.upto_move.committed h key
  rw [absent, born] at committed
  generalize birth.exchange = x at committed
  cases committed with
  | created token _ _ creates =>
    change Status.lastSyncTime (Record.status _) = none
    rw [Job.status_of_creates creates]

end Run

/-! ## What is shown of it -/

namespace Record

/-- The snapshot as it is laid out, or nothing if there is none. -/
def lastSynced (r : Record) : String := (r.status.snapshot.map Json.pretty).getD ""

theorem diff_of_changed {r : Record} {a : Aggregation} (changed : (r.preview a).changed = true) :
    (r.preview a).diff =
      Diff.unified ("a/" ++ r.key) ("b/" ++ r.key) r.lastSynced a.value.pretty :=
  if_pos changed

/-- What a preview shows of an aggregation. -/
structure Displays (r : Record) (a : Aggregation) : Prop where
  silent : (r.preview a).diff = "" ↔ (r.preview a).changed = false
  shown : (r.preview a).changed = true → ∃ removed added,
    Diff.Shown r.lastSynced a.value.pretty (r.preview a).diff removed added
  created : r.status.lastSyncTime = none → (r.preview a).changed = true ∧
    (r.preview a).previousHash = "" ∧
    (r.preview a).diff = Diff.creation ("a/" ++ r.key) ("b/" ++ r.key) a.value.pretty

end Record

namespace Status.Backed

variable {r : Record} {a : Aggregation}

/-- What counts as changed does not look like the snapshot. -/
theorem layouts_differ (h : r.status.Backed) (changed : (r.preview a).changed = true) :
    r.lastSynced ≠ a.value.pretty := by
  intro same
  unfold Record.lastSynced at same
  change fingerprintChanged r.status.configHash a.hash = true at changed
  cases known : r.status.snapshot with
  | none =>
    rw [known] at same
    exact a.value.pretty_ne_empty same.symm
  | some value =>
    rw [known] at same
    have alike : value.fingerprint = a.hash := congrArg Sha256.hex (Json.canonical_of_pretty same)
    have unchanged := fingerprintChanged_eq_false.2 ⟨value.fingerprint_ne_empty, alike⟩
    rw [h.hash value known, unchanged] at changed
    cases changed

theorem shows (h : r.status.Backed) (changed : (r.preview a).changed = true) : ∃ removed added,
    Diff.Shown r.lastSynced a.value.pretty (r.preview a).diff removed added := by
  rw [Record.diff_of_changed changed]
  exact Diff.unified_shows (h.layouts_differ changed)

theorem creates (h : r.status.Backed) (never : r.status.lastSyncTime = none) :
    (r.preview a).changed = true ∧ (r.preview a).previousHash = "" ∧
      (r.preview a).diff = Diff.creation ("a/" ++ r.key) ("b/" ++ r.key) a.value.pretty := by
  have hash : r.status.configHash = "" := h.time.2 never
  have changed : (r.preview a).changed = true := by
    change fingerprintChanged r.status.configHash a.hash = true
    rw [hash]
    rfl
  have nothing : r.status.snapshot = none := Option.eq_none_iff_forall_not_mem.2
    fun value known => value.fingerprint_ne_empty ((h.hash value known).symm.trans hash)
  have diff := Record.diff_of_changed changed
  rw [Record.lastSynced, nothing] at diff
  exact ⟨changed, hash, diff.trans (Diff.unified_empty a.value.pretty_ne_empty)⟩

theorem displays (h : r.status.Backed) (a : Aggregation) : r.Displays a where
  silent := by
    constructor
    · intro none
      by_contra changed
      obtain ⟨removed, added, shown⟩ := h.shows (Bool.not_eq_false _ ▸ changed)
      exact shown.ne_empty none
    · intro unchanged
      exact if_neg (Bool.eq_false_iff.1 unchanged)
  shown := h.shows
  created := h.creates

end Status.Backed

/-- Whatever has been done to a record, a preview of it, also after a restart, has a diff iff
it says that something changes, and that shows a difference from the snapshot. A record that was
not synchronised since it was created is shown as made from nothing. -/
theorem Run.preview_shows (run : Run faulty (Job.crew jobs) start history m) (h : start.Sound)
    (fresh : ∀ v, start.records.get? key = some v → v.status.Backed)
    (stored : m.records.get? key = some w) {r : Record} (seen : r = w ∨ r = w.restored)
    (a : Aggregation) :
    r.Displays a ∧ (Unsynchronised jobs key history → r.status.lastSyncTime = none) := by
  have backed := run.backed h fresh stored
  obtain rfl | rfl := seen
  · exact ⟨backed.displays a, fun never => run.lastSyncTime_of_unsynchronised h never stored⟩
  · refine ⟨Status.Backed.displays (r := w.restored) backed.restored a, fun never => ?_⟩
    have none := run.lastSyncTime_of_unsynchronised h never stored
    exact Option.map_eq_none_iff.2 none

/-- The names of the owners, under a heading. -/
def nameAll (sources : List Contribution) : Aggregation :=
  ⟨.obj [("owners", .arr (sources.map fun c => .str c.owner.name))], sources.length,
    sources.map (·.owner)⟩

/-- `b` joins after a pass has pushed what `a` asks for. -/
def growing : Nat → Job := Job.roster [.joins "a", .looks, .joins "b"]

def growth : Scene (Job.crew growing) :=
  (Scene.opening (Job.crew growing) {}).play { aggregate := fun sources => .ok (nameAll sources) }
    (List.replicate 3 0 ++ List.replicate 12 1 ++ List.replicate 3 2)

theorem growth_displayed :
    ∃ w, growth.memory.records.get? "r" = some w ∧ w.Displays (nameAll w.sources) ∧
      (w.preview (nameAll w.sources)).diff =
        "--- a/r\n+++ b/r\n@@ -1,5 +1,6 @@\n \x7b\n   \"owners\": [\n-    \"a\"\n+    \"a\",\n" ++
          "+    \"b\"\n   ]\n \x7d\n" := by
  have run : Run (fun _ => False) (Job.crew growing) {} growth.history growth.memory :=
    (Scene.real_play _).run
  have found : (growth.memory.records.get? "r").isSome = true := by decide +kernel
  obtain ⟨w, stored⟩ := Option.isSome_iff_exists.mp found
  have shows := run.preview_shows Memory.sound_empty (fun _ found => nomatch found) stored
    (.inl rfl) (nameAll w.sources)
  have diff : ∀ w ∈ growth.memory.records.get? "r", (w.preview (nameAll w.sources)).diff =
      "--- a/r\n+++ b/r\n@@ -1,5 +1,6 @@\n \x7b\n   \"owners\": [\n-    \"a\"\n+    \"a\",\n" ++
        "+    \"b\"\n   ]\n \x7d\n" := by
    decide +kernel
  exact ⟨w, stored, shows.1, diff w stored⟩

end Tributary
