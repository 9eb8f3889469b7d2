import Tributary.Proofs.Restarts
import Tributary.Proofs.Shelves

/-!
# Broken writes

A write can break off at every step, and whoever was writing may be gone then. All that is left
behind is a draft, which no name of a record is taken for: the directory still answers with the
records that are committed, and a write is committed as soon as its draft has taken its place
(`Directory.crash_safe`). What is read of a record is what its document says, and a null snapshot
is not in it (`powerCut_forgotten`).
-/

namespace Tributary

/-! ## Paths -/

namespace Paths

variable {name key other : String}

theorem keyOf?_draftName (valid : Directory.checkKey key = .ok ()) :
    keyOf? (draftName key) = none := by
  rw [keyOf?, fileName?_of_isSingle (Directory.isSingle_draftName valid), Option.bind_some]
  refine Option.eq_none_iff_forall_ne_some.2 fun other taken => ?_
  have same := String.toList_inj.1 (keyOfName?_eq_some.1 taken).1
  exact Directory.recordName_ne_draftName other key same.symm

/-- The directory of the records ends in its name. -/
theorem join_recordsDirectory (root : String) (relative : isAbsolute name = false) :
    join (recordsDirectory root) name = recordsDirectory root ++ "/" ++ name := by
  have last : (recordsDirectory root).toList.getLast? = some 's' := by
    unfold recordsDirectory join
    split
    · decide
    · split <;> simp [records, List.getLast?_append]
  rw [join, relative, last]
  simp

theorem isAbsolute_of_isSingle (single : Folder.IsSingle name) : isAbsolute name = false := by
  rw [isAbsolute, decide_eq_false_iff_not]
  exact fun slash => single.no_slash (List.mem_of_head? slash)

/-- What a path in the directory of the records is taken for. -/
theorem keyOf?_join (root : String) (single : Folder.IsSingle name) :
    keyOf? (join (recordsDirectory root) name) = keyOf? name := by
  have split : (recordsDirectory root ++ "/" ++ name).toList =
      (recordsDirectory root).toList ++ '/' :: name.toList := by
    simp [String.toList_append]
  have letters : name.toList ≠ [] ∧ name.toList ≠ ['.'] := by
    constructor
    · exact fun empty => single.nonempty (String.toList_eq_nil_iff.1 empty)
    · exact fun dot => single.no_dots.1 (String.toList_inj.1 dot)
  have last : fileName? (recordsDirectory root ++ "/" ++ name) = fileName? name := by
    simp [fileName?, parts, split, List.splitOn_append_cons_self,
      List.splitOn_eq_singleton single.no_slash, letters]
  rw [join_recordsDirectory root (isAbsolute_of_isSingle single), keyOf?, last, keyOf?]

theorem join_inj (root : String) (first : Folder.IsSingle name) (second : Folder.IsSingle other)
    (same : join (recordsDirectory root) name = join (recordsDirectory root) other) :
    name = other := by
  rw [join_recordsDirectory root (isAbsolute_of_isSingle first),
    join_recordsDirectory root (isAbsolute_of_isSingle second)] at same
  have letters := congrArg String.toList same
  simp only [String.toList_append] at letters
  exact String.toList_inj.1 (List.append_cancel_left letters)

/-- Where a record is written before it takes its place. -/
def draftFile (root key : String) : String := join (recordsDirectory root) (draftName key)

end Paths

namespace Record

/-- What is read of a document. -/
def reread (r : Record) : Except StoreError Record :=
  (ofDocument? r.document).elim (.error .malformed) .ok

theorem reread_eq_ok {r v : Record} : r.reread = .ok v ↔ ofDocument? r.document = some v := by
  unfold reread
  cases ofDocument? r.document <;> simp

/-- Whatever is read of the document of a record has its key. -/
def Signed (r : Record) : Prop := ∀ v, ofDocument? r.document = some v → v.key = r.key

theorem signed_of_carried {r : Record} (fits : r.Fits) (carried : r.carried = true) : r.Signed := by
  intro v read
  rw [ofDocument?_document fits carried] at read
  split at read
  · cases read
    rfl
  · cases read

end Record

/-- The records that are committed once a call has been answered. -/
def Store.Call.committed (stored : String → Option Record) (now : Instant) (t : Table Record)
    (c : Call) (a : Answer c) : Table Record :=
  match c.written? stored now a with
  | some w => t.set w.key w
  | none =>
    match c, a with
    | .delete r, .ok _ => t.erase r.key
    | _, _ => t

namespace Store.Call

variable {stored : String → Option Record} {now : Instant} {t : Table Record} {c : Call}
  {a : Answer c}

theorem committed_of_some {w : Record} (wrote : c.written? stored now a = some w) :
    c.committed stored now t a = t.set w.key w := by
  unfold committed
  rw [wrote]

theorem committed_of_none (wrote : c.written? stored now a = none) (keeps : ∀ r, c ≠ .delete r) :
    c.committed stored now t a = t := by
  unfold committed
  rw [wrote]
  cases c with
  | delete r => exact absurd rfl (keeps r)
  | _ => rfl

end Store.Call

namespace Directory

open Folder

variable {d d' : Directory} {f g h : Folder} {t t' : Table Record} {l : Location} {now : Instant}
  {c : Store.Call} {key : String} {r : Record}

/-! ## What a broken write has touched -/

/-- Nothing has changed but what is at one place. -/
structure Spares (l : Location) (f g : Folder) : Prop where
  ordered : f.entries.Ascending → g.entries.Ascending
  same : ∀ k : Location, k.name ≠ l.name → g.entry? k = f.entry? k

namespace Spares

theorem refl (l : Location) (f : Folder) : Spares l f f := ⟨id, fun _ _ => rfl⟩

theorem trans (first : Spares l f g) (second : Spares l g h) : Spares l f h :=
  ⟨second.ordered ∘ first.ordered, fun k apart => (second.same k apart).trans (first.same k apart)⟩

theorem put (l : Location) (f : Folder) (e : Entry) : Spares l f (f.put l e) where
  ordered ordered := ordered.set _ _
  same k apart := by rw [entry?_put, if_neg apart]

theorem erase (l : Location) (f : Folder) : Spares l f ⟨f.entries.erase l.name⟩ where
  ordered ordered := ordered.erase _
  same _ apart := (Table.get?_erase _ _ _).trans (if_neg apart)

end Spares

theorem protect?_spares {name : String} {mode : Nat} (single : IsSingle name)
    (done : f.protect? base name mode = some g) : Spares (base ++ [name]) f g := by
  rw [protect?, follow?_single single] at done
  split at done
  · simp only [Option.bind_eq_bind, Option.bind_some, Bool.false_eq_true, if_false] at done
    split at done
    · exact Option.some.inj done ▸ .put _ _ _
    · exact Option.some.inj done ▸ .put _ _ _
    · cases done
  · cases done

/-- How far a write can get if it breaks off: a part of the draft is written, or some of its steps
are done. -/
inductive Interrupted (key : String) (r : Record) : List Step → Prop
  | writing (part : List UInt8) : Interrupted key r [.write (Paths.draftName r.key) part]
  | early (n : Nat) (before : n < (saving key r).length) :
      Interrupted key r ((saving key r).take n)

theorem runs_write {name : String} {content : List UInt8} {steps : List Step}
    (single : IsSingle name) (runs : runSteps f (.write name content :: steps) = (true, g)) :
    ∃ f', Spares (base ++ [name]) f f' ∧ runSteps f' steps = (true, g) := by
  obtain ⟨f', write, rest⟩ := runs_cons runs
  obtain ⟨-, mode, rfl⟩ := write?_single single write
  exact ⟨_, .put _ _ _, rest⟩

/-- A write that breaks off leaves a draft at most. -/
theorem Interrupted.spares {steps : List Step} (interrupted : Interrupted key r steps)
    (valid : checkKey r.key = .ok ()) (runs : runSteps f steps = (true, g)) :
    Spares (base ++ [Paths.draftName r.key]) f g := by
  have draft := isSingle_draftName valid
  cases interrupted with
  | writing part =>
    obtain ⟨f', spares, rest⟩ := runs_write draft runs
    cases rest
    exact spares
  | early n before =>
    match n with
    | 0 =>
      cases runs
      exact .refl _ _
    | 1 =>
      obtain ⟨f', spares, rest⟩ := runs_write draft runs
      cases rest
      exact spares
    | 2 =>
      obtain ⟨f', spares, rest⟩ := runs_write draft runs
      obtain ⟨g', protect, rest⟩ := runs_cons rest
      cases rest
      exact spares.trans (protect?_spares draft protect)
    | n + 3 =>
      -- The rename is the last step, so the steps before it have not moved the draft.
      simp [saving] at before

theorem remove?_spares {name : String} (single : IsSingle name)
    (removed : f.remove? base name = some g) : Spares (base ++ [name]) f g := by
  rw [remove?_single single removed]
  exact .erase _ _

/-- The steps that were made before one failed. -/
theorem runs_of_false {steps : List Step} (runs : runSteps f steps = (false, g)) :
    ∃ n < steps.length, runSteps f (steps.take n) = (true, g) := by
  induction steps generalizing f with
  | nil => cases runs
  | cons s rest ih =>
    rw [runSteps] at runs
    cases step : s.run? f with
    | none =>
      simp only [step] at runs
      refine ⟨0, Nat.succ_pos _, ?_⟩
      rw [List.take_zero, runSteps, (Prod.mk.inj runs).2]
    | some f' =>
      simp only [step] at runs
      obtain ⟨n, before, made⟩ := ih runs
      refine ⟨n + 1, Nat.succ_lt_succ before, ?_⟩
      simpa only [List.take_succ_cons, runSteps, step] using made

/-- A save that does not succeed leaves a draft at most. -/
theorem save_spares {e : StoreError} (valid : checkKey r.key = .ok ())
    (failed : d.save key r = (.error e, d')) :
    Spares (base ++ [Paths.draftName r.key]) d.folder d'.folder := by
  unfold save at failed
  split at failed
  · cases failed
  · next folder runs =>
    obtain ⟨n, before, made⟩ := runs_of_false runs
    have spares := (Interrupted.early n before).spares valid made
    -- Whether the draft could be thrown away makes no difference.
    obtain rfl := (Prod.mk.inj failed).2
    show Spares _ _ ((folder.remove? base (Paths.draftName r.key)).getD folder)
    cases removed : folder.remove? base (Paths.draftName r.key) with
    | none => exact spares
    | some h => exact spares.trans (remove?_spares (isSingle_draftName valid) removed)

/-! ## Committed records -/

/-- The committed records lie in their places, and beside them nothing but drafts. -/
structure Shelved (f : Folder) (t : Table Record) : Prop where
  ordered : f.entries.Ascending
  there : f.isDirectory base = true
  ascending : t.Ascending
  valid : ∀ key r, t.get? key = some r → checkKey key = .ok ()
  signed : ∀ key r, t.get? key = some r → r.key = key ∧ r.Signed
  filed : ∀ key r, t.get? key = some r → f.entry? (place key) = some (filed r)
  only : ∀ name, f.entry? (base ++ [name]) ≠ none →
    (∃ key, t.contains key = true ∧ name = Paths.recordName key) ∨
      ∃ key, name = Paths.draftName key

namespace Shelved

theorem absent (shelved : Shelved f t) (missing : t.get? key = none) :
    f.entry? (place key) = none := by
  refine Decidable.not_not.1 fun there => ?_
  rcases shelved.only _ there with ⟨other, stored, same⟩ | ⟨other, same⟩
  · obtain rfl := recordName_inj same
    rw [Table.contains, missing] at stored
    cases stored
  · exact recordName_ne_draftName key other same

theorem load (shelved : Shelved d.folder t) (key : String) :
    d.load key = (t.get? key).elim (.error (.notFound key)) Record.reread := by
  cases stored : t.get? key with
  | some r => rw [load_of_filed (shelved.filed key r stored), Option.elim_some, Record.reread]
  | none =>
    have free : d.holds key = false := by
      rw [Directory.holds, Folder.contains, shelved.absent stored, place, isFixed_append]
      rfl
    rw [Directory.load, free, if_neg Bool.false_ne_true, Option.elim_none]

theorem keys (shelved : Shelved d.folder t) : d.keys = .ok t.keys := by
  refine keys_eq shelved.ordered shelved.ascending (by simp [shelved.there]) fun key => ?_
  rw [mem_fileNames shelved.ordered]
  constructor
  · rintro ⟨-, -, mode, content, found⟩
    rcases shelved.only (Paths.recordName key) (by simp [found]) with
      ⟨other, stored, same⟩ | ⟨other, same⟩
    · obtain rfl := recordName_inj same
      exact stored
    · exact absurd same (recordName_ne_draftName key other)
  · intro stored
    obtain ⟨r, found⟩ := Option.isSome_iff_exists.1 stored
    have valid := shelved.valid key r found
    exact ⟨Paths.keyOf?_recordName valid, (isSingle_recordName valid).no_slash, _, _,
      shelved.filed key r found⟩

/-- What is left of a broken write makes no difference. -/
theorem spares (shelved : Shelved f t)
    (spares : Spares (base ++ [Paths.draftName key]) f g) : Shelved g t where
  ordered := spares.ordered shelved.ordered
  there := by
    rw [Folder.isDirectory, spares.same base (base_ne _)]
    exact shelved.there
  ascending := shelved.ascending
  valid := shelved.valid
  signed := shelved.signed
  filed other r stored := by
    rw [spares.same _ (place_ne_draft other key)]
    exact shelved.filed other r stored
  only name there := by
    by_cases draft : (base ++ [name]).name = (base ++ [Paths.draftName key]).name
    · exact .inr ⟨key, name_inj draft⟩
    · rw [spares.same _ draft] at there
      exact shelved.only name there

theorem reopened (shelved : Shelved f t) : Shelved (openAt f).folder t := by
  rw [folder_openAt shelved.there]
  exact shelved

/-- A write that has got to its end commits its record. -/
theorem saved (shelved : Shelved d.folder t) (valid : checkKey r.key = .ok ()) (signed : r.Signed)
    (saved : d.save r.key r = (.ok (), d')) : Shelved d'.folder (t.set r.key r) := by
  obtain ⟨-, -, after⟩ := saved_of_save valid saved
  have stored {key : String} {v : Record} (found : (t.set r.key r).get? key = some v) :
      (key = r.key ∧ v = r) ∨ (key ≠ r.key ∧ t.get? key = some v) := by
    rw [Table.get?_set] at found
    split at found
    · next same => exact .inl ⟨same, (Option.some.inj found).symm⟩
    · next other => exact .inr ⟨other, found⟩
  refine ⟨ascending_runs shelved.ordered (runs_of_save saved).2, isDirectory_saved valid saved,
    shelved.ascending.set _ _, ?_, ?_, ?_, ?_⟩
  · intro key v found
    obtain ⟨rfl, -⟩ | ⟨-, found⟩ := stored found
    · exact valid
    · exact shelved.valid key v found
  · intro key v found
    obtain ⟨rfl, rfl⟩ | ⟨-, found⟩ := stored found
    · exact ⟨rfl, signed⟩
    · exact shelved.signed key v found
  · intro key v found
    rw [after]
    obtain ⟨rfl, rfl⟩ | ⟨other, found⟩ := stored found
    · exact if_pos rfl
    · rw [if_neg fun same => other (place_inj same), if_neg (place_ne_draft key r.key)]
      exact shelved.filed key v found
  · intro name there
    rw [after] at there
    split at there
    · next same => exact .inl ⟨r.key, by simp [Table.contains], name_inj same⟩
    · split at there
      · exact absurd rfl there
      · rcases shelved.only name there with ⟨key, present, same⟩ | draft
        · refine .inl ⟨key, ?_, same⟩
          rw [Table.contains, Table.get?_set]
          split
          · rfl
          · exact present
        · exact .inr draft

theorem removed (shelved : Shelved f t) (valid : checkKey key = .ok ())
    (removed : f.remove? base (Paths.recordName key) = some g) : Shelved g (t.erase key) := by
  have spares : Spares (place key) f g := remove?_spares (isSingle_recordName valid) removed
  have gone : g.entry? (place key) = none := by
    rw [remove?_single (isSingle_recordName valid) removed]
    exact (Table.get?_erase _ _ _).trans (if_pos rfl)
  have stored {other : String} {v : Record} (found : (t.erase key).get? other = some v) :
      other ≠ key ∧ t.get? other = some v := by
    rw [Table.get?_erase] at found
    split at found
    · cases found
    · next apart => exact ⟨apart, found⟩
  refine ⟨spares.ordered shelved.ordered, ?_, shelved.ascending.erase _, ?_, ?_, ?_, ?_⟩
  · rw [Folder.isDirectory, spares.same base (base_ne _)]
    exact shelved.there
  · exact fun other v found => shelved.valid other v (stored found).2
  · exact fun other v found => shelved.signed other v (stored found).2
  · intro other v found
    obtain ⟨apart, found⟩ := stored found
    rw [spares.same _ fun same => apart (place_inj same)]
    exact shelved.filed other v found
  · intro name there
    have apart : (base ++ [name]).name ≠ (place key).name := by
      intro same
      refine there ?_
      rw [Folder.entry?, same]
      exact gone
    rw [spares.same _ apart] at there
    rcases shelved.only name there with ⟨other, present, rfl⟩ | draft
    · refine .inl ⟨other, ?_, rfl⟩
      rw [Table.contains, Table.get?_erase, if_neg]
      · exact present
      · rintro rfl
        exact apart rfl
    · exact .inr draft

/-- A new directory has no records. -/
theorem of_bare (ordered : f.entries.Ascending) (bare : f.isBare base = true)
    (free : f.contains base = true → f.isDirectory base = true) :
    Shelved (openAt f).folder {} := by
  have empty : Keeps (openAt f).folder {} := (Keeps.of_bare ordered bare).openAt
  have nothing {key : String} {r : Record} (stored : ({} : Table Record).get? key = some r) :
      False := Option.some_ne_none r stored.symm
  refine ⟨empty.ordered, ?_, empty.ascending, fun _ _ stored => (nothing stored).elim,
    fun _ _ stored => (nothing stored).elim, fun _ _ stored => (nothing stored).elim,
    fun name there => ?_⟩
  · unfold openAt
    split
    · next taken => exact free taken
    · simp [Folder.isDirectory, entry?_put]
  · obtain ⟨key, stored, -⟩ := empty.only name there
    cases stored

end Shelved

/-! ## What calls write -/

theorem current_eq_ok {stored : Record} :
    d.current r = .ok stored ↔
      checkKey r.key = .ok () ∧ d.load r.key = .ok stored ∧ r.token = stored.token := by
  unfold current Record.checkToken
  cases checkKey r.key with
  | error e => exact ⟨fun found => (by cases found), fun found => (by cases found.1)⟩
  | ok =>
    cases d.load r.key with
    | error e => exact ⟨fun found => (by cases found), fun found => (by cases found.2.1)⟩
    | ok v =>
      by_cases same : r.token = v.token
      · simp only [bind, Except.bind, pure, Except.pure, if_pos same, true_and, Except.ok.injEq]
        exact ⟨fun here => ⟨here, here ▸ same⟩, fun here => here.1⟩
      · simp only [bind, Except.bind, if_neg same, true_and, Except.ok.injEq, reduceCtorEq,
          false_iff]
        rintro ⟨rfl, carried⟩
        exact same carried

/-- A write that is about to begin: of a record to the place of a key, when the directory has
issued its token. -/
structure Writing where
  key : String
  record : Record
  directory : Directory

/-- A stored version is about to be replaced by what is made of it and its new token. -/
def replaces? (d : Directory) (now : Instant) (r : Record) (make : Record → Nat → Record) :
    Option Writing :=
  (d.current r).toOption.map fun stored =>
    let (token, issued) := d.issue now stored.token
    ⟨r.key, make stored token, issued⟩

/-- What a call is about to write if nothing is against it. -/
def begins? (d : Directory) (now : Instant) : Store.Call → Option Writing
  | .create r =>
    if checkKey r.key = .ok () ∧ d.holds r.key = false then
      let (token, issued) := d.issue now 0
      some ⟨r.key, { r with token }, issued⟩
    else none
  | .update r => d.replaces? now r (r.updated · · now)
  | .updateStatus r => d.replaces? now r r.statusUpdated
  | .get _ | .delete _ | .list => none

/-- What a call can find stored. -/
def stored? (d : Directory) (key : String) : Option Record := (d.load key).toOption

theorem stored?_of_current {stored : Record} (found : d.current r = .ok stored) :
    d.stored? r.key = some stored := by
  rw [stored?, (current_eq_ok.1 found).2.1]
  rfl

variable {x : Writing}

theorem replaces?_eq_some {make : Record → Nat → Record} :
    d.replaces? now r make = some x ↔ ∃ stored, d.current r = .ok stored ∧
      x = ⟨r.key, make stored (d.issue now stored.token).1, (d.issue now stored.token).2⟩ := by
  unfold replaces?
  cases d.current r with
  | error e => simp [Except.toOption]
  | ok stored => simp [Except.toOption, eq_comm]

/-- A call that is about to write saves its record, and is answered with it if that succeeds. -/
theorem perform_of_begins (begins : d.begins? now c = some x) :
    (d.perform now c).2 = (x.directory.save x.key x.record).2 ∧
      c.written? d.stored? now (d.perform now c).1 =
        if (x.directory.save x.key x.record).1.isOk then some x.record else none := by
  cases c with
  | create r =>
    simp only [begins?] at begins
    split at begins
    · next fine =>
      obtain rfl := Option.some.inj begins
      have free : (d.issue now 0).2.holds r.key = false := fine.2
      simp only [perform, create, fine.1, free, Bool.false_eq_true, if_false]
      cases (d.issue now 0).2.save r.key { r with token := (d.issue now 0).1 } with
      | mk answer after => cases answer <;> exact ⟨rfl, rfl⟩
    · cases begins
  | update r =>
    have begins : d.replaces? now r (r.updated · · now) = some x := begins
    obtain ⟨stored, found, rfl⟩ := replaces?_eq_some.1 begins
    simp only [perform, update, found, replace]
    cases (d.issue now stored.token).2.save r.key _ with
    | mk answer after =>
      cases answer with
      | error e => exact ⟨rfl, rfl⟩
      | ok => exact ⟨rfl, congrArg (Option.map _) (stored?_of_current found)⟩
  | updateStatus r =>
    have begins : d.replaces? now r r.statusUpdated = some x := begins
    obtain ⟨stored, found, rfl⟩ := replaces?_eq_some.1 begins
    simp only [perform, updateStatus, found, replace]
    cases (d.issue now stored.token).2.save r.key _ with
    | mk answer after =>
      cases answer with
      | error e => exact ⟨rfl, rfl⟩
      | ok => exact ⟨rfl, congrArg (Option.map _) (stored?_of_current found)⟩
  | get key => cases begins
  | delete r => cases begins
  | list => cases begins

/-- A call that is not about to write writes nothing. -/
theorem perform_of_idle (idle : d.begins? now c = none) (keeps : ∀ r, c ≠ .delete r) :
    (d.perform now c).2.folder = d.folder ∧
      c.written? d.stored? now (d.perform now c).1 = none := by
  have refused (r : Record) (make : Record → Nat → Record)
      (idle : d.replaces? now r make = none) : ∃ e, d.current r = .error e := by
    cases found : d.current r with
    | error e => exact ⟨e, rfl⟩
    | ok stored =>
      rw [replaces?, found] at idle
      cases idle
  cases c with
  | create r =>
    simp only [perform, create]
    cases valid : checkKey r.key with
    | error e => exact ⟨rfl, rfl⟩
    | ok =>
      have taken : (d.issue now 0).2.holds r.key = true := by
        cases holds : d.holds r.key with
        | true => exact holds
        | false => simp [begins?, valid, holds] at idle
      simp only [taken, if_true]
      exact ⟨rfl, rfl⟩
  | update r =>
    obtain ⟨e, found⟩ := refused r (r.updated · · now) idle
    rw [show d.perform now (.update r) = (.error e, d) by simp only [perform, update, found]]
    exact ⟨rfl, rfl⟩
  | updateStatus r =>
    obtain ⟨e, found⟩ := refused r r.statusUpdated idle
    rw [show d.perform now (.updateStatus r) = (.error e, d) by
      simp only [perform, updateStatus, found]]
    exact ⟨rfl, rfl⟩
  | get key =>
    refine ⟨?_, by cases (d.perform now (.get key)).1 <;> rfl⟩
    simp only [perform]
    split <;> rfl
  | delete r => exact absurd rfl (keeps r)
  | list => exact ⟨rfl, by cases (d.perform now .list).1 <;> rfl⟩

namespace Shelved

/-- What is about to be written has the key of its place. -/
theorem begins (shelved : Shelved d.folder t) (begins : d.begins? now c = some x) :
    x.directory.folder = d.folder ∧ checkKey x.key = .ok () ∧ x.record.key = x.key := by
  cases c with
  | create r =>
    simp only [begins?] at begins
    split at begins
    · next fine =>
      obtain rfl := Option.some.inj begins
      exact ⟨rfl, fine.1, rfl⟩
    · cases begins
  | update r =>
    have begins : d.replaces? now r (r.updated · · now) = some x := begins
    obtain ⟨stored, found, rfl⟩ := replaces?_eq_some.1 begins
    exact ⟨rfl, (current_eq_ok.1 found).1, rfl⟩
  | updateStatus r =>
    have begins : d.replaces? now r r.statusUpdated = some x := begins
    obtain ⟨stored, found, rfl⟩ := replaces?_eq_some.1 begins
    obtain ⟨valid, loaded, -⟩ := current_eq_ok.1 found
    refine ⟨rfl, valid, ?_⟩
    -- The version that is written has the key that was read from the file.
    show stored.key = r.key
    rw [shelved.load r.key] at loaded
    cases committed : t.get? r.key with
    | none =>
      rw [committed, Option.elim_none] at loaded
      cases loaded
    | some v =>
      obtain ⟨own, signed⟩ := shelved.signed r.key v committed
      rw [committed, Option.elim_some] at loaded
      exact (signed stored (Record.reread_eq_ok.1 loaded)).trans own
  | get key => cases begins
  | delete r => cases begins
  | list => cases begins

theorem delete (shelved : Shelved d.folder t) (r : Record) :
    Shelved (d.delete r).2.folder
      ((Store.Call.delete r).committed d.stored? now t (d.delete r).1) := by
  unfold Directory.delete
  cases found : d.current r with
  | error e => exact shelved
  | ok stored =>
    dsimp only
    cases stored.checkReleased r.key with
    | error e => exact shelved
    | ok =>
      dsimp only
      cases removed : d.folder.remove? base (Paths.recordName r.key) with
      | none => exact shelved
      | some g => exact shelved.removed (current_eq_ok.1 found).1 removed

/-- What a call that was answered has committed is in the directory. -/
theorem call (shelved : Shelved d.folder t)
    (signed : ∀ w ∈ c.written? d.stored? now (d.perform now c).1, w.Signed) :
    Shelved (d.perform now c).2.folder (c.committed d.stored? now t (d.perform now c).1) := by
  by_cases deletes : ∃ r, c = .delete r
  · obtain ⟨r, rfl⟩ := deletes
    exact shelved.delete r
  have keeps : ∀ r, c ≠ .delete r := fun r same => deletes ⟨r, same⟩
  cases about : d.begins? now c with
  | none =>
    obtain ⟨left, wrote⟩ := perform_of_idle about keeps
    rw [left, Store.Call.committed_of_none wrote keeps]
    exact shelved
  | some x =>
    obtain ⟨left, wrote⟩ := perform_of_begins about
    obtain ⟨same, valid, own⟩ := shelved.begins about
    rw [← same] at shelved
    rw [left]
    cases saved : x.directory.save x.key x.record with
    | mk answer after =>
      rw [saved] at wrote
      cases answer with
      | ok =>
        rw [Store.Call.committed_of_some wrote]
        rw [← own] at valid saved
        exact shelved.saved valid (signed _ wrote) saved
      | error e =>
        rw [Store.Call.committed_of_none wrote keeps]
        exact shelved.spares (save_spares (own ▸ valid) saved)

end Shelved

/-! ## Histories -/

/-- What can happen to a directory, and what becomes of the committed records. Whoever deletes may
die only before or after that. -/
inductive Occurs (d : Directory) (t : Table Record) : Directory → Table Record → Prop
  | call (now : Instant) (c : Store.Call)
      (signed : ∀ w ∈ c.written? d.stored? now (d.perform now c).1, w.Signed) :
      Occurs d t (d.perform now c).2 (c.committed d.stored? now t (d.perform now c).1)
  /-- A write fails on the way. Its draft is left, or thrown away. -/
  | failed {now : Instant} {c : Store.Call} {x : Writing} {steps : List Step} {g left : Folder}
      (begins : d.begins? now c = some x) (interrupted : Interrupted x.key x.record steps)
      (runs : runSteps x.directory.folder steps = (true, g))
      (draft : left = g ∨ g.remove? base (Paths.draftName x.record.key) = some left) :
      Occurs d t { x.directory with folder := left } t
  /-- Whoever writes dies on the way. -/
  | died {now : Instant} {c : Store.Call} {x : Writing} {steps : List Step} {g : Folder}
      (begins : d.begins? now c = some x) (interrupted : Interrupted x.key x.record steps)
      (runs : runSteps x.directory.folder steps = (true, g)) :
      Occurs d t (openAt g) t
  /-- Whoever writes dies when the draft has taken its place, before that is answered. -/
  | landed {now : Instant} {c : Store.Call} {x : Writing} {g : Folder}
      (begins : d.begins? now c = some x) (signed : x.record.Signed)
      (runs : runSteps x.directory.folder (saving x.key x.record) = (true, g)) :
      Occurs d t (openAt g) (t.set x.key x.record)
  | reopened : Occurs d t (openAt d.folder) t

/-- All that can have happened to a directory since it was opened first. -/
inductive Occurred (f : Folder) : Directory → Table Record → Prop
  | opened : Occurred f (openAt f) {}
  | after {d d' : Directory} {t t' : Table Record} (occurred : Occurred f d t)
      (next : Occurs d t d' t') : Occurred f d' t'

theorem Shelved.interrupted {steps : List Step} (shelved : Shelved d.folder t)
    (begins : d.begins? now c = some x) (interrupted : Interrupted x.key x.record steps)
    (runs : runSteps x.directory.folder steps = (true, g)) :
    checkKey x.record.key = .ok () ∧ Shelved g t := by
  obtain ⟨same, valid, own⟩ := shelved.begins begins
  rw [← own] at valid
  rw [same] at runs
  exact ⟨valid, shelved.spares (interrupted.spares valid runs)⟩

theorem Occurs.shelved (occurs : Occurs d t d' t') (shelved : Shelved d.folder t) :
    Shelved d'.folder t' := by
  cases occurs with
  | call now c signed => exact shelved.call signed
  | failed begins interrupted runs draft =>
    obtain ⟨valid, shelved⟩ := shelved.interrupted begins interrupted runs
    obtain rfl | removed := draft
    · exact shelved
    · exact shelved.spares (remove?_spares (isSingle_draftName valid) removed)
  | died begins interrupted runs => exact (shelved.interrupted begins interrupted runs).2.reopened
  | @landed _ _ x g begins signed runs =>
    obtain ⟨same, valid, own⟩ := shelved.begins begins
    rw [← own] at valid runs ⊢
    have saved : x.directory.save x.record.key x.record =
        (.ok (), { x.directory with folder := g }) := by
      rw [save, runs]
    rw [← same] at shelved
    exact (shelved.saved valid signed saved).reopened
  | reopened => exact shelved.reopened

theorem Occurred.shelved (occurred : Occurred f d t) (ordered : f.entries.Ascending)
    (bare : f.isBare base = true) (free : f.contains base = true → f.isDirectory base = true) :
    Shelved d.folder t := by
  induction occurred with
  | opened => exact .of_bare ordered bare free
  | after _ next ih => exact next.shelved ih

/-- What a directory answers if these records are committed. -/
structure Answers (d : Directory) (t : Table Record) : Prop where
  get : ∀ now key, checkKey key = .ok () →
    (d.perform now (.get key)).1 = (t.get? key).elim (.error (.notFound key)) Record.reread
  /-- A record is read as it is, but for what no document keeps. -/
  whole : ∀ now key r, t.get? key = some r → r.Fits → r.carried = true →
    ((d.perform now (.get key)).1 = .ok r ↔
      r.status.nesting ≤ 126 ∧ r.status.snapshot ≠ some .null ∧
        ∀ i ∈ r.instants, i.isLeap = true → i.seconds % 60 = 59)
  list : ∀ now, ∃ keys, (d.perform now .list).1 = .ok keys ∧ keys.Pairwise (· < ·) ∧
    ∀ key, key ∈ keys ↔ (t.get? key).isSome = true

theorem Shelved.answers (shelved : Shelved d.folder t) : Answers d t := by
  have get (now : Instant) (key : String) (valid : checkKey key = .ok ()) :
      (d.perform now (.get key)).1 =
        (t.get? key).elim (.error (.notFound key)) Record.reread := by
    rw [← shelved.load key]
    simp only [perform, valid]
  refine ⟨get, fun now key r committed fits carried => ?_, fun now => ?_⟩
  · rw [get now key (shelved.valid key r committed), committed, Option.elim_some,
      Record.reread_eq_ok, Record.ofDocument?_document_eq_some fits carried, Record.lasting_iff]
  · exact ⟨t.keys, shelved.keys, List.Pairwise.map _ (fun _ _ before => before) shelved.ascending,
      t.mem_keys⟩

/-- Whatever has happened to a directory, it answers with the records that are committed, also when
it is opened again; and if a write breaks off now, with the same ones but for the record that was
being written, which is the old or the new one. No draft is at the place of a record, and none is
taken for one. -/
theorem crash_safe (ordered : f.entries.Ascending) (bare : f.isBare base = true)
    (free : f.contains base = true → f.isDirectory base = true) (occurred : Occurred f d t) :
    (Answers d t ∧ Answers (openAt d.folder) t) ∧
    (∀ now c x steps g, d.begins? now c = some x →
      Interrupted x.key x.record steps ∨ steps = saving x.key x.record →
      runSteps x.directory.folder steps = (true, g) → x.record.Signed →
      ∃ t', Occurred f (openAt g) t' ∧ Answers (openAt g) t' ∧
        (∀ key, key ≠ x.key → t'.get? key = t.get? key) ∧
        (t'.get? x.key = t.get? x.key ∨ t'.get? x.key = some x.record)) ∧
    ∀ root key, checkKey key = .ok () →
      Paths.keyOf? (Paths.recordFile root key) = some key ∧
      Paths.keyOf? (Paths.draftFile root key) = none ∧
      ∀ other, checkKey other = .ok () →
        (Paths.recordFile root key = Paths.recordFile root other → key = other) ∧
        Paths.recordFile root key ≠ Paths.draftFile root other := by
  have answers {d : Directory} {t : Table Record} (occurred : Occurred f d t) : Answers d t :=
    (occurred.shelved ordered bare free).answers
  refine ⟨⟨answers occurred, answers (occurred.after .reopened)⟩, ?_, ?_⟩
  · rintro now c x steps g begins (interrupted | rfl) runs signed
    · have died := occurred.after (.died begins interrupted runs)
      exact ⟨t, died, answers died, fun _ _ => rfl, .inl rfl⟩
    · have landed := occurred.after (.landed begins signed runs)
      refine ⟨_, landed, answers landed, fun key other => ?_, .inr ?_⟩
      · rw [Table.get?_set, if_neg other]
      · rw [Table.get?_set, if_pos rfl]
  · intro root key valid
    have record := isSingle_recordName valid
    have draft := isSingle_draftName valid
    refine ⟨(Paths.keyOf?_join root record).trans (Paths.keyOf?_recordName valid),
      (Paths.keyOf?_join root draft).trans (Paths.keyOf?_draftName valid), fun other valid' => ?_⟩
    constructor
    · exact fun same =>
        recordName_inj (Paths.join_inj root record (isSingle_recordName valid') same)
    · exact fun same => recordName_ne_draftName key other
        (Paths.join_inj root record (isSingle_draftName valid') same)

end Directory

/-! ## A power cut -/

/-- A record whose name looks like a draft of the keepsake's. -/
def lookalike : Record := Record.blank "zone-a.yaml.tmp" "zone" "live-2" ⟨1767225600, 0⟩

/-- A directory in which a record is created, with the token 7. -/
def shelf (r : Record) : Directory := (emptyDirectory.perform ⟨0, 6000⟩ (.create r)).2

/-- The power fails while the draft of another one is being written. -/
def powerCut (r : Record) : Folder :=
  (Directory.runSteps (shelf r).folder [.write (Paths.draftName lookalike.key) [107, 101]]).2

theorem powerCut_occurred {r w : Record}
    (created : (emptyDirectory.perform ⟨0, 6000⟩ (.create r)).1 = .ok w) (signed : w.Signed)
    (free : (shelf r).holds lookalike.key = false)
    (runs : Directory.runSteps (shelf r).folder
      [.write (Paths.draftName lookalike.key) [107, 101]] = (true, powerCut r)) :
    Directory.Occurred .start (.openAt (powerCut r)) (({} : Table Record).set w.key w) := by
  have wrote : (Store.Call.create r).written? emptyDirectory.stored? ⟨0, 6000⟩
      (emptyDirectory.perform ⟨0, 6000⟩ (.create r)).1 = some w := by
    rw [created]
    rfl
  have first : Directory.Occurred .start emptyDirectory {} := .opened
  have stored := first.after (.call ⟨0, 6000⟩ (.create r) fun v new => by
    rw [wrote] at new
    exact Option.some.inj new ▸ signed)
  rw [Store.Call.committed_of_some wrote] at stored
  have begins : (shelf r).begins? ⟨0, 6000⟩ (.create lookalike) = some _ :=
    if_pos ⟨by decide, free⟩
  exact stored.after (.died begins (.writing [107, 101]) runs)

/-- What was created before the power failed is still there, and nothing else is. -/
theorem powerCut_survived :
    Directory.Occurred .start (.openAt (powerCut keepsake))
        (({} : Table Record).set "zone-a" keepsake) ∧
      ((Directory.openAt (powerCut keepsake)).perform ⟨0, 0⟩ (.get "zone-a")).1 =
        .ok keepsake ∧
      ((Directory.openAt (powerCut keepsake)).perform ⟨0, 0⟩ (.get lookalike.key)).1 =
        .error (.notFound lookalike.key) ∧
      ∃ keys, ((Directory.openAt (powerCut keepsake)).perform ⟨0, 0⟩ .list).1 = .ok keys ∧
        ∀ key, key ∈ keys ↔ key = "zone-a" := by
  have occurred : Directory.Occurred .start (.openAt (powerCut keepsake))
      (({} : Table Record).set "zone-a" keepsake) :=
    powerCut_occurred rfl (Record.signed_of_carried keepsake_fits keepsake_carried) rfl rfl
  obtain ⟨⟨answers, -⟩, -⟩ :=
    Directory.crash_safe (Table.ascending_ofList _) (by decide) (by decide) occurred
  obtain ⟨keys, list, -, committed⟩ := answers.list ⟨0, 0⟩
  refine ⟨occurred, ?_, ?_, keys, list, fun key => ?_⟩
  · exact (answers.whole ⟨0, 0⟩ "zone-a" keepsake rfl keepsake_fits keepsake_carried).2
      ⟨by decide, nofun, by decide⟩
  · exact answers.get ⟨0, 0⟩ lookalike.key (by decide)
  · rw [committed, Table.get?_set]
    by_cases same : key = "zone-a"
    · simp [same]
    · rw [if_neg same]
      exact ⟨nofun, fun zone => absurd zone same⟩

/-- The last completed write of a record is answered with its null snapshot. After the power has
failed in the middle of another write, the record is read without it. -/
theorem powerCut_forgotten :
    Directory.Occurred .start (.openAt (powerCut voidSnapshot))
        (({} : Table Record).set "zone-a" { voidSnapshot with token := 7 }) ∧
      (emptyDirectory.perform ⟨0, 6000⟩ (.create voidSnapshot)).1 =
        .ok { voidSnapshot with token := 7 } ∧
      ((Directory.openAt (powerCut voidSnapshot)).perform ⟨0, 0⟩ (.get "zone-a")).1 =
        .ok { voidSnapshot with token := 7, status := { phase := .synced } } ∧
      ((Directory.openAt (powerCut voidSnapshot)).perform ⟨0, 0⟩ (.get "zone-a")).1 ≠
        .ok { voidSnapshot with token := 7 } := by
  have fits : ({ voidSnapshot with token := 7 } : Record).Fits :=
    voidSnapshot_fits.withToken (by decide)
  have carried : ({ voidSnapshot with token := 7 } : Record).carried = true := by
    rw [Record.carried_eq]
    decide +kernel
  have occurred : Directory.Occurred .start (.openAt (powerCut voidSnapshot))
      (({} : Table Record).set "zone-a" { voidSnapshot with token := 7 }) :=
    powerCut_occurred rfl (Record.signed_of_carried fits carried) rfl rfl
  have answers := (occurred.shelved (Table.ascending_ofList _) (by decide) (by decide)).answers
  have restored : ({ voidSnapshot with token := 7 } : Record).restored =
      { voidSnapshot with token := 7, status := { phase := .synced } } := rfl
  have read : ((Directory.openAt (powerCut voidSnapshot)).perform ⟨0, 0⟩ (.get "zone-a")).1 =
      .ok { voidSnapshot with token := 7, status := { phase := .synced } } := by
    have reread := answers.get ⟨0, 0⟩ "zone-a" (by decide)
    rw [Table.get?_set, if_pos rfl, Option.elim_some] at reread
    rw [reread, Record.reread_eq_ok, Record.ofDocument?_document fits carried,
      if_pos (by decide), restored]
  refine ⟨occurred, rfl, read, ?_⟩
  rw [read]
  intro same
  have snapshots := congrArg (fun r : Record => r.status.snapshot) (Except.ok.inj same)
  cases snapshots

end Tributary
