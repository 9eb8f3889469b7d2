import Tributary.Proofs.Filing
import Tributary.Proofs.Memory

/-!
# A directory as a table of records

A directory `Keeps` a table if its files are the documents of the records of the table and
nothing else. It then answers every call as memory with that table does, whose next token is the
one that the directory issues, and keeps the table that memory is left with (`Keeps.perform`);
only keys that cannot be names of files are refused, and files have to be there to be written.
-/

namespace Tributary

namespace Store.Call

/-- The key that a call is about. -/
def key? : Call → Option String
  | .get key => some key
  | .create r => some r.key
  | .update r => some r.key
  | .updateStatus r => some r.key
  | .delete r => some r.key
  | .list => none

/-- The version that a granted call writes, given what is stored under its key. -/
def written? (stored : String → Option Record) (now : Instant) :
    (c : Call) → Answer c → Option Record
  | .create _, .ok created => some created
  | .update r, .ok token => (stored r.key).map (r.updated · token now)
  | .updateStatus r, .ok token => (stored r.key).map (r.statusUpdated · token)
  | _, _ => none

/-- The token that the answer to a write tells. -/
def told? : (c : Call) → Answer c → Option Nat
  | .create _, .ok created => some created.token
  | .update _, .ok token => some token
  | .updateStatus _, .ok token => some token
  | _, _ => none

end Store.Call

namespace Table

variable {α : Type u}

theorem get?_of_mem {t : Table α} (h : t.Ascending) {key : String} {value : α}
    (mem : (key, value) ∈ t.entries) : t.get? key = some value := by
  obtain ⟨entries⟩ := t
  simp only [Ascending, get?] at h mem ⊢
  induction entries with
  | nil => cases mem
  | cons p rest ih =>
    obtain ⟨before, ascending⟩ := List.pairwise_cons.1 h
    rcases List.mem_cons.1 mem with rfl | later
    · simp [look]
    · have other : key ≠ p.1 := by
        rintro rfl
        exact String.lt_irrefl _ (before (p.1, value) later)
      rw [look, if_neg other, ih ascending later]

theorem pairwise_keys {t : Table α} (h : t.Ascending) : t.keys.Pairwise (· ≤ ·) :=
  List.Pairwise.map _ (fun _ _ before => String.not_lt.1 fun after =>
    String.lt_irrefl _ (String.lt_trans before after)) h

/-- A table lists its keys as they are sorted. -/
theorem mergeSort_eq_keys {t : Table α} (h : t.Ascending) {keys : List String}
    (nodup : keys.Nodup) (same : ∀ key, key ∈ keys ↔ t.contains key = true) :
    (keys.mergeSort fun a b => a ≤ b) = t.keys := by
  have sorted : (keys.mergeSort fun a b => a ≤ b).Pairwise (· ≤ ·) := by
    refine (List.pairwise_mergeSort ?_ ?_ keys).imp fun before => by simpa using before
    · intro a b c ab bc
      simp only [decide_eq_true_eq] at ab bc ⊢
      exact String.le_trans ab bc
    · intro a b
      simpa using String.le_total a b
  have perm : keys.Perm t.keys :=
    (List.perm_ext_iff_of_nodup nodup h.nodup).2 fun key => (same key).trans (t.mem_keys key).symm
  exact ((List.mergeSort_perm _ _).trans perm).eq_of_pairwise
    (fun _ _ _ _ => String.le_antisymm) sorted (pairwise_keys h)

end Table

namespace Folder

variable {f g : Folder}

/-! ## The order of the entries -/

theorem ascending_write? {base : Location} {path : String} {content : List UInt8}
    (h : f.entries.Ascending) (written : f.write? base path content = some g) :
    g.entries.Ascending := by
  simp only [write?, Option.bind_eq_bind, Option.bind_eq_some_iff] at written
  obtain ⟨l, -, written⟩ := written
  split at written
  · exact Option.some.inj written ▸ h.set _ _
  · exact Option.some.inj written ▸ h.set _ _

theorem ascending_protect? {base : Location} {path : String} {mode : Nat}
    (h : f.entries.Ascending) (protected_ : f.protect? base path mode = some g) :
    g.entries.Ascending := by
  simp only [protect?, Option.bind_eq_bind, Option.bind_eq_some_iff] at protected_
  obtain ⟨t, -, protected_⟩ := protected_
  split at protected_
  · split at protected_
    · cases protected_
    · exact Option.some.inj protected_ ▸ h.set _ _
  · exact Option.some.inj protected_ ▸ h.set _ _
  · cases protected_

theorem ascending_rename? {base : Location} {path newPath : String}
    (h : f.entries.Ascending) (renamed : f.rename? base path newPath = some g) :
    g.entries.Ascending := by
  simp only [rename?, Option.bind_eq_bind, Option.bind_eq_some_iff] at renamed
  obtain ⟨s, -, t, -, renamed⟩ := renamed
  split at renamed
  · cases renamed
  · split at renamed
    · split at renamed
      · cases renamed
      · exact Option.some.inj renamed ▸ (h.erase _).set _ _
    · split at renamed
      · exact Option.some.inj renamed ▸ h
      · split at renamed
        · cases renamed
        · split at renamed
          · exact Option.some.inj renamed ▸ Table.ascending_ofList _
          · cases renamed
    · cases renamed

theorem isFixed_append (name : String) : Location.isFixed (Directory.base ++ [name]) = false := by
  simp [Location.isFixed, Directory.base, Paths.records]

theorem toList_name (name : String) :
    (Directory.base ++ [name]).name.toList =
      (Directory.base.name ++ "/").toList ++ name.toList := by
  simp [Directory.base, Location.name, String.intercalate_cons_cons]

/-- What a file name is listed for: the entry of that name in the directory. -/
theorem listed_iff {text : String} {entry : Entry} {name : String} :
    (match (text, entry) with
      | (name, .file ..) =>
        if (Directory.base.name ++ "/").toList.isPrefixOf name.toList then
          let rest := name.toList.drop (Directory.base.name ++ "/").toList.length
          if rest.contains '/' then none else some (String.ofList rest)
        else none
      | (_, .directory _) => none) = some name ↔
      '/' ∉ name.toList ∧ text = (Directory.base ++ [name]).name ∧
        ∃ mode content, entry = .file mode content := by
  cases entry with
  | directory mode => simp
  | file mode content =>
    simp only [List.isPrefixOf_iff_prefix, List.prefix_iff_eq_append]
    constructor
    · intro listed
      split at listed
      · next start =>
        split at listed
        · cases listed
        · next no_slash =>
          obtain rfl := Option.some.inj listed
          refine ⟨by simpa using no_slash, ?_, mode, content, rfl⟩
          rw [← String.toList_inj, toList_name, String.toList_ofList, start]
      · cases listed
    · rintro ⟨no_slash, rfl, -⟩
      rw [toList_name, List.drop_left, if_pos rfl, if_neg (by simpa using no_slash),
        String.ofList_toList]

/-- The files that are right in a directory. -/
theorem mem_fileNames (h : f.entries.Ascending) {name : String} :
    name ∈ f.fileNames Directory.base ↔
      '/' ∉ name.toList ∧
        ∃ mode content, f.entry? (Directory.base ++ [name]) = some (.file mode content) := by
  rw [fileNames, List.mem_filterMap]
  constructor
  · rintro ⟨⟨text, entry⟩, mem, listed⟩
    obtain ⟨no_slash, rfl, mode, content, rfl⟩ := listed_iff.1 listed
    exact ⟨no_slash, mode, content, Table.get?_of_mem h mem⟩
  · rintro ⟨no_slash, mode, content, found⟩
    exact ⟨_, Table.mem_of_get? found, listed_iff.2 ⟨no_slash, rfl, mode, content, rfl⟩⟩

theorem nodup_fileNames (h : f.entries.Ascending) : (f.fileNames Directory.base).Nodup := by
  rw [fileNames, List.Nodup, List.pairwise_filterMap]
  refine List.Pairwise.imp ?_ h
  rintro ⟨text, entry⟩ ⟨text', entry'⟩ before name listed name' listed' same
  have first := (listed_iff.1 listed).2.1
  have second := (listed_iff.1 listed').2.1
  rw [first, second, same] at before
  exact String.lt_irrefl _ before

end Folder

namespace Paths

variable {name key : String}

theorem fileName?_of_isSingle (single : Folder.IsSingle name) :
    fileName? name = some name.toList := by
  have other {dots : List Char} (apart : name ≠ String.ofList dots) : name.toList ≠ dots :=
    fun same => apart (by rw [← same, String.ofList_toList])
  have nonempty : name.toList ≠ [] := other single.nonempty
  have no_dot : name.toList ≠ ['.'] := other single.no_dots.1
  have no_dots : name.toList ≠ ['.', '.'] := other single.no_dots.2
  simp [fileName?, parts, List.splitOn_eq_singleton single.no_slash, nonempty, no_dot, no_dots]

/-- The names of the files of records. -/
theorem keyOfName?_eq_some {letters : List Char} :
    keyOfName? letters = some key ↔
      letters = (recordName key).toList ∧ key ≠ "" ∧ key.toList.head? ≠ some '.' := by
  have stem : (recordName key).toList = key.toList ++ recordEnding := by
    rw [recordName, String.toList_append]
    rfl
  rw [stem]
  constructor
  · intro found
    unfold keyOfName? at found
    split at found
    · next ends =>
      obtain ⟨before, rfl⟩ := List.isSuffixOf_iff_suffix.1 ends
      rw [List.length_append, Nat.add_sub_cancel, List.take_left] at found
      dsimp only at found
      split at found
      · cases found
      · next proper =>
        obtain rfl := Option.some.inj found
        simpa using proper
    · cases found
  · rintro ⟨rfl, nonempty, no_dot⟩
    simp [keyOfName?, List.isSuffixOf_iff_suffix, nonempty, no_dot]

theorem keyOf?_recordName (valid : Directory.checkKey key = .ok ()) :
    keyOf? (recordName key) = some key := by
  obtain ⟨nonempty, -, no_dot⟩ := Directory.checkKey_eq_ok.1 valid
  rw [keyOf?, fileName?_of_isSingle (Directory.isSingle_recordName valid), Option.bind_some]
  exact keyOfName?_eq_some.2 ⟨rfl, nonempty, no_dot⟩

/-- A file right in the directory is taken for the record of a key only by its name. -/
theorem eq_recordName_of_keyOf? (no_slash : '/' ∉ name.toList) (h : keyOf? name = some key) :
    name = recordName key := by
  unfold keyOf? fileName? parts at h
  rw [List.splitOn_eq_singleton no_slash] at h
  obtain ⟨letters, found, named⟩ := Option.bind_eq_some_iff.1 h
  obtain ⟨last, -⟩ := Option.filter_eq_some_iff.1 found
  obtain rfl : letters = name.toList :=
    List.mem_singleton.1 (List.mem_filter.1 (List.mem_of_getLast? last)).1
  exact String.toList_inj.1 (keyOfName?_eq_some.1 named).1

end Paths

namespace Directory

open Folder

variable {d d' : Directory} {f : Folder} {t : Table Record}

/-- A record lies under its key, as a document from which it is read back as it is. -/
structure Kept (f : Folder) (key : String) (r : Record) : Prop where
  valid : checkKey key = .ok ()
  own : r.key = key
  there : f.entry? (place key) = some (filed r)
  readable : Record.ofDocument? r.document = some r

/-- The files of a directory are the documents of the records of a table, and nothing else. -/
structure Keeps (f : Folder) (t : Table Record) : Prop where
  ordered : f.entries.Ascending
  ascending : t.Ascending
  kept : ∀ key r, t.get? key = some r → Kept f key r
  only : ∀ name, f.entry? (base ++ [name]) ≠ none →
    ∃ key, t.contains key = true ∧ name = Paths.recordName key

theorem save_error {key : String} {r : Record} {e : StoreError}
    (h : (d.save key r).1 = .error e) : e = .unreachable := by
  unfold save at h
  split at h
  · cases h
  · exact (Except.error.inj h).symm

@[simp] theorem lastToken_save (key : String) (r : Record) :
    (d.save key r).2.lastToken = d.lastToken := by
  unfold save
  split <;> rfl

theorem ascending_runs {g : Folder} {steps : List Step} {complete : Bool}
    (h : f.entries.Ascending) (runs : runSteps f steps = (complete, g)) : g.entries.Ascending := by
  induction steps generalizing f with
  | nil => exact (Prod.mk.inj runs).2 ▸ h
  | cons s rest ih =>
    rw [runSteps] at runs
    cases step : s.run? f with
    | none =>
      simp only [step] at runs
      exact (Prod.mk.inj runs).2 ▸ h
    | some f' =>
      simp only [step] at runs
      refine ih ?_ runs
      cases s with
      | write => exact ascending_write? h step
      | protect => exact ascending_protect? h step
      | rename => exact ascending_rename? h step

/-! ## Reading -/

/-- The keys are those of a table if just its keys name files of records. -/
theorem keys_eq (ordered : d.folder.entries.Ascending) (ascending : t.Ascending)
    (there : (d.folder.contains base && !d.folder.isDirectory base) = false)
    (files : ∀ key, Paths.keyOf? (Paths.recordName key) = some key ∧
      Paths.recordName key ∈ d.folder.fileNames base ↔ t.contains key = true) :
    d.keys = .ok t.keys := by
  have named {name key : String} (mem : name ∈ d.folder.fileNames base)
      (listed : Paths.keyOf? name = some key) : name = Paths.recordName key :=
    Paths.eq_recordName_of_keyOf? ((mem_fileNames ordered).1 mem).1 listed
  rw [Directory.keys, there, if_neg Bool.false_ne_true, Table.mergeSort_eq_keys ascending]
  · rw [List.Nodup, List.pairwise_filterMap]
    refine List.Pairwise.imp_of_mem ?_ (nodup_fileNames ordered)
    intro name name' mem mem' other key listed key' listed' same
    exact other ((named mem listed).trans (same ▸ (named mem' listed').symm))
  · intro key
    rw [List.mem_filterMap, ← files]
    constructor
    · rintro ⟨name, mem, listed⟩
      obtain rfl := named mem listed
      exact ⟨listed, mem⟩
    · rintro ⟨listed, mem⟩
      exact ⟨_, mem, listed⟩

namespace Keeps

theorem valid (keeps : Keeps f t) {key : String} (stored : t.contains key = true) :
    checkKey key = .ok () := by
  obtain ⟨r, found⟩ := Option.isSome_iff_exists.1 stored
  exact (keeps.kept key r found).valid

theorem holds (keeps : Keeps d.folder t) (key : String) : d.holds key = t.contains key := by
  rw [Directory.holds, Folder.contains, place, isFixed_append, Bool.false_or]
  cases stored : t.get? key with
  | some r =>
    have there := (keeps.kept key r stored).there
    rw [place] at there
    simp [there, Table.contains, stored]
  | none =>
    have absent : t.contains key = false := by simp [Table.contains, stored]
    rw [absent, Option.isSome_eq_false_iff, Option.isNone_iff_eq_none]
    refine Decidable.not_not.1 fun there => ?_
    obtain ⟨other, stored', same⟩ := keeps.only _ there
    rw [recordName_inj same, stored'] at absent
    cases absent

theorem load (keeps : Keeps d.folder t) (key : String) (token : Nat) :
    d.load key = Memory.find ⟨t, token⟩ key := by
  unfold Memory.find
  cases stored : t.get? key with
  | some r =>
    have kept := keeps.kept key r stored
    rw [load_of_filed kept.there, kept.readable]
    simp
  | none =>
    rw [Directory.load, keeps.holds, Table.contains, stored]
    simp

theorem current (keeps : Keeps d.folder t) {r : Record} (valid : checkKey r.key = .ok ())
    (token : Nat) : d.current r = Memory.current ⟨t, token⟩ r := by
  rw [Directory.current, Memory.current, valid, keeps.load r.key token]
  rfl

theorem keys (keeps : Keeps d.folder t) (reachable : d.keys ≠ .error .unreachable) :
    d.keys = .ok t.keys := by
  have there : (d.folder.contains base && !d.folder.isDirectory base) = false := by
    unfold Directory.keys at reachable
    split at reachable
    · exact absurd rfl reachable
    · next there => simpa using there
  refine keys_eq keeps.ordered keeps.ascending there fun key => ⟨?_, fun stored => ?_⟩
  · rintro ⟨-, mem⟩
    obtain ⟨-, mode, content, found⟩ := (mem_fileNames keeps.ordered).1 mem
    obtain ⟨other, stored, same⟩ := keeps.only (Paths.recordName key) (by simp [found])
    obtain rfl := recordName_inj same
    exact stored
  · obtain ⟨r, found⟩ := Option.isSome_iff_exists.1 stored
    have kept := keeps.kept key r found
    exact ⟨Paths.keyOf?_recordName kept.valid, (mem_fileNames keeps.ordered).2
      ⟨(isSingle_recordName kept.valid).no_slash, _, _, kept.there⟩⟩

/-! ## Writing -/

theorem save (keeps : Keeps d.folder t) {r : Record} (valid : checkKey r.key = .ok ())
    (readable : Record.ofDocument? r.document = some r) (saved : d.save r.key r = (.ok (), d')) :
    Keeps d'.folder (t.set r.key r) := by
  obtain ⟨-, -, after⟩ := saved_of_save valid saved
  refine ⟨ascending_runs keeps.ordered (runs_of_save saved).2, keeps.ascending.set _ _, ?_, ?_⟩
  · intro key v stored
    rw [Table.get?_set] at stored
    split at stored
    · next same =>
      obtain rfl := Option.some.inj stored
      exact ⟨same ▸ valid, same.symm, by rw [same, after, if_pos rfl], readable⟩
    · next other =>
      have kept := keeps.kept key v stored
      refine ⟨kept.valid, kept.own, ?_, kept.readable⟩
      rw [after, if_neg fun same => other (place_inj same), if_neg (place_ne_draft key r.key)]
      exact kept.there
  · intro name there
    rw [after] at there
    split at there
    · next same => exact ⟨r.key, by simp [Table.contains], name_inj same⟩
    · split at there
      · exact absurd rfl there
      · obtain ⟨key, stored, rfl⟩ := keeps.only name there
        refine ⟨key, ?_, rfl⟩
        rw [Table.contains, Table.get?_set]
        split
        · rfl
        · exact stored

theorem remove (keeps : Keeps f t) {key : String} (valid : checkKey key = .ok ()) {g : Folder}
    (removed : f.remove? base (Paths.recordName key) = some g) : Keeps g (t.erase key) := by
  obtain rfl := remove?_single (isSingle_recordName valid) removed
  have after (l : Location) :
      Folder.entry? ⟨f.entries.erase (place key).name⟩ l =
        if l.name = (place key).name then none else f.entry? l :=
    Table.get?_erase _ _ _
  refine ⟨keeps.ordered.erase _, keeps.ascending.erase _, ?_, ?_⟩
  · intro other v stored
    rw [Table.get?_erase] at stored
    split at stored
    · cases stored
    · next apart =>
      have kept := keeps.kept other v stored
      refine ⟨kept.valid, kept.own, ?_, kept.readable⟩
      exact (after _).trans ((if_neg fun same => apart (place_inj same)).trans kept.there)
  · intro name there
    rw [show (⟨f.entries.erase (base ++ [Paths.recordName key]).name⟩ : Folder) =
      ⟨f.entries.erase (place key).name⟩ from rfl, after] at there
    split at there
    · exact absurd rfl there
    · next apart =>
      obtain ⟨other, stored, rfl⟩ := keeps.only name there
      refine ⟨other, ?_, rfl⟩
      rw [Table.contains, Table.get?_erase, if_neg]
      · exact stored
      · rintro rfl
        exact apart rfl

/-- Opening the directory again leaves its records. -/
theorem openAt (keeps : Keeps f t) : Keeps (Directory.openAt f).folder t := by
  unfold Directory.openAt
  split
  · exact keeps
  · refine ⟨keeps.ordered.set _ _, keeps.ascending, ?_, ?_⟩
    · intro key r stored
      have kept := keeps.kept key r stored
      refine ⟨kept.valid, kept.own, ?_, kept.readable⟩
      rw [entry?_put, if_neg fun same => base_ne _ same.symm]
      exact kept.there
    · intro name there
      rw [entry?_put, if_neg fun same => base_ne _ same.symm] at there
      exact keeps.only name there

/-- A directory without files has no records. -/
theorem of_bare (ordered : f.entries.Ascending) (bare : f.isBare base = true) : Keeps f {} := by
  refine ⟨ordered, Table.ascending_empty, fun key r stored => ?_, fun name there => ?_⟩
  · rw [show ({} : Table Record).get? key = none from rfl] at stored
    cases stored
  · have mem : (base ++ [name]).name ∈ f.entries.keys :=
      (Table.mem_keys _ _).2 (Option.isSome_iff_ne_none.2 there)
    have apart := List.all_eq_true.1 bare _ mem
    rw [isBelow, toList_name, List.isPrefixOf_iff_prefix.2 (List.prefix_append ..)] at apart
    cases apart

end Keeps

/-! ## Tokens -/

theorem lastToken_create (now : Instant) {r : Record} (valid : checkKey r.key = .ok ()) :
    (d.create now r).2.lastToken = (d.issue now 0).1 := by
  simp only [create, valid]
  split
  · rfl
  · have kept := lastToken_save (d := (d.issue now 0).2) r.key { r with token := (d.issue now 0).1 }
    cases saved : (d.issue now 0).2.save r.key { r with token := (d.issue now 0).1 } with
    | mk answer after =>
      rw [saved] at kept
      cases answer <;> exact kept

theorem lastToken_replace (now : Instant) (key : String) (stored : Record) (make : Nat → Record) :
    (d.replace now key stored make).2.lastToken = (d.issue now stored.token).1 := by
  simp only [replace]
  have kept := lastToken_save (d := (d.issue now stored.token).2) key
    (make (d.issue now stored.token).1)
  cases saved : (d.issue now stored.token).2.save key (make (d.issue now stored.token).1) with
  | mk answer after =>
    rw [saved] at kept
    cases answer <;> exact kept

/-! ## Calls -/

/-- The directory has answered what memory answers, and keeps what memory is left with. -/
def Mirrors {α : Type} (x : Except StoreError α × Directory) (y : Except StoreError α × Memory) :
    Prop :=
  x.1 = y.1 ∧ Keeps x.2.folder y.2.records

namespace Keeps

variable {now : Instant}

theorem create (keeps : Keeps d.folder t) {r : Record} (valid : checkKey r.key = .ok ())
    (reachable : (d.create now r).1 ≠ .error .unreachable)
    (readable : ∀ v, (d.create now r).1 = .ok v → Record.ofDocument? v.document = some v) :
    Mirrors (d.create now r) (Memory.create ⟨t, (d.create now r).2.lastToken⟩ r) := by
  rw [lastToken_create now valid]
  have keeps' : Keeps (d.issue now 0).2.folder t := keeps
  simp only [Directory.create, valid, keeps'.holds] at reachable readable ⊢
  unfold Memory.create
  cases stored : t.contains r.key with
  | true => exact ⟨rfl, keeps⟩
  | false =>
    simp only [stored, Bool.false_eq_true, if_false] at reachable readable ⊢
    cases saved : (d.issue now 0).2.save r.key { r with token := (d.issue now 0).1 } with
    | mk answer after =>
      rw [saved] at reachable readable
      cases answer with
      | error e =>
        have refused : e = .unreachable := save_error (congrArg Prod.fst saved)
        exact absurd (congrArg Except.error refused) reachable
      | ok =>
        exact ⟨rfl, keeps'.save (r := { r with token := (d.issue now 0).1 }) valid (readable _ rfl)
          saved⟩

theorem replace (keeps : Keeps d.folder t) {key : String} {stored : Record} {make : Nat → Record}
    (valid : checkKey key = .ok ()) (own : ∀ n, (make n).key = key)
    (reachable : (d.replace now key stored make).1 ≠ .error .unreachable)
    (readable : ∀ n, (d.replace now key stored make).1 = .ok n →
      Record.ofDocument? (make n).document = some (make n)) :
    Mirrors (d.replace now key stored make)
      (.ok (d.replace now key stored make).2.lastToken,
        Memory.put ⟨t, (d.replace now key stored make).2.lastToken⟩
          (make (d.replace now key stored make).2.lastToken)) := by
  rw [lastToken_replace]
  have keeps' : Keeps (d.issue now stored.token).2.folder t := keeps
  simp only [Directory.replace] at reachable readable ⊢
  generalize d.issue now stored.token = issued at *
  obtain ⟨token, d₁⟩ := issued
  obtain rfl := own token
  dsimp only at *
  cases saved : d₁.save (make token).key (make token) with
  | mk answer after =>
    rw [saved] at reachable readable
    cases answer with
    | error e =>
      have refused : e = .unreachable := save_error (congrArg Prod.fst saved)
      exact absurd (congrArg Except.error refused) reachable
    | ok => exact ⟨rfl, keeps'.save valid (readable token rfl) saved⟩

theorem update (keeps : Keeps d.folder t) {r : Record} (valid : checkKey r.key = .ok ())
    (reachable : (d.update now r).1 ≠ .error .unreachable)
    (readable : ∀ v ∈ (Store.Call.update r).written? t.get? now (d.update now r).1,
      Record.ofDocument? v.document = some v) :
    Mirrors (d.update now r) (Memory.update ⟨t, (d.update now r).2.lastToken⟩ now r) := by
  unfold Memory.update
  rw [← keeps.current valid]
  cases found : d.current r with
  | error e =>
    simp only [Directory.update, found]
    exact ⟨rfl, keeps⟩
  | ok stored =>
    have there : t.get? r.key = some stored :=
      (Memory.current_eq_ok.1 ((keeps.current valid 0).symm.trans found)).1
    simp only [Directory.update, found] at reachable readable ⊢
    refine keeps.replace valid (fun _ => rfl) reachable fun n answer => readable _ ?_
    simp [Store.Call.written?, answer, there]

theorem updateStatus (keeps : Keeps d.folder t) {r : Record} (valid : checkKey r.key = .ok ())
    (reachable : (d.updateStatus now r).1 ≠ .error .unreachable)
    (readable : ∀ v ∈ (Store.Call.updateStatus r).written? t.get? now (d.updateStatus now r).1,
      Record.ofDocument? v.document = some v) :
    Mirrors (d.updateStatus now r)
      (Memory.updateStatus ⟨t, (d.updateStatus now r).2.lastToken⟩ r) := by
  unfold Memory.updateStatus
  rw [← keeps.current valid]
  cases found : d.current r with
  | error e =>
    simp only [Directory.updateStatus, found]
    exact ⟨rfl, keeps⟩
  | ok stored =>
    have there : t.get? r.key = some stored :=
      (Memory.current_eq_ok.1 ((keeps.current valid 0).symm.trans found)).1
    simp only [Directory.updateStatus, found] at reachable readable ⊢
    refine keeps.replace valid (fun _ => (keeps.kept _ _ there).own) reachable
      fun n answer => readable _ ?_
    simp [Store.Call.written?, answer, there]

theorem delete (keeps : Keeps d.folder t) {r : Record} (valid : checkKey r.key = .ok ())
    (reachable : (d.delete r).1 ≠ .error .unreachable) (token : Nat) :
    Mirrors (d.delete r) (Memory.delete ⟨t, token⟩ r) := by
  unfold Memory.delete
  rw [← keeps.current valid]
  unfold Directory.delete at reachable ⊢
  cases found : d.current r with
  | error e => exact ⟨rfl, keeps⟩
  | ok stored =>
    simp only [found] at reachable ⊢
    cases released : stored.checkReleased r.key with
    | error e => exact ⟨rfl, keeps⟩
    | ok =>
      simp only [released] at reachable ⊢
      cases removed : d.folder.remove? base (Paths.recordName r.key) with
      | none => simp [removed] at reachable
      | some folder => exact ⟨rfl, keeps.remove valid removed⟩

/-- A directory answers a call with a valid key as memory with its records does, whose next token
is the one that the directory issues, and then keeps the records that memory is left with. -/
theorem perform (keeps : Keeps d.folder t) {c : Store.Call}
    (valid : ∀ key ∈ c.key?, checkKey key = .ok ())
    (reachable : (d.perform now c).1 ≠ .error .unreachable)
    (readable : ∀ v ∈ c.written? t.get? now (d.perform now c).1,
      Record.ofDocument? v.document = some v) :
    Mirrors (d.perform now c) (Memory.perform ⟨t, (d.perform now c).2.lastToken⟩ now c) := by
  cases c with
  | get key =>
    simp only [Mirrors, Directory.perform, valid key rfl, Memory.perform]
    exact ⟨keeps.load key _, keeps⟩
  | create r =>
    refine keeps.create (valid _ rfl) reachable fun v answer => readable v ?_
    rw [show (d.perform now (.create r)).1 = .ok v from answer]
    rfl
  | update r => exact keeps.update (valid _ rfl) reachable readable
  | updateStatus r => exact keeps.updateStatus (valid _ rfl) reachable readable
  | delete r => exact keeps.delete (valid _ rfl) reachable _
  | list => exact ⟨keeps.keys reachable, keeps⟩

end Keeps

/-- A key that cannot name a file is refused before anything else happens. -/
theorem perform_invalid {now : Instant} {c : Store.Call} {key : String} (about : c.key? = some key)
    {e : StoreError} (invalid : checkKey key = .error e) : d.perform now c = (.error e, d) := by
  cases c with
  | list => cases about
  | get other =>
    obtain rfl := Option.some.inj about
    simp only [perform, invalid]
  | create r =>
    obtain rfl := Option.some.inj about
    simp only [perform, create, invalid]
  | update r =>
    obtain rfl := Option.some.inj about
    simp only [perform, update, current, invalid, bind, Except.bind]
  | updateStatus r =>
    obtain rfl := Option.some.inj about
    simp only [perform, updateStatus, current, invalid, bind, Except.bind]
  | delete r =>
    obtain rfl := Option.some.inj about
    simp only [perform, delete, current, invalid, bind, Except.bind]

theorem lt_issue (now : Instant) (floor : Nat) :
    max d.lastToken now.micros.toNat < (d.issue now floor).1 := by
  have next : (d.issue now floor).1 = max d.lastToken (max now.micros.toNat floor) + 1 := rfl
  omega

/-- Nothing is written without a new token, and a new token is above the last one and not behind
the clock. -/
theorem lastToken_perform (d : Directory) (now : Instant) (c : Store.Call) :
    (d.perform now c).2.lastToken = d.lastToken ∧ c.told? (d.perform now c).1 = none ∨
      max d.lastToken now.micros.toNat < (d.perform now c).2.lastToken := by
  cases c with
  | get key =>
    refine .inl ⟨?_, rfl⟩
    simp only [perform]
    split <;> rfl
  | list => exact .inl ⟨rfl, rfl⟩
  | create r =>
    cases valid : checkKey r.key with
    | error e =>
      rw [perform_invalid rfl valid]
      exact .inl ⟨rfl, rfl⟩
    | ok =>
      right
      rw [show (d.perform now (.create r)).2.lastToken = _ from lastToken_create now valid]
      exact lt_issue now 0
  | update r =>
    simp only [perform, update]
    cases d.current r with
    | error e => exact .inl ⟨rfl, rfl⟩
    | ok stored =>
      right
      rw [lastToken_replace]
      exact lt_issue now _
  | updateStatus r =>
    simp only [perform, updateStatus]
    cases d.current r with
    | error e => exact .inl ⟨rfl, rfl⟩
    | ok stored =>
      right
      rw [lastToken_replace]
      exact lt_issue now _
  | delete r =>
    refine .inl ⟨?_, by cases (d.perform now (.delete r)).1 <;> rfl⟩
    simp only [perform, delete]
    split
    · rfl
    · split
      · rfl
      · split <;> rfl

end Directory

end Tributary
