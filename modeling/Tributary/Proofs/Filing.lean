import Tributary.Store.Directory

/-!
# How records are filed

The keys that a directory takes are names of their own, so that the draft and the document of a
record lie side by side below the directory, and no two records share one of them. A record that
is saved lies in its place as its document, no draft is left, and nothing else has changed
(`Directory.saved_of_save`); reading it back decodes that document.
-/

namespace Tributary

/-! ## Texts as bytes -/

theorem toList_loop (bytes : ByteArray) (i : Nat) (before : List UInt8) :
    ByteArray.toList.loop bytes i before = before.reverse ++ bytes.data.toList.drop i := by
  induction h : bytes.size - i generalizing i before with
  | zero =>
    have done : bytes.data.toList.length ≤ i := by
      have : bytes.data.toList.length = bytes.size := rfl
      omega
    rw [ByteArray.toList.loop, if_neg (by omega), List.drop_of_length_le done, List.append_nil]
  | succ n ih =>
    have more : i < bytes.size := by omega
    have more' : i < bytes.data.toList.length := more
    rw [ByteArray.toList.loop, if_pos more, ih (i + 1) _ (by omega),
      List.drop_eq_getElem_cons more', List.reverse_cons, List.append_assoc, List.singleton_append]
    congr 2
    simp [ByteArray.get!, more]

theorem toList_byteArray (bytes : ByteArray) : bytes.toList = bytes.data.toList := by
  rw [ByteArray.toList, toList_loop]
  rfl

/-- The bytes of a text are those of no other. -/
theorem fromUTF8?_toUTF8 (s : String) : String.fromUTF8? ⟨s.toUTF8.toList.toArray⟩ = some s := by
  rw [toList_byteArray, Array.toArray_toList, String.fromUTF8?]
  exact dif_pos s.isValidUTF8

/-! ## Names -/

namespace Folder

/-- A name that a path can consist of, and that leads into no other directory. -/
structure IsSingle (name : String) : Prop where
  nonempty : name ≠ ""
  no_slash : '/' ∉ name.toList
  no_dots : name ≠ "." ∧ name ≠ ".."

variable {f g : Folder} {base : Location} {name : String}

theorem parts_of_isSingle (h : IsSingle name) : parts name = [name] := by
  rw [parts, List.splitOn_eq_singleton h.no_slash]
  simp [h.nonempty]

/-- A single name leads to the place of that name in the directory. -/
theorem follow?_single (h : IsSingle name) :
    f.follow? base name =
      if isPath name && f.isDirectory base && isName name then some ⟨base ++ [name], false, true⟩
      else none := by
  have relative : Paths.isAbsolute name = false := by
    rw [Paths.isAbsolute, decide_eq_false_iff_not]
    intro slash
    exact h.no_slash (List.mem_of_head? slash)
  have unended : ¬ name.toList.getLast? = some '/' := fun slash =>
    h.no_slash (List.mem_of_getLast? slash)
  have named : ¬ (name = "." ∨ name = "..") := fun dots => dots.elim h.no_dots.1 h.no_dots.2
  simp only [follow?, relative, parts_of_isSingle h, Bool.false_eq_true, if_false]
  cases isPath name with
  | false => simp
  | true =>
    cases f.isDirectory base with
    | false => simp
    | true =>
      simp [named, unended]

theorem entry?_put (l k : Location) (e : Entry) :
    entry? (f.put l e) k = if k.name = l.name then some e else f.entry? k :=
  Table.get?_set f.entries l.name k.name e

theorem contains_of_isDirectory {l : Location} (h : f.isDirectory l = true) :
    f.contains l = true := by
  unfold isDirectory at h
  unfold contains
  cases found : f.entry? l with
  | none => simpa [found] using h
  | some e => simp

/-! ## Changes of one place -/

theorem filePlace?_single (h : IsSingle name) {l : Location}
    (found : f.filePlace? base name = some l) :
    l = base ++ [name] ∧ f.isDirectory base = true := by
  rw [filePlace?, follow?_single h] at found
  split at found
  · next there =>
    simp only [Bool.and_eq_true] at there
    simp only [Option.bind_eq_bind, Option.bind_some, Bool.false_or] at found
    split at found
    · cases found
    · exact ⟨(Option.some.inj found).symm, there.1.2⟩
  · cases found

theorem write?_single (h : IsSingle name) {content : List UInt8}
    (written : f.write? base name content = some g) :
    f.isDirectory base = true ∧ ∃ mode, g = f.put (base ++ [name]) (.file mode content) := by
  rw [write?] at written
  cases place : f.filePlace? base name with
  | none => simp [place] at written
  | some l =>
    obtain ⟨rfl, there⟩ := filePlace?_single h place
    refine ⟨there, ?_⟩
    simp only [place, Option.bind_eq_bind, Option.bind_some] at written
    split at written
    · exact ⟨_, (Option.some.inj written).symm⟩
    · exact ⟨_, (Option.some.inj written).symm⟩

theorem protect?_single (h : IsSingle name) {mode old : Nat} {content : List UInt8}
    (file : f.entry? (base ++ [name]) = some (.file old content))
    (protected_ : f.protect? base name mode = some g) :
    g = f.put (base ++ [name]) (.file mode content) := by
  rw [protect?, follow?_single h] at protected_
  split at protected_
  · simpa [file] using protected_.symm
  · cases protected_

theorem rename?_single {other : String} (h : IsSingle name) (k : IsSingle other) {mode : Nat}
    {content : List UInt8} (file : f.entry? (base ++ [name]) = some (.file mode content))
    (renamed : f.rename? base name other = some g) :
    g = Folder.put ⟨f.entries.erase (base ++ [name]).name⟩ (base ++ [other])
      (.file mode content) := by
  rw [rename?, follow?_single h, follow?_single k] at renamed
  split at renamed
  · split at renamed
    · simp only [Option.bind_eq_bind, Option.bind_some, file] at renamed
      simp at renamed
      exact renamed.2.symm
    · cases renamed
  · cases renamed

theorem remove?_single (h : IsSingle name) (removed : f.remove? base name = some g) :
    g = ⟨f.entries.erase (base ++ [name]).name⟩ := by
  rw [remove?] at removed
  cases place : f.filePlace? base name with
  | none => simp [place] at removed
  | some l =>
    obtain ⟨rfl, -⟩ := filePlace?_single h place
    simp only [place, Option.bind_eq_bind, Option.bind_some, Option.map_eq_some_iff] at removed
    obtain ⟨_, _, rfl⟩ := removed
    rfl

end Folder

namespace Directory

open Folder

/-! ## Keys -/

theorem checkKey_eq_ok {key : String} :
    checkKey key = .ok () ↔
      key ≠ "" ∧ (∀ c ∈ key.toList, ¬ (c = '/' ∨ c = '\\')) ∧ key.toList.head? ≠ some '.' := by
  unfold checkKey
  split
  · next empty => simp [empty]
  · next nonempty =>
    split
    · next separated =>
      simp only [List.any_eq_true, decide_eq_true_eq] at separated
      obtain ⟨c, mem, mark⟩ := separated
      simp only [reduceCtorEq, false_iff]
      exact fun valid => valid.2.1 c mem mark
    · next unseparated =>
      have no_mark : ∀ c ∈ key.toList, ¬ (c = '/' ∨ c = '\\') := by
        simpa [List.any_eq_true] using unseparated
      split
      · next dot => simp [dot]
      · next no_dot => simpa [nonempty, no_dot] using no_mark

theorem isSingle_append {key ending : String} (valid : checkKey key = .ok ())
    (no_slash : '/' ∉ ending.toList) : IsSingle (key ++ ending) := by
  obtain ⟨nonempty, no_mark, no_dot⟩ := checkKey_eq_ok.1 valid
  have letters : key.toList ≠ [] := fun h => nonempty (String.toList_eq_nil_iff.1 h)
  obtain ⟨c, rest, start⟩ := List.exists_cons_of_ne_nil letters
  have first : c ≠ '.' := fun dot => no_dot (by rw [start, dot]; rfl)
  have other {dots : String} (h : dots.toList.head? = some '.') : key ++ ending ≠ dots := by
    intro same
    rw [← same, String.toList_append, start] at h
    exact first (Option.some.inj h)
  constructor
  · intro empty
    have := congrArg String.toList empty
    simp [start] at this
  · rw [String.toList_append, List.mem_append]
    rintro (mem | mem)
    · exact no_mark '/' mem (.inl rfl)
    · exact no_slash mem
  · exact ⟨other rfl, other rfl⟩

theorem isSingle_recordName {key : String} (valid : checkKey key = .ok ()) :
    IsSingle (Paths.recordName key) :=
  isSingle_append valid (by decide)

theorem isSingle_draftName {key : String} (valid : checkKey key = .ok ()) :
    IsSingle (Paths.draftName key) :=
  isSingle_append valid (by decide)

/-! ## Places -/

/-- What has one name in the directory of the records is at one place. -/
theorem name_inj {name other : String} (h : (base ++ [name]).name = (base ++ [other]).name) :
    name = other := by
  have same := congrArg String.toList h
  simp only [base, List.singleton_append, Location.name, String.intercalate_cons_cons,
    String.intercalate_singleton, String.toList_append] at same
  exact String.toList_inj.1 (List.append_cancel_left same)

theorem base_ne (name : String) : base.name ≠ (base ++ [name]).name := by
  intro h
  have same := congrArg String.length h
  have slash : "/".length = 1 := by decide
  simp [base, Location.name, String.intercalate_cons_cons, String.length_append, slash] at same
  omega

theorem recordName_inj {key other : String} (h : Paths.recordName key = Paths.recordName other) :
    key = other := by
  have same := congrArg String.toList h
  simp only [Paths.recordName, String.toList_append] at same
  exact String.toList_inj.1 (List.append_cancel_right same)

theorem recordName_ne_draftName (key other : String) :
    Paths.recordName key ≠ Paths.draftName other := by
  intro h
  have same := congrArg (fun s => (String.toList s).getLast?) h
  simp [Paths.recordName, Paths.draftName, List.getLast?_append] at same

theorem place_inj {key other : String} (h : (place key).name = (place other).name) : key = other :=
  recordName_inj (name_inj h)

theorem place_ne_draft (key other : String) :
    (place key).name ≠ (base ++ [Paths.draftName other]).name := fun h =>
  recordName_ne_draftName key other (name_inj h)

/-! ## Saving and loading -/

variable {d d' : Directory} {key : String} {r : Record}

/-- What a record is filed as. -/
def filed (r : Record) : Entry := .file documentMode r.document.toUTF8.toList

theorem runs_cons {f g : Folder} {s : Step} {rest : List Step}
    (h : runSteps f (s :: rest) = (true, g)) :
    ∃ f', s.run? f = some f' ∧ runSteps f' rest = (true, g) := by
  rw [runSteps] at h
  cases step : s.run? f with
  | none => simp [step] at h
  | some f' => exact ⟨f', rfl, by simpa [step] using h⟩

theorem runs_of_save (h : d.save key r = (.ok (), d')) :
    d'.lastToken = d.lastToken ∧ runSteps d.folder (saving key r) = (true, d'.folder) := by
  unfold save at h
  split at h
  · next runs =>
    obtain rfl := (Prod.mk.inj h).2
    exact ⟨rfl, runs⟩
  · simp at h

/-- A record that is saved is in its place, its draft is gone, and nothing else has changed. -/
theorem saved_of_save (valid : checkKey r.key = .ok ()) (h : d.save r.key r = (.ok (), d')) :
    d'.lastToken = d.lastToken ∧ d.folder.isDirectory base = true ∧
    ∀ l : Location, d'.folder.entry? l =
      if l.name = (place r.key).name then some (filed r)
      else if l.name = (base ++ [Paths.draftName r.key]).name then none
      else d.folder.entry? l := by
  have draft := isSingle_draftName valid
  have final := isSingle_recordName valid
  obtain ⟨token, runs⟩ := runs_of_save h
  obtain ⟨f, write, runs⟩ := runs_cons runs
  obtain ⟨g, protect, runs⟩ := runs_cons runs
  obtain ⟨k, rename, runs⟩ := runs_cons runs
  obtain rfl : k = d'.folder := (Prod.mk.inj runs).2
  obtain ⟨there, mode, rfl⟩ := write?_single draft write
  have written := protect?_single draft (by rw [entry?_put, if_pos rfl]) protect
  rw [written] at rename
  have renamed := rename?_single draft final (by rw [entry?_put, if_pos rfl]) rename
  refine ⟨token, there, fun l => ?_⟩
  rw [renamed, entry?_put]
  refine ite_congr rfl (fun _ => rfl) fun _ => ?_
  unfold Folder.entry?
  rw [Table.get?_erase]
  refine ite_congr rfl (fun _ => rfl) fun other => ?_
  have kept (f : Folder) (e : Entry) :
      Folder.entry? (f.put (base ++ [Paths.draftName r.key]) e) l = f.entry? l := by
    rw [entry?_put, if_neg other]
  exact (kept _ _).trans (kept _ _)

theorem holds_of_there {e : Entry} (h : d.folder.entry? (place key) = some e) :
    d.holds key = true := by
  simp [holds, contains, h]

/-- Opening a directory that is there changes nothing in it. -/
theorem folder_openAt {f : Folder} (h : f.isDirectory base = true) : (openAt f).folder = f := by
  rw [openAt, if_pos (contains_of_isDirectory h)]

/-- What is loaded depends on the files only. -/
theorem load_congr {e : Directory} (h : d.folder = e.folder) (key : String) :
    d.load key = e.load key := by
  rw [load, load, holds, holds, h]

theorem decode_document (r : Record) :
    decode r.document.toUTF8.toList =
      (Record.ofDocument? r.document).elim (.error .malformed) .ok := by
  rw [decode, fromUTF8?_toUTF8]
  dsimp only
  generalize Record.ofDocument? r.document = read
  cases read <;> rfl

theorem load_of_filed (h : d.folder.entry? (place key) = some (filed r)) :
    d.load key = (Record.ofDocument? r.document).elim (.error .malformed) .ok := by
  rw [load, if_pos (holds_of_there h), content?, h]
  exact decode_document r

end Directory

end Tributary
