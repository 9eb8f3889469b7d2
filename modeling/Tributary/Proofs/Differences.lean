import Tributary.Diff.Unified

/-!
# What a unified diff shows

Each step towards a diff, from the shortest script to the hunks, keeps the two lists of lines that
it relates (`script_relates`, `compact_relates`, `blocks_relates`). So texts that differ have a
change in their diff (`unified_shows`), and a diff is empty iff the texts are the same
(`unified_eq_empty`). From nothing, a diff has all lines of the text (`unified_empty`).
-/

namespace Tributary.Diff

variable {α : Type}

/-- A script turns one list into another. -/
structure Script.Relates (s : Script α) (a b : List α) : Prop where
  source : s.source = a
  target : s.target = b

namespace Script

variable {s t : Script α} {a b c d xs : List α}

theorem Relates.append (h : s.Relates a b) (h' : t.Relates c d) :
    Relates (s ++ t) (a ++ c) (b ++ d) where
  source := by rw [source_append, h.source, h'.source]
  target := by rw [target_append, h.target, h'.target]

theorem relates_kept (xs : List α) : Relates (kept xs) xs xs :=
  ⟨source_kept xs, target_kept xs⟩

end Script

open Script

section

variable [BEq α] [LawfulBEq α]

theorem take_agreement (a b : List α) : a.take (agreement a b) = b.take (agreement a b) := by
  induction a generalizing b with
  | nil => simp [agreement]
  | cons x a ih =>
    cases b with
    | nil => simp [agreement]
    | cons y b =>
      unfold agreement
      split
      · next same => simp [eq_of_beq same, ih b]
      · simp

/-- What two lists have in common at their ends. -/
theorem drop_agreement (a b : List α) :
    a.drop (a.length - agreement a.reverse b.reverse) =
      b.drop (b.length - agreement a.reverse b.reverse) := by
  have same := congrArg List.reverse (take_agreement a.reverse b.reverse)
  simpa [List.take_reverse] using same

omit [LawfulBEq α] in
theorem differing_relates {recur : List α → List α → Script α}
    (h : ∀ a b, (recur a b).Relates a b) (a b : List α) : (differing recur a b).Relates a b := by
  unfold differing
  split
  · exact ⟨rfl, rfl⟩
  · exact ⟨by simp [Edit.source], by simp [Edit.target]⟩
  · exact ⟨by simp [Edit.source], by simp [Edit.target]⟩
  · split
    · next x y _ =>
      have both := (h (a.take x) (b.take y)).append (h (a.drop x) (b.drop y))
      simpa only [List.take_append_drop] using both
    · exact ⟨by simp [Edit.source], by simp [Edit.target]⟩

theorem scriptWithin_relates (n : Nat) (a b : List α) : (scriptWithin n a b).Relates a b := by
  induction n generalizing a b with
  | zero => exact ⟨by simp [scriptWithin, Edit.source], by simp [scriptWithin, Edit.target]⟩
  | succ n ih =>
    unfold scriptWithin
    extract_lets start a' b' ending
    have begins : a.take start = b.take start := take_agreement a b
    have ends : a'.drop (a'.length - ending) = b'.drop (b'.length - ending) := drop_agreement a' b'
    have whole := ((relates_kept (a.take start)).append
      (differing_relates ih (a'.take (a'.length - ending)) (b'.take (b'.length - ending)))).append
        (relates_kept (a'.drop (a'.length - ending)))
    refine ⟨whole.source.trans ?_, whole.target.trans ?_⟩
    · rw [List.append_assoc, List.take_append_drop, List.take_append_drop]
    · rw [begins, ends, List.append_assoc, List.take_append_drop, List.take_append_drop]

theorem script_relates (a b : List α) : (script a b).Relates a b := scriptWithin_relates _ a b

end

/-! ## Compacting -/

section

variable {s above below : Script α} {xs ins del : List α}

theorem gather_relates (ins : Script α) (del : List α) (s : Script α) :
    (gather ins del s).Relates (source ins.reverse ++ del ++ s.source)
      (target ins.reverse ++ s.target) := by
  have deleted (del : List α) : Relates (if del.isEmpty then [] else [.delete del]) del [] := by
    cases del <;> exact ⟨by simp [Edit.source], by simp [Edit.target]⟩
  induction s generalizing ins del with
  | nil =>
    refine ⟨?_, ?_⟩
    · simp only [gather, source_append, (deleted del).source, source_nil, List.append_nil]
    · simp only [gather, target_append, (deleted del).target, target_nil, List.append_nil]
  | cons e s ih =>
    cases e with
    | insert xs =>
      have later := ih (.insert xs :: ins) del
      exact ⟨by simpa [gather, Edit.source] using later.source,
        by simpa [gather, Edit.target] using later.target⟩
    | delete xs =>
      have later := ih ins (del ++ xs)
      exact ⟨by simpa [gather, Edit.source] using later.source,
        by simpa [gather, Edit.target] using later.target⟩
    | keep xs =>
      have later : (gather [] [] s).Relates (source s) (target s) := by simpa using ih [] []
      refine ⟨?_, ?_⟩
      · simp only [gather, source_append, (deleted del).source, source_cons, later.source]
      · simp only [gather, target_append, (deleted del).target, target_cons, later.target,
          List.append_nil]

@[simp] theorem source_keepThen (xs : List α) (s : Script α) :
    source (keepThen xs s) = xs ++ source s := by
  unfold keepThen
  split <;> simp [Edit.source]

@[simp] theorem target_keepThen (xs : List α) (s : Script α) :
    target (keepThen xs s) = xs ++ target s := by
  unfold keepThen
  split <;> simp [Edit.target]

@[simp] theorem source_thenKeep (xs : List α) (s : Script α) :
    source (thenKeep xs s).reverse = source s.reverse ++ xs := by
  unfold thenKeep
  split <;> simp [Edit.source]

@[simp] theorem target_thenKeep (xs : List α) (s : Script α) :
    target (thenKeep xs s).reverse = target s.reverse ++ xs := by
  unfold thenKeep
  split <;> simp [Edit.target]

/-- Kept lines around an insertion are the same lines before, with and without the insertion. -/
structure Around (above ins below kept made : List α) : Prop where
  kept : above.reverse ++ below = kept
  made : ∀ rest, above.reverse ++ (ins ++ (below ++ rest)) = made ++ rest

variable [BEq α] [LawfulBEq α]

theorem slideUp_around (above ins below : List α) {above' ins' below' : List α}
    (h : slideUp above ins below = (above', ins', below')) :
    Around above' ins' below' (above.reverse ++ below) (above.reverse ++ (ins ++ below)) := by
  induction above generalizing ins below with
  | nil =>
    cases h
    exact ⟨rfl, fun _ => by simp⟩
  | cons k above ih =>
    unfold slideUp at h
    split at h
    · next x last =>
      split at h
      · next same =>
        obtain ⟨rest, rfl⟩ := List.getLast?_eq_some_iff.1 last
        have moved := ih _ _ h
        exact ⟨by simpa using moved.kept, by simpa [eq_of_beq same] using moved.made⟩
      · cases h
        exact ⟨rfl, fun _ => by simp⟩
    · cases h
      exact ⟨rfl, fun _ => by simp⟩

theorem slideDown_around (above ins below : List α) {above' ins' below' : List α}
    (h : slideDown above ins below = (above', ins', below')) :
    Around above' ins' below' (above.reverse ++ below) (above.reverse ++ (ins ++ below)) := by
  induction below generalizing above ins with
  | nil =>
    cases h
    exact ⟨rfl, fun _ => by simp⟩
  | cons k below ih =>
    unfold slideDown at h
    split at h
    · next x rest =>
      split at h
      · next same =>
        have moved := ih _ _ h
        exact ⟨by simpa using moved.kept, by simpa [eq_of_beq same] using moved.made⟩
      · cases h
        exact ⟨rfl, fun _ => by simp⟩
    · cases h
      exact ⟨rfl, fun _ => by simp⟩

/-- What an insertion between two parts of a script relates. -/
structure Spot.Relates (spot : Spot α) (a b : List α) : Prop where
  source : source spot.above.reverse ++ spot.below.source = a
  target : target spot.above.reverse ++ (spot.inserted ++ spot.below.target) = b

theorem moveUp_relates (above : Script α) (ins : List α) (below : Script α) :
    (moveUp above ins below).Relates (source above.reverse ++ below.source)
      (target above.reverse ++ (ins ++ below.target)) := by
  induction above generalizing ins below with
  | nil => exact ⟨rfl, rfl⟩
  | cons e above ih =>
    cases e with
    | keep xs =>
      simp only [moveUp]
      split
      · next ins' passed slid =>
        obtain ⟨kept, made⟩ := slideUp_around _ _ _ slid
        simp only [List.reverse_nil, List.nil_append, List.reverse_reverse, List.append_nil]
          at kept made
        obtain ⟨a, b⟩ := ih ins' (keepThen passed below)
        refine ⟨a.trans ?_, b.trans ?_⟩
        · simp [Edit.source, kept]
        · simp [Edit.target, made]
      · next left ins' passed _ slid =>
        obtain ⟨kept, made⟩ := slideUp_around _ _ _ slid
        simp only [List.reverse_reverse, List.append_nil] at kept made
        exact ⟨by simp [Edit.source, ← kept], by simp [Edit.target, made]⟩
    | delete xs =>
      have moved := ih ins (.delete xs :: below)
      exact ⟨by simpa [moveUp, Edit.source] using moved.source,
        by simpa [moveUp, Edit.target] using moved.target⟩
    | insert xs =>
      have moved := ih (xs ++ ins) below
      exact ⟨by simpa [moveUp, Edit.source] using moved.source,
        by simpa [moveUp, Edit.target] using moved.target⟩

theorem moveDown_relates (above : Script α) (ins : List α) (below : Script α) :
    (moveDown above ins below).Relates (source above.reverse ++ below.source)
      (target above.reverse ++ (ins ++ below.target)) := by
  induction below generalizing above ins with
  | nil => exact ⟨rfl, rfl⟩
  | cons e below ih =>
    cases e with
    | keep xs =>
      simp only [moveDown]
      split
      · next passed ins' slid =>
        obtain ⟨kept, made⟩ := slideDown_around _ _ _ slid
        simp only [List.reverse_nil, List.nil_append, List.append_nil] at kept made
        obtain ⟨a, b⟩ := ih (thenKeep passed.reverse above) ins'
        refine ⟨a.trans ?_, b.trans ?_⟩
        · simp [Edit.source, kept]
        · simp [Edit.target, made]
      · next passed ins' left _ slid =>
        obtain ⟨kept, made⟩ := slideDown_around _ _ _ slid
        simp only [List.reverse_nil, List.nil_append] at kept made
        exact ⟨by simp [Edit.source, ← kept], by simp [Edit.target, made]⟩
    | delete xs =>
      have moved := ih (.delete xs :: above) ins
      exact ⟨by simpa [moveDown, Edit.source] using moved.source,
        by simpa [moveDown, Edit.target] using moved.target⟩
    | insert xs =>
      have moved := ih above (ins ++ xs)
      exact ⟨by simpa [moveDown, Edit.source] using moved.source,
        by simpa [moveDown, Edit.target] using moved.target⟩

theorem settle_relates (n : Nat) (above below : Script α) :
    (settle n above below).Relates (source above.reverse ++ below.source)
      (target above.reverse ++ below.target) := by
  induction n generalizing above below with
  | zero => exact ⟨by simp [settle], by simp [settle]⟩
  | succ n ih =>
    cases below with
    | nil => exact ⟨by simp [settle], by simp [settle]⟩
    | cons e below =>
      cases e with
      | insert xs =>
        simp only [settle]
        have up := moveUp_relates above xs below
        generalize moveUp above xs below = upper at up ⊢
        have down := moveDown_relates upper.above upper.inserted upper.below
        rw [up.source, up.target] at down
        generalize moveDown upper.above upper.inserted upper.below = lower at down ⊢
        obtain ⟨a, b⟩ := ih (.insert lower.inserted :: lower.above) lower.below
        refine ⟨a.trans ?_, b.trans ?_⟩
        · simpa [Edit.source] using down.source
        · simpa [Edit.target] using down.target
      | keep xs =>
        have later := ih (.keep xs :: above) below
        exact ⟨by simpa [settle, Edit.source] using later.source,
          by simpa [settle, Edit.target] using later.target⟩
      | delete xs =>
        have later := ih (.delete xs :: above) below
        exact ⟨by simpa [settle, Edit.source] using later.source,
          by simpa [settle, Edit.target] using later.target⟩

/-- Compacting a script leaves the lists that it relates. -/
theorem compact_relates {a b : List α} (h : s.Relates a b) : (compact s).Relates a b := by
  have gathered := gather_relates [] [] s
  have settled := settle_relates (moves (gather [] [] s)) [] (gather [] [] s)
  rw [gathered.source, gathered.target] at settled
  simpa [compact, h.source, h.target] using settled

end

/-! ## Blocks and hunks -/

section

variable {bs : List (Block α)} {a b : List α} {s : Script α}

theorem blocks_relates (h : s.Relates a b) :
    (blocks s).flatMap Block.sourceLines = a ∧ (blocks s).flatMap Block.targetLines = b := by
  obtain ⟨rfl, rfl⟩ := h
  induction s with
  | nil => exact ⟨rfl, rfl⟩
  | cons e s ih =>
    obtain ⟨source, target⟩ := ih
    cases e with
    | keep xs | delete xs | insert xs =>
      unfold blocks
      split <;> simp_all [Edit.source, Edit.target, Block.sourceLines, Block.targetLines]

theorem sublists_of_mem {block : Block α} (h : s.Relates a b) (mem : block ∈ blocks s) :
    block.sourceLines <:+: a ∧ block.targetLines <:+: b := by
  obtain ⟨source, target⟩ := blocks_relates h
  obtain ⟨before, after, split⟩ := List.append_of_mem mem
  rw [split, List.flatMap_append, List.flatMap_cons, ← List.append_assoc] at source target
  exact ⟨⟨_, _, source⟩, ⟨_, _, target⟩⟩

/-- A script between lists that differ changes something. -/
theorem exists_changed (h : s.Relates a b) (ne : a ≠ b) :
    ∃ removed added, .changed removed added ∈ blocks s ∧ removed ≠ added := by
  refine Classical.byContradiction fun none => ne ?_
  obtain ⟨rfl, rfl⟩ := blocks_relates h
  have alike (block : Block α) (mem : block ∈ blocks s) :
      block.sourceLines = block.targetLines := by
    cases block with
    | same xs => rfl
    | changed removed added =>
      exact Classical.byContradiction fun differ => none ⟨removed, added, mem, differ⟩
  rw [List.flatMap_def, List.flatMap_def, List.map_congr_left alike]

variable {context : Nat} {removed added : List α}

theorem mem_add (h : Hunk α) (block other : Block α) :
    block ∈ (h.add other).shown ↔ block ∈ h.shown ∨ block = other := by
  simp [Hunk.add]

/-- A change that an open hunk shows stays shown, and so is every change behind it. -/
theorem shown_hunksAfter (h : Hunk α) (bs : List (Block α))
    (mem : .changed removed added ∈ h.shown ∨ .changed removed added ∈ bs) :
    ∃ hunk ∈ hunksAfter context h bs, .changed removed added ∈ hunk.shown := by
  fun_induction hunksAfter context h bs with
  | case1 h => simpa using mem
  | case2 h xs => simpa [mem_add] using mem
  | case3 h xs rest _ far ih =>
    rcases mem with shown | behind
    · exact ⟨_, .head _, (mem_add ..).2 (.inl shown)⟩
    · obtain ⟨hunk, later, shown⟩ := ih (.inr (by simpa using behind))
      exact ⟨hunk, .tail _ later, shown⟩
  | case4 h xs rest _ near ih => exact ih (by simpa [mem_add] using mem)
  | case5 h b rest _ _ ih => exact ih (by simpa [mem_add, or_assoc] using mem)

theorem shown_hunks (mem : .changed removed added ∈ bs) :
    ∃ hunk ∈ hunks context bs, .changed removed added ∈ hunk.shown := by
  unfold hunks
  split
  · cases mem
  · cases mem with
    | tail _ mem => cases mem
  · cases mem with
    | tail _ mem => exact shown_hunksAfter _ _ (.inr mem)
  · exact shown_hunksAfter _ _ (.inr mem)

end

/-! ## Texts -/

theorem flatten_linesOf (s : List Char) : (linesOf s).flatten = s := by
  induction s with
  | nil => rfl
  | cons c rest ih =>
    unfold linesOf
    split
    · simp [ih]
    · split
      · next none => simpa [none] using ih
      · next line lines some =>
        rw [some] at ih
        simpa using ih

theorem linesOf_inj {s t : List Char} (h : linesOf s = linesOf t) : s = t := by
  rw [← flatten_linesOf s, h, flatten_linesOf]

/-- A text that ends with a line feed. -/
def Ended (s : String) : Prop := ∃ t, s = t ++ "\n"

theorem Ended.append_of {s t : String} (h : Ended t) : Ended (s ++ t) := by
  obtain ⟨u, rfl⟩ := h
  exact ⟨s ++ u, String.append_assoc.symm⟩

theorem Ended.join {s : String} (h : Ended s) {l : List String}
    (ended : ∀ t ∈ l, t = "" ∨ Ended t) : Ended (s ++ String.join l) := by
  induction l generalizing s with
  | nil => simpa using h
  | cons t l ih =>
    obtain ⟨first, rest⟩ := List.forall_mem_cons.1 ended
    rw [String.join_cons, ← String.append_assoc]
    rcases first with rfl | first
    · exact ih (by simpa using h) rest
    · exact ih first.append_of rest

theorem ended_lineText (mark : Char) (line : List Char) : Ended (lineText mark line) := by
  unfold lineText
  split
  · next ends =>
    obtain ⟨rest, rfl⟩ := List.getLast?_eq_some_iff.1 ends
    refine ⟨String.ofList (mark :: rest), ?_⟩
    rw [← List.cons_append, String.ofList_append]
  · exact Ended.append_of ⟨"\n\\ No newline at end of file", rfl⟩

/-- Lines behind their marks end, if there are any. -/
theorem ended_lines (mark : Char) (lines : List (List Char)) :
    String.join (lines.map (lineText mark)) = "" ∨
      Ended (String.join (lines.map (lineText mark))) := by
  cases lines with
  | nil => exact .inl String.join_nil
  | cons line lines =>
    rw [List.map_cons, String.join_cons]
    refine .inr ((ended_lineText mark line).join fun t mem => ?_)
    obtain ⟨line, -, rfl⟩ := List.mem_map.1 mem
    exact .inr (ended_lineText mark line)

theorem ended_block (block : Block (List Char)) : block.text = "" ∨ Ended block.text := by
  cases block with
  | same lines => exact ended_lines ' ' lines
  | changed removed added =>
    show String.join (removed.map (lineText '-')) ++ String.join (added.map (lineText '+')) = "" ∨
      Ended (String.join (removed.map (lineText '-')) ++ String.join (added.map (lineText '+')))
    rcases ended_lines '+' added with none | ended
    · rw [none, String.append_empty]
      exact ended_lines '-' removed
    · exact .inr ended.append_of

/-! ## What is shown -/

/-- A change as it stands in a unified diff: at the beginning of a line, the lines of the first text
that give way, and then those of the other one that take their place. -/
structure Shown (source target diff : String) (removed added : List (List Char)) : Prop where
  differ : removed ≠ added
  before : removed <:+: linesOf source.toList
  after : added <:+: linesOf target.toList
  written : ∃ first rest, diff = first ++ "\n" ++ Block.text (.changed removed added) ++ rest

variable {sourceName targetName source target : String}

/-- Texts that differ have a difference that is shown. -/
theorem unified_shows (ne : source ≠ target) :
    ∃ removed added,
      Shown source target (unified sourceName targetName source target) removed added := by
  have lines : linesOf source.toList ≠ linesOf target.toList := fun same =>
    ne (String.toList_inj.1 (linesOf_inj same))
  have relates := compact_relates (script_relates (linesOf source.toList) (linesOf target.toList))
  obtain ⟨removed, added, mem, differ⟩ := exists_changed relates lines
  obtain ⟨inSource, inTarget⟩ := sublists_of_mem relates mem
  obtain ⟨hunk, later, shown⟩ : ∃ hunk ∈ hunks 3 _, Block.changed removed added ∈ hunk.shown :=
    shown_hunks mem
  refine ⟨removed, added, differ, inSource, inTarget, ?_⟩
  obtain ⟨above, below, split⟩ := List.append_of_mem later
  obtain ⟨blocksAbove, blocksBelow, parts⟩ := List.append_of_mem shown
  let head := "--- " ++ sourceName ++ "\n+++ " ++ targetName ++ "\n"
  let opening := "@@ -" ++ rangeText hunk.sourceStart hunk.sourceCount ++ " +" ++
    rangeText hunk.targetStart hunk.targetCount ++ " @@\n"
  have whole : unified sourceName targetName source target =
      head ++ String.join ((above ++ hunk :: below).map Hunk.text) := by
    simp only [unified]
    rw [split]
    cases above <;> rfl
  have text : hunk.text = opening ++
      String.join ((blocksAbove ++ .changed removed added :: blocksBelow).map Block.text) :=
    parts ▸ rfl
  -- Everything in front of the change ends with a line feed.
  have front : Ended (head ++ String.join (above.map Hunk.text) ++ opening ++
      String.join (blocksAbove.map Block.text)) := by
    refine Ended.join (Ended.append_of (Ended.append_of ⟨" @@", rfl⟩)) fun t mem => ?_
    obtain ⟨block, -, rfl⟩ := List.mem_map.1 mem
    exact ended_block block
  obtain ⟨first, front⟩ := front
  refine ⟨first, String.join (blocksBelow.map Block.text) ++ String.join (below.map Hunk.text), ?_⟩
  rw [← front, whole]
  simp only [List.map_append, List.map_cons, String.join_append, String.join_cons, text,
    String.append_assoc]

theorem Shown.ne_empty {diff : String} {removed added : List (List Char)}
    (h : Shown source target diff removed added) : diff ≠ "" := by
  obtain ⟨first, rest, rfl⟩ := h.written
  intro none
  have feed : '\n' ∈ (first ++ "\n" ++ Block.text (.changed removed added) ++ rest).toList := by
    simp
  rw [none] at feed
  cases feed

theorem agreement_self [BEq α] [LawfulBEq α] (a : List α) : agreement a a = a.length := by
  induction a with
  | nil => rfl
  | cons x a ih => simp [agreement, ih]

theorem script_self [BEq α] [LawfulBEq α] (a : List α) : script a a = kept a := by
  simp [script, scriptWithin, agreement_self, differing, kept]

theorem compact_kept [BEq α] (xs : List α) : compact (kept xs) = kept xs := by
  cases xs with
  | nil => rfl
  | cons x xs =>
    have some : moves [Edit.keep (x :: xs)] = (xs.length + xs.length + 2) + 1 := by
      simp [moves, Edit.source, Edit.target]
      omega
    simp [kept, compact, gather, some, settle]

theorem unified_self : unified sourceName targetName source source = "" := by
  have none : hunks 3 (blocks (kept (linesOf source.toList))) = [] := by
    generalize linesOf source.toList = lines
    cases lines <;> rfl
  simp only [unified, script_self, compact_kept, none]

/-- A diff of two texts is empty iff they are the same. -/
theorem unified_eq_empty : unified sourceName targetName source target = "" ↔ source = target := by
  constructor
  · intro none
    refine Classical.byContradiction fun ne => ?_
    obtain ⟨removed, added, shown⟩ := unified_shows ne
    exact shown.ne_empty none
  · rintro rfl
    exact unified_self

/-- The diff from nothing has all lines of the other text. -/
def creation (sourceName targetName target : String) : String :=
  "--- " ++ sourceName ++ "\n+++ " ++ targetName ++ "\n" ++
    ("@@ -0,0 +" ++ rangeText 0 (linesOf target.toList).length ++ " @@\n" ++
      String.join ((linesOf target.toList).map (lineText '+')))

theorem script_nil {b : List α} [BEq α] (ne : b ≠ []) : script [] b = [.insert b] := by
  obtain ⟨x, b, rfl⟩ := List.exists_cons_of_ne_nil ne
  simp [script, scriptWithin, agreement, kept, differing]

theorem settle_nil [BEq α] (n : Nat) (above : Script α) : settle n above [] = above.reverse := by
  cases n with
  | zero => exact List.append_nil _
  | succ n => rfl

theorem compact_insert [BEq α] (xs : List α) : compact [.insert xs] = [.insert xs] := by
  have some : moves [Edit.insert xs] = xs.length + 1 := by
    simp [moves, Edit.source, Edit.target, Nat.add_comm]
  simp [compact, gather, some, settle, moveUp, moveDown, settle_nil]

theorem unified_empty (ne : target ≠ "") :
    unified sourceName targetName "" target = creation sourceName targetName target := by
  have lines : linesOf target.toList ≠ [] := fun none =>
    ne (String.toList_inj.1 (linesOf_inj none))
  have added : blocks (compact (script (linesOf "".toList) (linesOf target.toList))) =
      [.changed [] (linesOf target.toList)] := by
    have nothing : linesOf "".toList = [] := rfl
    rw [nothing, script_nil lines, compact_insert, blocks, blocks]
  have nowhere : rangeText 0 0 = "0,0" := by decide
  have text : Hunk.text ⟨0, 0, [.changed [] (linesOf target.toList)]⟩ =
      "@@ -0,0 +" ++ rangeText 0 (linesOf target.toList).length ++ " @@\n" ++
        String.join ((linesOf target.toList).map (lineText '+')) := by
    simp only [Hunk.text, Hunk.sourceCount, Hunk.targetCount, List.flatMap_cons, List.flatMap_nil,
      Block.sourceLines, Block.targetLines, List.append_nil, List.length_nil, nowhere, Block.text,
      List.map_cons, List.map_nil, String.join_cons, String.join_nil, String.append_empty,
      String.empty_append]
    rfl
  simp only [unified, added]
  show _ ++ String.join [Hunk.text ⟨0, 0, [.changed [] (linesOf target.toList)]⟩] = _
  rw [String.join_cons, text, String.join_nil, String.append_empty, creation]

end Tributary.Diff
