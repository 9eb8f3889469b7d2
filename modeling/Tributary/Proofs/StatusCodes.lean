import Mathlib.Data.List.DropRight
import Tributary.Downstream
import Tributary.Proofs.Occurrences

/-!
# Numbers in messages

A server error is read only from a number of exactly three digits. The other status codes are looked
for as phrases, so they are read out of longer numbers too: a message without any of the words and
without a number of three digits is classified by the first code that stands inside a longer number,
and by none if there is no such number (`codes_misread`).
-/

namespace Tributary.DownstreamError

open Text

variable {run s t before after acc : List Char} {c : Char} {n : Nat}

/-! ## Runs of digits -/

/-- Digits between which and the rest of a text no further digit stands. -/
structure IsRunBetween (before run after : List Char) : Prop where
  nonempty : run ≠ []
  digits : ∀ c ∈ run, c.isDigit
  left : ∀ c, before.getLast? = some c → ¬ c.isDigit
  right : ∀ c, after.head? = some c → ¬ c.isDigit

/-- A maximal run of digits of a text. -/
def IsRun (run s : List Char) : Prop :=
  ∃ before after, s = before ++ run ++ after ∧ IsRunBetween before run after

/-- `acc` is the run that is open behind `before`. -/
theorem isRun_of_mem_digitRuns (left : ∀ c, before.getLast? = some c → ¬ c.isDigit)
    (digits : ∀ c ∈ acc, c.isDigit) (mem : run ∈ digitRuns acc s) (nonempty : run ≠ []) :
    IsRun run (before ++ acc.reverse ++ s) := by
  induction s generalizing before acc with
  | nil =>
    obtain rfl : run = acc.reverse := by simpa [digitRuns] using mem
    exact ⟨before, [], rfl, nonempty, fun c mem => digits c (List.mem_reverse.1 mem), left, by simp⟩
  | cons c s ih =>
    by_cases digit : c.isDigit
    · rw [digitRuns, if_pos digit] at mem
      have more : ∀ d ∈ c :: acc, d.isDigit := List.forall_mem_cons.2 ⟨digit, digits⟩
      simpa using ih left more mem
    · rw [digitRuns, if_neg digit] at mem
      rcases List.mem_cons.1 mem with rfl | mem
      · refine ⟨before, c :: s, rfl, nonempty,
          fun d mem => digits d (List.mem_reverse.1 mem), left, ?_⟩
        rintro d ⟨⟩
        exact digit
      · have last : ∀ d, (before ++ acc.reverse ++ [c]).getLast? = some d → ¬ d.isDigit := by
          simpa using digit
        simpa using ih last (by simp) mem

theorem mem_digitRuns_of_digits (digits : ∀ c ∈ run, c.isDigit)
    (right : ∀ c, after.head? = some c → ¬ c.isDigit) :
    acc.reverse ++ run ∈ digitRuns acc (run ++ after) := by
  induction run generalizing acc with
  | nil =>
    cases after with
    | nil => simp [digitRuns]
    | cons c after => simp [digitRuns, right c rfl]
  | cons c run ih =>
    obtain ⟨digit, digits⟩ := List.forall_mem_cons.1 digits
    rw [List.cons_append, digitRuns, if_pos digit]
    simpa using @ih (c :: acc) digits

/-- A run behind a character that is no digit does not depend on what stands before that. -/
theorem mem_digitRuns_append (other : ¬ c.isDigit) (mem : run ∈ digitRuns [] s) :
    run ∈ digitRuns acc (before ++ c :: s) := by
  induction before generalizing acc with
  | nil =>
    rw [List.nil_append, digitRuns, if_neg other]
    exact List.mem_cons_of_mem _ mem
  | cons d before ih =>
    rw [List.cons_append, digitRuns]
    split
    · exact ih
    · exact List.mem_cons_of_mem _ ih

theorem mem_digitRuns_iff : run ∈ digitRuns [] s ∧ run ≠ [] ↔ IsRun run s := by
  constructor
  · rintro ⟨mem, nonempty⟩
    have left : ∀ c, ([] : List Char).getLast? = some c → ¬ c.isDigit := by simp
    simpa using isRun_of_mem_digitRuns left (by simp) mem nonempty
  · rintro ⟨before, after, rfl, between⟩
    have mem : [].reverse ++ run ∈ digitRuns [] (run ++ after) :=
      mem_digitRuns_of_digits between.digits between.right
    refine ⟨?_, between.nonempty⟩
    rcases List.eq_nil_or_concat' before with rfl | ⟨front, c, rfl⟩
    · exact mem
    · have other : ¬ c.isDigit := between.left c (by simp)
      rw [List.append_assoc, List.append_assoc, List.singleton_append]
      exact mem_digitRuns_append other mem

theorem forall_isRun {P : List Char → Prop} (h : ∀ run ∈ digitRuns [] s, P run) (run : List Char)
    (isRun : IsRun run s) : P run :=
  h run (mem_digitRuns_iff.2 isRun).1

/-- Digits that stand in a text stand in a maximal run of it. -/
theorem infix_iff_exists_run {code : List Char} (nonempty : code ≠ [])
    (digits : ∀ c ∈ code, c.isDigit) : code <:+: s ↔ ∃ run, IsRun run s ∧ code <:+: run := by
  constructor
  · rintro ⟨before, after, rfl⟩
    refine ⟨before.rtakeWhile Char.isDigit ++ code ++ after.takeWhile Char.isDigit,
      ⟨before.rdropWhile Char.isDigit, after.dropWhile Char.isDigit, ?_, ?_, ?_, ?_, ?_⟩, _, _, rfl⟩
    · conv => lhs; rw [← List.rdropWhile_append_rtakeWhile (p := Char.isDigit) (l := before),
        ← List.takeWhile_append_dropWhile (p := Char.isDigit) (l := after)]
      simp only [List.append_assoc]
    · simp [nonempty]
    · intro c mem
      rcases List.mem_append.1 mem with mem | mem
      · rcases List.mem_append.1 mem with mem | mem
        · exact List.mem_rtakeWhile_imp mem
        · exact digits c mem
      · exact List.mem_takeWhile_imp mem
    · intro c last
      obtain ⟨front, whole⟩ := List.getLast?_eq_some_iff.1 last
      have := List.rdropWhile_last_not Char.isDigit before (by simp [whole])
      simpa [whole] using this
    · intro c first
      have := List.head?_dropWhile_not Char.isDigit after
      simpa [first] using this
  · rintro ⟨run, ⟨before, after, rfl, -⟩, inside⟩
    exact inside.trans ⟨before, after, rfl⟩

/-! ## Server errors -/

theorem exists_run_of_serverStatus? (h : serverStatus? s = some n) :
    ∃ run, IsRun run s ∧ run.length = 3 ∧ codeOf run = n ∧ 500 ≤ n ∧ n < 600 := by
  have range : 500 ≤ n ∧ n < 600 := by simpa using List.find?_some h
  obtain ⟨run, mem, rfl⟩ := List.mem_map.1 (List.mem_of_find?_eq_some h)
  obtain ⟨mem, three⟩ : run ∈ digitRuns [] s ∧ run.length = 3 := by simpa using mem
  have nonempty : run ≠ [] := by rintro rfl; cases three
  exact ⟨run, mem_digitRuns_iff.1 ⟨mem, nonempty⟩, three, rfl, range⟩

theorem serverStatus?_eq_none (h : ∀ run, IsRun run s → run.length ≠ 3) :
    serverStatus? s = none := by
  rw [← Option.not_isSome_iff_eq_none, Option.isSome_iff_exists]
  rintro ⟨n, some⟩
  obtain ⟨run, isRun, three, -⟩ := exists_run_of_serverStatus? some
  exact h run isRun three

theorem serverStatus?_of_kindOf (h : kindOf s = .http n) :
    serverStatus? s = some n ∨ n = 503 ∧ mentions s ["server error", "service unavailable"] := by
  unfold kindOf at h
  split at h
  · cases h
  split at h
  · cases h
  split at h
  · next code status =>
    cases h
    exact .inl status
  split at h
  · next named =>
    cases h
    exact .inr ⟨rfl, named⟩
  · -- No other rule gives a status code.
    repeat' split at h
    all_goals cases h

/-! ## Words and codes -/

/-- All phrases that are looked for and that are no status codes. -/
def words : List String :=
  ["too many requests", "rate limit", "timeout", "timed out", "deadline exceeded", "server error",
    "service unavailable", "connection", "network", "dns", "reset by peer", "broken pipe",
    "not found", "unauthorized", "authentication", "invalid credentials", "forbidden",
    "permission denied", "invalid", "validation"]

/-- The status codes that are looked for as phrases, in this order. -/
def codes : List (String × Kind) :=
  [("429", .rateLimited), ("404", .notFound), ("401", .unauthorized), ("403", .forbidden),
    ("400", .validation)]

def IsWordless (s : List Char) : Prop := ∀ word ∈ words, ¬ word.toList <:+: s

instance (s : List Char) : Decidable (IsWordless s) :=
  inferInstanceAs (Decidable (∀ word ∈ words, ¬ word.toList <:+: s))

/-- A code stands inside a number that is longer than a code. -/
def Carries (s : List Char) (code : String) : Prop :=
  ∃ run, IsRun run s ∧ 3 < run.length ∧ code.toList <:+: run

/-- The kind of the first of some codes that stands inside a longer number. -/
inductive ReadFrom (s : List Char) : List (String × Kind) → Kind → Prop
  | none : ReadFrom s [] .other
  | here {code : String} {kind : Kind} {rest : List (String × Kind)} (carries : Carries s code) :
      ReadFrom s ((code, kind) :: rest) kind
  | later {code : String} {kind skipped : Kind} {rest : List (String × Kind)}
      (absent : ¬ Carries s code) (found : ReadFrom s rest kind) :
      ReadFrom s ((code, skipped) :: rest) kind

theorem mentions_iff {phrases : List String} :
    mentions s phrases ↔ ∃ phrase ∈ phrases, phrase.toList <:+: s := by
  simp only [mentions, List.any_eq_true, occurs_iff]

/-- Without words only the codes among some phrases count. -/
theorem mentions_of_wordless {phrases rest : List String} (wordless : IsWordless s)
    (h : phrases.filter (· ∉ words) = rest) : mentions s phrases = mentions s rest := by
  rw [Bool.eq_iff_iff, mentions_iff, mentions_iff, ← h]
  refine exists_congr fun phrase => ?_
  rw [List.mem_filter, decide_eq_true_eq]
  constructor
  · rintro ⟨mem, inside⟩
    exact ⟨⟨mem, fun word => wordless phrase word inside⟩, inside⟩
  · rintro ⟨⟨mem, -⟩, inside⟩
    exact ⟨mem, inside⟩

theorem kindOf_of_wordless (wordless : IsWordless s) (unserved : serverStatus? s = none) :
    kindOf s = ((codes.find? fun code => mentions s [code.1]).map (·.2)).getD .other := by
  have only {phrases rest : List String} (h : phrases.filter (· ∉ words) = rest) :
      mentions s phrases = mentions s rest := mentions_of_wordless wordless h
  have limited : mentions s ["429", "too many requests", "rate limit"] = mentions s ["429"] :=
    only (by decide)
  have late : mentions s ["timeout", "timed out", "deadline exceeded"] = mentions s [] :=
    only (by decide)
  have unavailable : mentions s ["server error", "service unavailable"] = mentions s [] :=
    only (by decide)
  have cut : mentions s ["connection", "network", "dns", "reset by peer", "broken pipe"] =
      mentions s [] := only (by decide)
  have missing : mentions s ["not found", "404"] = mentions s ["404"] := only (by decide)
  have unknown : mentions s ["unauthorized", "401", "authentication", "invalid credentials"] =
      mentions s ["401"] := only (by decide)
  have denied : mentions s ["forbidden", "403", "permission denied"] = mentions s ["403"] :=
    only (by decide)
  have refused : mentions s ["invalid", "validation", "400"] = mentions s ["400"] :=
    only (by decide)
  have nothing : mentions s [] = false := rfl
  rw [kindOf, unserved, limited, late, unavailable, cut, missing, unknown, denied, refused, nothing]
  simp only [codes, List.find?_cons, List.find?_nil]
  cases mentions s ["429"] <;> cases mentions s ["404"] <;> cases mentions s ["401"] <;>
    cases mentions s ["403"] <;> cases mentions s ["400"] <;> rfl

/-! ## What is read out of longer numbers -/

/-- Where no number has three digits, a code that stands in a message stands in a longer one. -/
theorem mentions_code_iff (three : ∀ run, IsRun run s → run.length ≠ 3) {code : String × Kind}
    (mem : code ∈ codes) : mentions s [code.1] ↔ Carries s code.1 := by
  have number : ∀ code ∈ codes, code.1.toList ≠ [] ∧ code.1.toList.all Char.isDigit ∧
      code.1.toList.length = 3 := by decide
  obtain ⟨nonempty, digits, length⟩ := number code mem
  rw [mentions_iff]
  simp only [List.mem_singleton, exists_eq_left]
  rw [infix_iff_exists_run nonempty (List.all_eq_true.1 digits)]
  refine exists_congr fun run => and_congr_right fun isRun => ?_
  refine ⟨fun inside => ⟨?_, inside⟩, fun longer => longer.2⟩
  have := inside.length_le
  have := three run isRun
  omega

theorem readFrom_find? {rules : List (String × Kind)}
    (h : ∀ code ∈ rules, mentions s [code.1] ↔ Carries s code.1) :
    ReadFrom s rules (((rules.find? fun code => mentions s [code.1]).map (·.2)).getD .other) := by
  induction rules with
  | nil => exact .none
  | cons code rules ih =>
    obtain ⟨first, others⟩ := List.forall_mem_cons.1 h
    rw [List.find?_cons]
    split
    · next found => exact .here (first.1 found)
    · next missing => exact .later (mt first.2 (by simp [missing])) (ih others)

theorem readFrom_codes (wordless : IsWordless s) (three : ∀ run, IsRun run s → run.length ≠ 3) :
    ReadFrom s codes (kindOf s) := by
  rw [kindOf_of_wordless wordless (serverStatus?_eq_none three)]
  exact readFrom_find? fun code mem => mentions_code_iff three mem

theorem ReadFrom.other_iff {rules : List (String × Kind)} {kind : Kind}
    (known : ∀ code ∈ rules, code.2 ≠ .other) (h : ReadFrom s rules kind) :
    kind = .other ↔ ∀ code ∈ rules, ¬ Carries s code.1 := by
  induction h with
  | none => simp
  | here carries =>
    have := (List.forall_mem_cons.1 known).1
    simp [this, carries]
  | later absent found ih => simp [absent, ih (List.forall_mem_cons.1 known).2]

theorem ReadFrom.mem {rules : List (String × Kind)} {kind : Kind} (h : ReadFrom s rules kind) :
    kind ∈ .other :: rules.map (·.2) := by
  induction h with
  | none => simp
  | here => simp
  | later _ _ ih => exact (List.mem_cons.1 ih).elim (by simp +contextual) (by simp +contextual)

theorem ReadFrom.notFound_iff {kind : Kind} (h : ReadFrom s codes kind) :
    (kind = .notFound ∨ kind = .http 404) ↔ Carries s "404" ∧ ¬ Carries s "429" := by
  cases h with
  | here limited => simp [limited]
  | later unlimited h =>
    cases h with
    | here missing => simp [missing, unlimited]
    | later present h =>
      have others : ∀ kind ∈ [Kind.other, .unauthorized, .forbidden, .validation],
          ¬ (kind = .notFound ∨ kind = .http 404) := by decide
      simp [present, others _ h.mem]

theorem isNotFound_iff {e : DownstreamError} :
    e.isNotFound ↔ e.kind = .notFound ∨ e.kind = .http 404 := by
  simp [isNotFound]

/-- Server errors are read from numbers of three digits only, but the other codes count wherever
their digits stand. -/
theorem codes_misread (message : String) :
    (∀ code, (ofMessage message).kind = .http code →
      (∃ run, IsRun run (lower message) ∧ run.length = 3 ∧ codeOf run = code ∧
        500 ≤ code ∧ code < 600) ∨
      code = 503 ∧ mentions (lower message) ["server error", "service unavailable"]) ∧
    (IsWordless (lower message) → (∀ run, IsRun run (lower message) → run.length ≠ 3) →
      ReadFrom (lower message) codes (ofMessage message).kind ∧
      ((ofMessage message).kind = .other ∧ (ofMessage message).category = .unknown ∧
          (ofMessage message).isNotFound = false ↔
        ∀ code ∈ codes, ¬ Carries (lower message) code.1) ∧
      ((ofMessage message).isNotFound ↔
        Carries (lower message) "404" ∧ ¬ Carries (lower message) "429")) := by
  constructor
  · intro code status
    exact (serverStatus?_of_kindOf status).imp_left exists_run_of_serverStatus?
  · intro wordless three
    have first : ReadFrom (lower message) codes (ofMessage message).kind :=
      readFrom_codes wordless three
    refine ⟨first, ?_, isNotFound_iff.trans first.notFound_iff⟩
    rw [← first.other_iff (by decide)]
    constructor
    · exact fun other => other.1
    · intro other
      simp [other, category, isNotFound, Kind.category]

/-- An answer that names an account. -/
def oddRecord (account : String) : String := "Record " ++ account ++ " of 12 is odd"

theorem oddRecord_passed :
    IsWordless (lower (oddRecord "15003")) ∧
      (∀ run, IsRun run (lower (oddRecord "15003")) → run.length ≠ 3) ∧
      (ofMessage (oddRecord "15003")).kind = .other ∧
      (ofMessage (oddRecord "15003")).category = .unknown ∧
      (ofMessage (oddRecord "15003")).isNotFound = false := by
  have wordless : IsWordless (lower (oddRecord "15003")) := by decide
  have three : ∀ run, IsRun run (lower (oddRecord "15003")) → run.length ≠ 3 :=
    forall_isRun (by decide)
  obtain ⟨-, misread⟩ := codes_misread (oddRecord "15003")
  obtain ⟨-, other, -⟩ := misread wordless three
  have unmentioned : ∀ code ∈ codes, ¬ mentions (lower (oddRecord "15003")) [code.1] := by decide
  exact ⟨wordless, three,
    other.2 fun code mem => mt (mentions_code_iff three mem).2 (unmentioned code mem)⟩

/-- A longer number is taken for a status code: the resource seems to be gone. -/
theorem oddRecord_misread :
    IsWordless (lower (oddRecord "14042")) ∧
      (∀ run, IsRun run (lower (oddRecord "14042")) → run.length ≠ 3) ∧
      (ofMessage (oddRecord "14042")).kind = .notFound ∧
      (ofMessage (oddRecord "14042")).category = .permanent ∧
      (ofMessage (oddRecord "14042")).isNotFound = true :=
  ⟨by decide, forall_isRun (by decide), by decide, by decide, by decide⟩

end Tributary.DownstreamError
