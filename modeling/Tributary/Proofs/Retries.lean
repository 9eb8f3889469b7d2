import Tributary.Backoff
import Tributary.Proofs.Instants

/-!
# One failure after another

Failures are entered into a cleared status until the record has failed. The count of those that may
pass is compared with the budget of each one's category, so that mixed categories share one count;
the delays double up to the limit; and the last one comes soon enough (`failures_counted`).
-/

namespace Tributary

/-! ## When a retry is due -/

/-- The instant a number of whole seconds later. A leap second is a second of its own, and no other
second is reached from it in the middle of one. -/
def Instant.later (t : Instant) (secs : Nat) : Instant :=
  ⟨t.seconds + secs, if secs = 0 then t.nanos else t.nanos % nanosPerSecond⟩

namespace Backoff

theorem dueAt_eq_some_iff {now due : Instant} (h : now.InRange) {secs : Nat} :
    dueAt now secs = some due ↔ due = now.later secs ∧ due.InRange := by
  have nanos : (if now.isLeap ∧ 0 < secs then now.nanos - Instant.nanosPerSecond else now.nanos) =
      if secs = 0 then now.nanos else now.nanos % Instant.nanosPerSecond := by
    rcases Nat.eq_zero_or_pos secs with rfl | later
    · simp
    · have bound := h.nanos
      rw [if_neg (Nat.ne_of_gt later)]
      by_cases leap : now.isLeap
      · have second : Instant.nanosPerSecond ≤ now.nanos := of_decide_eq_true leap
        rw [if_pos ⟨leap, later⟩, Nat.mod_eq_sub_mod second, Nat.mod_eq_of_lt (by omega)]
      · have second : now.nanos < Instant.nanosPerSecond := by simpa [Instant.isLeap] using leap
        rw [if_neg fun both => leap both.1, Nat.mod_eq_of_lt second]
  have within : (now.later secs).InRange ↔ now.seconds + secs ≤ Instant.maxSeconds := by
    constructor
    · exact fun range => range.last
    · refine fun last => ⟨?_, last, ?_⟩
      · have := h.first
        simp only [Instant.later]
        omega
      · have bound := h.nanos
        have part := Nat.mod_lt now.nanos (show 0 < Instant.nanosPerSecond by decide)
        simp only [Instant.later]
        split <;> omega
  -- A span that is too long to be counted would lead out of the range anyway.
  have span : now.seconds + secs ≤ Instant.maxSeconds → secs ≤ maxSpanSecs := by
    have long : maxSpanSecs = 9223372036854775 := by decide
    have first := h.first
    simp only [Instant.minSeconds, Instant.maxSeconds] at *
    omega
  unfold dueAt Instant.addSeconds?
  dsimp only
  rw [nanos]
  constructor
  · intro known
    split at known
    · split at known
      · next last =>
        obtain rfl := Option.some.inj known
        exact ⟨rfl, within.2 last⟩
      · cases known
    · cases known
  · rintro ⟨rfl, range⟩
    have last := within.1 range
    rw [if_pos (span last), if_pos last]
    rfl

/-! ## Delays -/

/-- The numbers of a policy are machine words. -/
structure Fits (b : Backoff) : Prop where
  base : b.baseDelaySecs ≤ maxWord
  limit : b.maxDelaySecs ≤ maxWord
  retries : b.maxRetries ≤ maxCount
  unknown : b.unknownMaxRetries ≤ maxCount

variable {b : Backoff} {k n : Nat}

theorem Fits.budget (fits : b.Fits) (category : Category) : b.budget category ≤ maxCount := by
  cases category with
  | permanent => exact Nat.zero_le _
  | transient => exact fits.retries
  | unknown => exact fits.unknown

theorem budget_le (b : Backoff) (category : Category) :
    b.budget category ≤ max b.maxRetries b.unknownMaxRetries := by
  cases category <;> simp [budget]

theorem delaySecs_le : b.delaySecs k ≤ b.maxDelaySecs := Nat.min_le_left ..

theorem delaySecs_mono (h : k ≤ n) : b.delaySecs k ≤ b.delaySecs n := by
  have doubled : Nat.pow 2 (min (k - 1) 32) ≤ Nat.pow 2 (min (n - 1) 32) :=
    Nat.pow_le_pow_right (by decide) (by omega)
  have := Nat.mul_le_mul_left b.baseDelaySecs doubled
  unfold delaySecs
  omega

/-- While the factor goes on doubling, a product that is too large for a word exceeds the limit. -/
theorem delaySecs_eq (fits : b.Fits) (h : k ≤ 33) :
    b.delaySecs k = min b.maxDelaySecs (b.baseDelaySecs * 2 ^ (k - 1)) := by
  have limit := fits.limit
  have doubled : min (k - 1) 32 = k - 1 := by omega
  unfold delaySecs
  rw [doubled, Nat.pow_eq]
  omega

/-! ## Failures -/

end Backoff

/-- A failed attempt. -/
structure Failure where
  category : Category
  reason : String
  generation : Nat
  now : Instant

namespace Backoff

variable {b : Backoff} {k n : Nat} {f : Failure} {s : Status}

/-- What a failure makes of a status. -/
def enter (b : Backoff) (s : Status) (f : Failure) : Status × Outcome :=
  b.recordFailure s f.category f.reason f.generation f.now

/-- Failures entered one after another, up to the first with which the record has failed. -/
def course (b : Backoff) : Status → List Failure → List (Status × Outcome)
  | _, [] => []
  | s, f :: rest =>
    match b.enter s f with
    | (t, .retry delay) => (t, .retry delay) :: course b t rest
    | (t, .failed) => [(t, .failed)]

/-- The delays that were handed out, in seconds. -/
def delays (run : List (Status × Outcome)) : List Nat :=
  run.filterMap fun (_, outcome) =>
    match outcome with
    | .retry delay => some delay.secs
    | .failed => none

/-- The count, the factor of the delay and the delay are machine words. -/
structure Words (k delay : Nat) : Prop where
  count : k ≤ maxCount
  factor : 2 ^ min (k - 1) 32 ≤ maxWord
  delay : delay ≤ maxWord

/-- What becomes of the `k`-th failure, none of those before it having been permanent. -/
inductive Entered (b : Backoff) (k : Nat) (f : Failure) : Status × Outcome → Prop
  /-- It is permanent. -/
  | permanent {t : Status} : f.category = .permanent → t.phase = .failed →
      t.nextRetryAt = none → Entered b k f (t, .failed)
  /-- It may pass and there are tries left; the next one is due when the delay is over, if that
  instant can be represented. -/
  | again {t : Status} : f.category ≠ .permanent → k < b.budget f.category → t.phase = .error →
      t.retryCount = k → Words k (b.delaySecs k) →
      (∀ due, t.nextRetryAt = some due ↔ due = f.now.later (b.delaySecs k) ∧ due.InRange) →
      Entered b k f (t, .retry (b.delay k))
  /-- It may pass and the budget is spent. -/
  | spent {t : Status} : f.category ≠ .permanent → b.budget f.category ≤ k → t.phase = .failed →
      t.retryCount = k → t.nextRetryAt = none → Entered b k f (t, .failed)

/-- One more failure on a count that has not reached its end. -/
theorem entered_enter (fits : b.Fits) (count : s.retryCount = n) (room : n < maxCount)
    (clock : f.now.InRange) : Entered b (n + 1) f (b.enter s f) := by
  unfold enter recordFailure
  extract_lets entered secs
  by_cases permanent : f.category = .permanent
  · rw [if_neg fun again => again.1 permanent]
    exact .permanent permanent rfl rfl
  · have counted : entered.retryCount = n + 1 := by
      have : entered.retryCount = min (s.retryCount + 1) maxCount := if_neg permanent
      omega
    by_cases left : entered.retryCount < entered.maxRetries
    · rw [if_pos ⟨permanent, left⟩]
      have told : secs = b.delaySecs (n + 1) := congrArg b.delaySecs counted
      rw [told]
      refine .again permanent (counted ▸ left) rfl counted ⟨room, ?_, ?_⟩ ?_
      · have factor : 2 ^ min (n + 1 - 1) 32 ≤ 2 ^ 32 :=
          Nat.pow_le_pow_right (by decide) (Nat.min_le_right ..)
        exact factor.trans (by decide)
      · exact delaySecs_le.trans fits.limit
      · exact fun due => dueAt_eq_some_iff clock
    · rw [if_neg fun again => left again.2]
      exact .spent permanent (counted ▸ Nat.le_of_not_lt left) rfl counted rfl

theorem Entered.retried {t : Status} {delay : Duration} (h : Entered b k f (t, .retry delay)) :
    t.retryCount = k ∧ k < b.budget f.category ∧ delay = b.delay k := by
  cases h with
  | again _ left _ count => exact ⟨count, left, rfl⟩

/-! ## A sequence of failures -/

@[simp] theorem delays_retry (t : Status) (k : Nat) (run : List (Status × Outcome)) :
    delays ((t, .retry (b.delay k)) :: run) = b.delaySecs k :: delays run := by
  have whole : (b.delay k).secs = b.delaySecs k := Nat.mul_div_cancel _ (by decide)
  simp [delays, whole]

section Course

variable {failures : List Failure} (fits : b.Fits) (count : s.retryCount = n)
  (room : n < maxCount) (clocks : ∀ f ∈ failures, f.now.InRange)
include fits count room clocks

/-- Following a sequence of failures: what holds of no failures, of one with which the record has
failed and of one that is followed by others holds of all. -/
theorem course_induction {motive : Nat → List Failure → List (Status × Outcome) → Prop}
    (nil : ∀ n, motive n [] [])
    (failed : ∀ n f rest t, Entered b (n + 1) f (t, .failed) → motive n (f :: rest) [(t, .failed)])
    (retried : ∀ n f rest t run, Entered b (n + 1) f (t, .retry (b.delay (n + 1))) →
      n + 1 < b.budget f.category → motive (n + 1) rest run →
      motive n (f :: rest) ((t, .retry (b.delay (n + 1))) :: run)) :
    motive n failures (b.course s failures) := by
  induction failures generalizing s n with
  | nil => exact nil n
  | cons f rest ih =>
    have first := entered_enter fits count room (clocks f List.mem_cons_self)
    unfold course
    split
    · next t delay result =>
      rw [result] at first
      obtain ⟨count', left, rfl⟩ := first.retried
      have room' : n + 1 < maxCount := Nat.lt_of_lt_of_le left (fits.budget _)
      exact retried n f rest t _ first left
        (ih count' room' fun f mem => clocks f (List.mem_cons_of_mem _ mem))
    · next t result => exact failed n f rest t (result ▸ first)

theorem getElem?_course : ∀ k f r, failures[k]? = some f →
    (b.course s failures)[k]? = some r → Entered b (n + k + 1) f r := by
  refine course_induction fits count room clocks (motive := fun n failures run => ∀ k f r,
    failures[k]? = some f → run[k]? = some r → Entered b (n + k + 1) f r) ?nil ?failed ?retried
  case nil => exact fun n k f r known => nomatch known
  case failed =>
    intro n f rest t entered k f' r known last
    cases k with
    | zero =>
      obtain rfl := Option.some.inj known
      obtain rfl := Option.some.inj last
      exact entered
    | succ k => cases last
  case retried =>
    intro n f rest t run entered left onward k f' r known at_k
    cases k with
    | zero =>
      obtain rfl := Option.some.inj known
      obtain rfl := Option.some.inj at_k
      exact entered
    | succ k =>
      have := onward k f' r known at_k
      rwa [Nat.add_right_comm n 1 k] at this

theorem getElem?_delays :
    ∀ k d, (delays (b.course s failures))[k]? = some d → d = b.delaySecs (n + k + 1) := by
  refine course_induction fits count room clocks (motive := fun n _ run => ∀ k d,
    (delays run)[k]? = some d → d = b.delaySecs (n + k + 1)) ?nil ?failed ?retried
  case nil => exact fun n k d known => nomatch known
  case failed => exact fun n f rest t entered k d known => nomatch known
  case retried =>
    intro n f rest t run entered left onward k d known
    rw [delays_retry] at known
    cases k with
    | zero => exact (Option.some.inj known).symm
    | succ k =>
      have := onward k d known
      rwa [Nat.add_right_comm n 1 k] at this

theorem length_course_le :
    (b.course s failures).length ≤ max 1 (max b.maxRetries b.unknownMaxRetries - n) := by
  refine course_induction fits count room clocks (motive := fun n _ run =>
    run.length ≤ max 1 (max b.maxRetries b.unknownMaxRetries - n)) ?nil ?failed ?retried
  case nil => exact fun n => Nat.zero_le _
  case failed => exact fun n f rest t entered => Nat.le_max_left ..
  case retried =>
    intro n f rest t run entered left onward
    have := b.budget_le f.category
    simp only [List.length_cons]
    omega

/-- All failures have been entered, or the record has failed with the last one that was. -/
theorem course_complete :
    (b.course s failures).length = failures.length ∨
      ∃ t, (b.course s failures).getLast? = some (t, .failed) := by
  refine course_induction fits count room clocks (motive := fun _ failures run =>
    run.length = failures.length ∨ ∃ t, run.getLast? = some (t, .failed))
    ?nil ?failed ?retried
  case nil => exact fun n => .inl rfl
  case failed => exact fun n f rest t entered => .inr ⟨t, rfl⟩
  case retried =>
    rintro n f rest t run entered left (all | ⟨last, failed⟩)
    · exact .inl (congrArg Nat.succ all)
    · exact .inr ⟨last, by simp [List.getLast?_cons, failed]⟩

theorem course_fails (many : max 1 (max b.maxRetries b.unknownMaxRetries - n) ≤ failures.length) :
    ∃ t, (b.course s failures).getLast? = some (t, .failed) := by
  revert many
  refine course_induction fits count room clocks (motive := fun n failures run =>
    max 1 (max b.maxRetries b.unknownMaxRetries - n) ≤ failures.length →
      ∃ t, run.getLast? = some (t, .failed)) ?nil ?failed ?retried
  case nil =>
    intro n many
    exact absurd ((Nat.le_max_left ..).trans many) (by decide)
  case failed => exact fun n f rest t entered many => ⟨t, rfl⟩
  case retried =>
    intro n f rest t run entered left onward many
    have := b.budget_le f.category
    simp only [List.length_cons] at many
    obtain ⟨last, failed⟩ := onward (by omega)
    exact ⟨last, by simp [List.getLast?_cons, failed]⟩

end Course

/-- The delays that were handed out: they do not fall, do not exceed the limit and double from the
base up to it. -/
structure Paced (b : Backoff) (delays : List Nat) : Prop where
  rising : delays.Pairwise (· ≤ ·)
  limited : ∀ d ∈ delays, d ≤ b.maxDelaySecs
  doubled : ∀ k d, k < 33 → delays[k]? = some d → d = min b.maxDelaySecs (b.baseDelaySecs * 2 ^ k)

theorem paced_of_getElem? (fits : b.Fits) {delays : List Nat}
    (h : ∀ k d, delays[k]? = some d → d = b.delaySecs (k + 1)) : Paced b delays where
  rising := by
    refine List.pairwise_iff_getElem.2 fun i j hi hj before => ?_
    rw [h i _ (List.getElem?_eq_getElem hi), h j _ (List.getElem?_eq_getElem hj)]
    exact delaySecs_mono (by omega)
  limited d mem := by
    obtain ⟨k, known⟩ := List.mem_iff_getElem?.1 mem
    rw [h k d known]
    exact delaySecs_le
  doubled k d small known := by
    rw [h k d known, delaySecs_eq fits (by omega)]
    rfl

/-- What failures make of a cleared status. -/
structure Counts (b : Backoff) (s : Status) (failures : List Failure) : Prop where
  entered : ∀ k f r, failures[k]? = some f → (b.course s.clearFailure failures)[k]? = some r →
    Entered b (k + 1) f r
  paced : Paced b (delays (b.course s.clearFailure failures))
  complete : (b.course s.clearFailure failures).length = failures.length ∨
    ∃ t, (b.course s.clearFailure failures).getLast? = some (t, .failed)
  short : (b.course s.clearFailure failures).length ≤
    max 1 (max b.maxRetries b.unknownMaxRetries)
  fails : max 1 (max b.maxRetries b.unknownMaxRetries) ≤ failures.length →
    ∃ t, (b.course s.clearFailure failures).getLast? = some (t, .failed)

/-- Failures are entered into a cleared status, up to the first with which the record has failed. A
permanent one fails it at once; of those that may pass, the `k`-th fails it if the budget of its
category is not larger than `k`. Before, the delays go on doubling up to the limit, and each retry
is due when its delay is over. The record has failed at the latest when the largest budget is
spent. -/
theorem failures_counted (fits : b.Fits) (s : Status) {failures : List Failure}
    (clocks : ∀ f ∈ failures, f.now.InRange) : b.Counts s failures := by
  have count : s.clearFailure.retryCount = 0 := rfl
  have room : 0 < maxCount := by decide
  refine ⟨?entered, ?paced, course_complete fits count room clocks, ?short, ?fails⟩
  case entered =>
    intro k f r known entered
    have := getElem?_course fits count room clocks k f r known entered
    rwa [Nat.zero_add] at this
  case paced =>
    refine paced_of_getElem? fits fun k d known => ?_
    have := getElem?_delays fits count room clocks k d known
    rwa [Nat.zero_add] at this
  case short => exact length_course_le fits count room clocks
  case fails => exact fun many => course_fails fits count room clocks many

/-- A base near the largest word, two categories with different budgets, and a clock that stands on
its last second. -/
theorem failures_counted_mixed :
    let b : Backoff := ⟨Nat.pow 2 60, maxWord, 40, 3⟩
    let failures : List Failure := [
      ⟨.transient, "no route to the host", 7, ⟨1735689600, 0⟩⟩,
      ⟨.unknown, "exit status 2", 7, ⟨Instant.maxSeconds, 999999999⟩⟩,
      ⟨.unknown, "exit status 2", 8, ⟨1735689599, 1500000000⟩⟩,
      ⟨.transient, "no route to the host", 8, ⟨Instant.minSeconds, 0⟩⟩]
    b.Fits ∧ (∀ f ∈ failures, f.now.InRange) ∧ b.Counts {} failures := by
  intro b failures
  have fits : b.Fits := ⟨by decide, by decide, by decide, by decide⟩
  have clocks : ∀ f ∈ failures, f.now.InRange := by
    simp only [failures, List.forall_mem_cons]
    refine ⟨⟨?_, ?_, ?_⟩, ⟨?_, ?_, ?_⟩, ⟨?_, ?_, ?_⟩, ⟨?_, ?_, ?_⟩, fun _ none => nomatch none⟩ <;>
      decide
  exact ⟨fits, clocks, failures_counted fits {} clocks⟩

end Backoff

end Tributary
