import Mathlib.Tactic.IntervalCases
import Tributary.Time.Rfc3339

/-!
# Instants and their texts

Every day from the first to the last one with a date has one, and the number of that date is the
day (`dayNumber_ofDayNumber`, `valid_ofDayNumber`). From that, an instant is read back from its
text (`parse_format`), except that a leap second that does not follow the last second of a minute
is taken for the ordinary second there.
-/

namespace Tributary

namespace Calendar

theorem isLeapYear_iff (y : Int) :
    isLeapYear y = true ↔ y % 4 = 0 ∧ (y % 100 ≠ 0 ∨ y % 400 = 0) := by
  simp [isLeapYear]

theorem isLeapYear_add_era (y e : Int) : isLeapYear (y + e * 400) = isLeapYear y := by
  rw [Bool.eq_iff_iff, isLeapYear_iff, isLeapYear_iff]
  omega

/-! ## Days of an era

An era is 400 years, or 146097 days. Its centuries have 36524 days, but the last one has one
more. -/

/-- The year of an era, counted from March, in which a day lies. -/
def yearOfEra (day : Int) : Int := (day - day / 1460 + day / 36524 - day / 146096) / 365

/-- The day of that year. -/
def dayOfYear (day : Int) : Int :=
  day - (365 * yearOfEra day + yearOfEra day / 4 - yearOfEra day / 100)

section

variable {day : Int} (first : 0 ≤ day) (last : day < 146097)

include first last

theorem yearOfEra_bounds : 0 ≤ yearOfEra day ∧ yearOfEra day ≤ 399 := by
  unfold yearOfEra
  omega

theorem century_bounds :
    0 ≤ day / 36524 ∧ day / 36524 ≤ 4 ∧ (day / 36524 = 4 → day = 146096) ∧
    (day / 36524 = yearOfEra day / 100 ∨ day / 36524 = 4 ∧ yearOfEra day / 100 = 3) := by
  unfold yearOfEra
  have low : 0 ≤ day / 36524 := by omega
  have high : day / 36524 ≤ 4 := by omega
  generalize hc : day / 36524 = century at *
  interval_cases century <;> omega

theorem dayOfYear_bounds : 0 ≤ dayOfYear day ∧ dayOfYear day ≤ 365 := by
  obtain ⟨low, high, top, hundreds⟩ := century_bounds first last
  unfold dayOfYear
  generalize hy : yearOfEra day = year at *
  replace hy := hy.symm
  unfold yearOfEra at hy
  generalize hc : day / 36524 = century at *
  interval_cases century <;> omega

/-- Only a year before whose March there is a leap day has a day 365. -/
theorem leap_of_dayOfYear (h : dayOfYear day = 365) : isLeapYear (yearOfEra day + 1) = true := by
  obtain ⟨low, high, top, hundreds⟩ := century_bounds first last
  rw [isLeapYear_iff]
  unfold dayOfYear at h
  generalize hy : yearOfEra day = year at *
  replace hy := hy.symm
  unfold yearOfEra at hy
  generalize hc : day / 36524 = century at *
  have quadrennium : day / 1460 = year / 4 ∨ day / 1460 = year / 4 + 1 := by
    interval_cases century <;> omega
  have fourth : year % 4 = 3 := by
    rcases quadrennium with q | q <;> rw [q] at hy <;> interval_cases century <;> omega
  rcases quadrennium with q | q <;> rw [q] at hy <;> interval_cases century <;> omega

end

/-! ## Days of a year -/

/-- The date of a day of a year from March. -/
def dateInYear (year day : Int) : Date :=
  let mp := (5 * day + 2) / 153
  let month := if mp < 10 then mp + 3 else mp - 9
  ⟨year + if month ≤ 2 then 1 else 0, month.toNat, (day - daysBeforeMonth mp + 1).toNat⟩

theorem ofDayNumber_eq (n : Int) :
    ofDayNumber n =
      dateInYear (yearOfEra ((n + 719468) % 146097) + (n + 719468) / 146097 * 400)
        (dayOfYear ((n + 719468) % 146097)) := rfl

/-- The first and the last date are in January and in December. -/
theorem dateInYear_valid {year day : Int} (first : 0 ≤ day) (last : day ≤ 365)
    (leap : day = 365 → isLeapYear (year + 1) = true)
    (low : minYear ≤ year ∨ year + 1 = minYear ∧ 306 ≤ day)
    (high : year < maxYear ∨ year = maxYear ∧ day < 306) :
    (dateInYear year day).valid = true := by
  unfold dateInYear Date.valid daysBeforeMonth
  simp only [decide_eq_true_eq]
  have first_month : 0 ≤ (5 * day + 2) / 153 := by omega
  have last_month : (5 * day + 2) / 153 ≤ 11 := by omega
  generalize h : (5 * day + 2) / 153 = mp at *
  interval_cases mp <;> simp [daysInMonth] <;> try omega
  split <;> simp_all <;> omega

theorem dayNumber_dateInYear {year day : Int} (first : 0 ≤ day) (last : day ≤ 365) :
    (dateInYear year day).dayNumber =
      365 * year + year / 4 - year / 100 + year / 400 + day - 719468 := by
  unfold dateInYear Date.dayNumber daysBeforeMonth
  have first_month : 0 ≤ (5 * day + 2) / 153 := by omega
  have last_month : (5 * day + 2) / 153 ≤ 11 := by omega
  generalize h : (5 * day + 2) / 153 = mp at *
  interval_cases mp <;> simp <;> omega

theorem dayNumber_ofDayNumber (n : Int) : (ofDayNumber n).dayNumber = n := by
  have first : 0 ≤ (n + 719468) % 146097 := by omega
  have last : (n + 719468) % 146097 < 146097 := by omega
  obtain ⟨low, high⟩ := dayOfYear_bounds first last
  have years := yearOfEra_bounds first last
  rw [ofDayNumber_eq, dayNumber_dateInYear low high]
  unfold dayOfYear
  generalize yearOfEra ((n + 719468) % 146097) = year at *
  omega

theorem valid_ofDayNumber {n : Int} (low : Instant.minSeconds / 86400 ≤ n)
    (high : n ≤ Instant.maxSeconds / 86400) : (ofDayNumber n).valid = true := by
  have first : 0 ≤ (n + 719468) % 146097 := by omega
  have last : (n + 719468) % 146097 < 146097 := by omega
  obtain ⟨from_march, to_february⟩ := dayOfYear_bounds first last
  have leap (h : dayOfYear ((n + 719468) % 146097) = 365) :
      isLeapYear
        (yearOfEra ((n + 719468) % 146097) + (n + 719468) / 146097 * 400 + 1) = true := by
    rw [Int.add_right_comm, isLeapYear_add_era]
    exact leap_of_dayOfYear first last h
  have number := dayNumber_ofDayNumber n
  rw [ofDayNumber_eq, dayNumber_dateInYear from_march to_february] at number
  rw [ofDayNumber_eq]
  generalize yearOfEra ((n + 719468) % 146097) + (n + 719468) / 146097 * 400 = year at *
  unfold Instant.minSeconds Instant.maxSeconds at *
  refine dateInYear_valid from_march to_february leap ?_ ?_
  · unfold minYear
    rcases Int.lt_trichotomy (year + 1) (-262143) with before | same | after
    · omega
    · obtain rfl : year = -262144 := by omega
      omega
    · omega
  · unfold maxYear
    rcases Int.lt_trichotomy year 262142 with before | rfl | after
    · omega
    · omega
    · omega

end Calendar

namespace Instant

/-- Seconds that have dates, and at most one leap second after each. -/
structure InRange (t : Instant) : Prop where
  first : minSeconds ≤ t.seconds
  last : t.seconds ≤ maxSeconds
  nanos : t.nanos < 2 * nanosPerSecond

/-- The same point of time, in which a leap second only follows the last second of a minute. -/
def settled (t : Instant) : Instant :=
  if t.isLeap ∧ t.seconds % 60 ≠ 59 then ⟨t.seconds + 1, t.nanos - nanosPerSecond⟩ else t

theorem settled_eq_self {t : Instant} :
    t.settled = t ↔ (t.isLeap = true → t.seconds % 60 = 59) := by
  unfold settled
  split
  · next moved =>
    constructor
    · intro same
      have := congrArg Instant.seconds same
      simp at this
    · exact fun h => absurd (h moved.1) moved.2
  · next still =>
    exact ⟨fun _ leap => Decidable.of_not_not fun other => still ⟨leap, other⟩, fun _ => rfl⟩

end Instant

namespace Rfc3339

open Calendar

/-! ## Numerals -/

theorem isBlank_of_isDigit {c : Char} (h : c.isDigit = true) : Text.isBlank c = false := by
  simp only [Char.isDigit, Bool.and_eq_true, decide_eq_true_eq, ge_iff_le] at h
  have low : 48 ≤ c.toNat := h.1
  have high : c.toNat ≤ 57 := h.2
  unfold Text.isBlank
  simp only [decide_eq_false_iff_not]
  omega

theorem skipBlanks_cons {c : Char} (h : Text.isBlank c = false) (rest : List Char) :
    skipBlanks (c :: rest) = c :: rest := by
  simp [skipBlanks, h]

/-- Digits that stand for a number. -/
structure Numeral (n : Nat) (digits : List Char) : Prop where
  digit : ∀ c ∈ digits, c.isDigit = true
  value : valueOf digits = n
  nonempty : digits ≠ []

theorem valueOf_eq (digits : List Char) : valueOf digits = Nat.ofDigitChars 10 digits 0 := by
  rw [valueOf, Nat.ofDigitChars_eq_foldl]
  congr 1
  funext n c
  rw [Nat.mul_comm]

theorem length_padded {width n : Nat} (h : n < 10 ^ width) (pos : 0 < width) :
    (padded width n).toList.length = width := by
  have short : (Nat.toDigits 10 n).length ≤ width :=
    (Nat.length_toDigits_le_iff (by decide) pos).2 h
  simp only [padded, String.toList_ofList, List.length_append, List.length_replicate]
  omega

theorem numeral_padded (width n : Nat) : Numeral n (padded width n).toList := by
  have digits : (padded width n).toList =
      List.replicate (width - (Nat.toDigits 10 n).length) '0' ++ Nat.toDigits 10 n := by
    rw [padded, String.toList_ofList]
  constructor
  · intro c mem
    rw [digits, List.mem_append] at mem
    rcases mem with zero | digit
    · rw [List.eq_of_mem_replicate zero]
      decide
    · exact Nat.isDigit_of_mem_toDigits (by decide) (by decide) digit
  · rw [digits, valueOf_eq, Nat.ofDigitChars_append, Nat.ofDigitChars_replicate_zero, Nat.mul_zero,
      Nat.ofDigitChars_ten_toDigits]
  · rw [digits]
    exact List.append_ne_nil_of_right_ne_nil _ Nat.toDigits_ne_nil

/-- A text that begins with something else than a digit. -/
def Ends (rest : List Char) : Prop := ∀ c ∈ rest.head?, c.isDigit = false

theorem takeWhile_digits {width : Nat} {digits rest : List Char}
    (digit : ∀ c ∈ digits, c.isDigit = true) (short : digits.length ≤ width) (ends : Ends rest) :
    ((digits ++ rest).take width).takeWhile Char.isDigit = digits := by
  rw [List.take_append, List.take_of_length_le short, List.takeWhile_append_of_pos digit]
  cases h : rest.take (width - digits.length) with
  | nil => simp
  | cons c others =>
    have first : c ∈ rest.head? := by
      cases rest with
      | nil => simp at h
      | cons d rest =>
        cases hw : width - digits.length with
        | zero => simp [hw] at h
        | succ k =>
          rw [hw, List.take_succ_cons, List.cons.injEq] at h
          simp [h.1]
    simp [ends c first]

theorem number?_numeral {width n : Nat} {digits rest : List Char} (h : Numeral n digits)
    (short : digits.length ≤ width) (ends : Ends rest) :
    number? width (digits ++ rest) = some (n, rest) := by
  simp only [number?, takeWhile_digits h.digit short ends, h.nonempty, if_false, h.value,
    List.drop_left]

theorem skipBlanks_numeral {n : Nat} {digits : List Char} (h : Numeral n digits)
    (rest : List Char) : skipBlanks (digits ++ rest) = digits ++ rest := by
  cases digits with
  | nil => exact absurd rfl h.nonempty
  | cons c digits => exact skipBlanks_cons (isBlank_of_isDigit (h.digit c List.mem_cons_self)) _

theorem part?_padded {n : Nat} (h : n < 100) {rest : List Char} (ends : Ends rest) :
    part? 2 ((padded 2 n).toList ++ rest) = some (n, rest) := by
  rw [part?, skipBlanks_numeral (numeral_padded 2 n)]
  exact number?_numeral (numeral_padded 2 n) (length_padded h (by decide)).le ends

theorem mark?_cons {c : Char} (h : Text.isBlank c = false) (rest : List Char) :
    mark? c (c :: rest) = some rest := by
  simp [mark?, skipBlanks_cons h]

/-- A mark before a text. -/
theorem marked {mark : String} {c : Char} (h : mark.toList = [c]) (s : String)
    (rest : List Char) : (mark ++ s).toList ++ rest = c :: (s.toList ++ rest) := by
  rw [String.toList_append, h]
  rfl

/-! ## Years and fractions -/

theorem year?_numeral {n : Nat} {digits rest : List Char} (h : Numeral n digits)
    (short : digits.length ≤ 4) (ends : Ends rest) :
    year? (digits ++ rest) = some ((n : Int), rest) := by
  have read := number?_numeral h short ends
  rw [year?, skipBlanks_numeral h]
  split
  · next others start =>
    obtain ⟨c, others, rfl⟩ := List.exists_cons_of_ne_nil h.nonempty
    obtain ⟨rfl, -⟩ := List.cons.inj start
    exact absurd (h.digit '-' List.mem_cons_self) (by decide)
  · next others start =>
    obtain ⟨c, others, rfl⟩ := List.exists_cons_of_ne_nil h.nonempty
    obtain ⟨rfl, -⟩ := List.cons.inj start
    exact absurd (h.digit '+' List.mem_cons_self) (by decide)
  · rw [read, Option.map_some]

theorem year?_minus (rest : List Char) :
    year? ('-' :: rest) = (number? rest.length rest).map fun (n, r) => (-(n : Int), r) := rfl

theorem year?_plus (rest : List Char) :
    year? ('+' :: rest) = (number? rest.length rest).map fun (n, r) => ((n : Int), r) := rfl

theorem year?_yearText (y : Int) {rest : List Char} (ends : Ends rest) :
    year? ((yearText y).toList ++ rest) = some (y, rest) := by
  have signed (n : Nat) : number? ((padded 4 n).toList ++ rest).length
      ((padded 4 n).toList ++ rest) = some (n, rest) :=
    number?_numeral (numeral_padded 4 n) (by simp) ends
  unfold yearText
  split
  · next plain =>
    have small : y.toNat < 10 ^ 4 := by omega
    rw [year?_numeral (numeral_padded 4 y.toNat) (length_padded small (by decide)).le ends,
      Int.toNat_of_nonneg plain.1]
  · split
    · next negative =>
      have value : -((-y).toNat : Int) = y := by omega
      rw [marked (c := '-') rfl, year?_minus, signed, Option.map_some]
      simp only [value]
    · next large =>
      have value : (y.toNat : Int) = y := by omega
      rw [marked (c := '+') rfl, year?_plus, signed, Option.map_some]
      simp only [value]

theorem fraction?_numeral {n : Nat} {digits rest : List Char} (h : Numeral n digits)
    (short : digits.length ≤ 9) (ends : Ends rest) :
    fraction? ('.' :: (digits ++ rest)) = some (n * 10 ^ (9 - digits.length), rest) := by
  have stop : rest.dropWhile Char.isDigit = rest := by
    cases rest with
    | nil => rfl
    | cons c rest => simp [ends c rfl]
  simp [fraction?, takeWhile_digits h.digit short ends, h.nonempty, h.value, stop]

theorem fraction?_fractionText {nanos : Nat} (h : nanos < Instant.nanosPerSecond) :
    fraction? ((fractionText nanos).toList ++ ['Z']) = some (nanos, ['Z']) := by
  have ends : Ends ['Z'] := fun c mem => Option.some.inj mem ▸ by decide
  have written {width n : Nat} (bound : n < 10 ^ width) (pos : 0 < width) (short : width ≤ 9)
      (exact : n * 10 ^ (9 - width) = nanos) :
      fraction? (("." ++ padded width n).toList ++ ['Z']) = some (nanos, ['Z']) := by
    have length := length_padded bound pos
    rw [marked (c := '.') rfl,
      fraction?_numeral (numeral_padded width n) (by omega) ends, length, exact]
  unfold Instant.nanosPerSecond at h
  unfold fractionText
  split
  · next zero =>
    subst zero
    rfl
  · split
    · exact written (by omega) (by decide) (by decide) (by omega)
    · split
      · exact written (by omega) (by decide) (by decide) (by omega)
      · exact written (by omega) (by decide) (by decide) (by omega)

/-! ## Whole texts -/

theorem separator?_time (rest : List Char) : separator? ('T' :: rest) = some rest := rfl

theorem bind_of_eq_some {α β : Type} {x : Option α} {a : α} (h : x = some a)
    {f : α → Option β} : (x >>= f) = f a := by
  rw [h]
  rfl

/-- The parts of a text in UTC are read in their order. -/
theorem parseChars_parts {year : Int} {month day hour minute second nanos : Nat}
    (hmonth : month < 100) (hday : day < 100) (hhour : hour < 100) (hminute : minute < 100)
    (hsecond : second < 100) (hnanos : nanos < Instant.nanosPerSecond) :
    parseChars ((yearText year).toList ++ '-' :: ((padded 2 month).toList ++ '-' ::
      ((padded 2 day).toList ++ 'T' :: ((padded 2 hour).toList ++ ':' ::
      ((padded 2 minute).toList ++ ':' :: ((padded 2 second).toList ++
      ((fractionText nanos).toList ++ ['Z']))))))) =
    instant? ⟨year, month, day⟩ hour minute second nanos 0 := by
  have ends {c : Char} (other : c.isDigit = false) (rest : List Char) : Ends (c :: rest) :=
    fun d mem => Option.some.inj mem ▸ other
  have after : Ends ((fractionText nanos).toList ++ ['Z']) := by
    unfold fractionText
    split
    · exact ends (by decide) _
    · split
      · rw [marked (c := '.') rfl]
        exact ends (by decide) _
      · split
        · rw [marked (c := '.') rfl]
          exact ends (by decide) _
        · rw [marked (c := '.') rfl]
          exact ends (by decide) _
  refine (bind_of_eq_some (year?_yearText year (ends (by decide) _))).trans ?_
  refine (bind_of_eq_some (mark?_cons (by decide) _)).trans ?_
  refine (bind_of_eq_some (part?_padded hmonth (ends (by decide) _))).trans ?_
  refine (bind_of_eq_some (mark?_cons (by decide) _)).trans ?_
  refine (bind_of_eq_some (part?_padded hday (ends (by decide) _))).trans ?_
  refine (bind_of_eq_some (separator?_time _)).trans ?_
  refine (bind_of_eq_some (part?_padded hhour (ends (by decide) _))).trans ?_
  refine (bind_of_eq_some (mark?_cons (by decide) _)).trans ?_
  refine (bind_of_eq_some (part?_padded hminute (ends (by decide) _))).trans ?_
  refine (bind_of_eq_some (mark?_cons (by decide) _)).trans ?_
  refine (bind_of_eq_some (part?_padded hsecond after)).trans ?_
  exact (bind_of_eq_some (fraction?_fractionText hnanos)).trans rfl

theorem Date.bounds_of_valid {d : Date} (h : d.valid = true) : d.month < 100 ∧ d.day < 100 := by
  have most : daysInMonth d.year d.month ≤ 31 := by
    unfold daysInMonth
    split <;> first | omega | (split <;> omega)
  simp only [Date.valid, decide_eq_true_eq] at h
  omega

/-- The instant of a second of a day in UTC; the second 60 is the leap second after 59. -/
theorem instant?_utc {seconds : Int} {second nanos : Nat} (first : Instant.minSeconds ≤ seconds)
    (last : seconds ≤ Instant.maxSeconds)
    (same : min second 59 = (seconds % 86400).toNat % 60) (in_minute : second ≤ 60) :
    instant? (ofDayNumber (seconds / 86400)) ((seconds % 86400).toNat / 3600)
      ((seconds % 86400).toNat / 60 % 60) second nanos 0 =
    some ⟨seconds, if second = 60 then nanos + Instant.nanosPerSecond else nanos⟩ := by
  have valid : (ofDayNumber (seconds / 86400)).valid = true := by
    apply valid_ofDayNumber <;> omega
  have together : (ofDayNumber (seconds / 86400)).dayNumber * 86400 +
      ((((seconds % 86400).toNat / 3600 : Nat) : Int) * 3600 +
        (((seconds % 86400).toNat / 60 % 60 : Nat) : Int) * 60 + (min second 59 : Nat)) - 0 =
      seconds := by
    rw [dayNumber_ofDayNumber]
    omega
  unfold instant?
  simp only [together]
  rw [if_pos ⟨valid, by omega, by omega, in_minute, by decide, by decide⟩,
    if_pos ⟨first, last⟩]

theorem parse_format {t : Instant} (h : t.InRange) : parse (format t) = some t.settled := by
  obtain ⟨first, last, nanos⟩ := h
  have date_first : Instant.minSeconds / 86400 ≤ t.seconds / 86400 := by omega
  have date_last : t.seconds / 86400 ≤ Instant.maxSeconds / 86400 := by omega
  obtain ⟨month, day⟩ := Date.bounds_of_valid (valid_ofDayNumber date_first date_last)
  have texts : (format t).toList =
      (yearText (ofDayNumber (t.seconds / 86400)).year).toList ++ '-' ::
      ((padded 2 (ofDayNumber (t.seconds / 86400)).month).toList ++ '-' ::
      ((padded 2 (ofDayNumber (t.seconds / 86400)).day).toList ++ 'T' ::
      ((padded 2 ((t.seconds % 86400).toNat / 3600)).toList ++ ':' ::
      ((padded 2 ((t.seconds % 86400).toNat / 60 % 60)).toList ++ ':' ::
      ((padded 2 ((t.seconds % 86400).toNat % 60 + if t.isLeap then 1 else 0)).toList ++
      ((fractionText (if t.isLeap then t.nanos - Instant.nanosPerSecond else t.nanos)).toList ++
        ['Z'])))))) := by
    simp [format]
  have hour : (t.seconds % 86400).toNat / 3600 < 100 := by omega
  have minute : (t.seconds % 86400).toNat / 60 % 60 < 100 := by omega
  rw [parse, texts]
  unfold Instant.settled
  cases leap : t.isLeap with
  | false =>
    have fraction : t.nanos < Instant.nanosPerSecond := by simpa [Instant.isLeap] using leap
    simp only [Bool.false_eq_true, if_false, false_and, Nat.add_zero]
    rw [parseChars_parts month day hour minute (by omega) fraction,
      instant?_utc first last (by omega) (by omega), if_neg (by omega)]
  | true =>
    have fraction : t.nanos - Instant.nanosPerSecond < Instant.nanosPerSecond := by omega
    have whole : Instant.nanosPerSecond ≤ t.nanos := by simpa [Instant.isLeap] using leap
    simp only [if_true, true_and]
    rw [parseChars_parts month day hour minute (by omega) fraction]
    by_cases ends_minute : t.seconds % 60 = 59
    · rw [instant?_utc first last (by omega) (by omega), if_pos (by omega),
        if_neg (fun h => h ends_minute), Nat.sub_add_cancel whole]
    · -- Within the minute the leap second is told as the second that comes next.
      have next : t.seconds + 1 ≤ Instant.maxSeconds := by
        unfold Instant.maxSeconds at *
        omega
      have read : instant? (ofDayNumber ((t.seconds + 1) / 86400))
          (((t.seconds + 1) % 86400).toNat / 3600) (((t.seconds + 1) % 86400).toNat / 60 % 60)
          ((t.seconds % 86400).toNat % 60 + 1) (t.nanos - Instant.nanosPerSecond) 0 = _ :=
        instant?_utc (by omega) next (by omega) (by omega)
      have date : (t.seconds + 1) / 86400 = t.seconds / 86400 := by omega
      have same_hour : ((t.seconds + 1) % 86400).toNat / 3600 =
          (t.seconds % 86400).toNat / 3600 := by omega
      have same_minute : ((t.seconds + 1) % 86400).toNat / 60 % 60 =
          (t.seconds % 86400).toNat / 60 % 60 := by omega
      rw [date, same_hour, same_minute, if_neg (by omega)] at read
      rw [read, if_pos ends_minute]

end Rfc3339

end Tributary
