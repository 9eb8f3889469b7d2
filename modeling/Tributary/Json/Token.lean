import Tributary.Json.Value

/-!
# Tokens of JSON texts

A text is read byte by byte: a character here is the byte of that number, and the
bytes between two quotes become text at the end. A token can be well written and
still stand for nothing, such as half of a surrogate pair or a number beyond the
largest double; it then carries `none`, and only a reader that needs its value fails.
-/

namespace Tributary.Json

inductive Token where
  | openArr
  | closeArr
  | openObj
  | closeObj
  | comma
  | colon
  | null
  | bool (value : Bool)
  | num (value : Option Number)
  | str (value : Option String)

/-- Space, tab, line feed and carriage return. -/
def isBlank (c : Char) : Bool := c = ' ' ∨ c = '\t' ∨ c = '\n' ∨ c = '\r'

/-- What is written of a number: digits before the point, after it, and of the
exponent. -/
structure Lexeme where
  negative : Bool
  whole : List Nat
  fraction : Option (List Nat)
  exponent : Option (Bool × List Nat)

/-- Appends decimal digits while the result fits 64 bits, and returns those left over. -/
def absorb : Nat → List Nat → Nat × List Nat
  | n, [] => (n, [])
  | n, d :: rest => if n * 10 + d < Nat.pow 2 64 then absorb (n * 10 + d) rest else (n, d :: rest)

def ofDigits (digits : List Nat) : Nat := digits.foldl (fun n d => n * 10 + d) 0

/-- A whole number that fits 64 bits is an integer. Any other number, and minus zero, is
the double of its leading digits that fit 64 bits, scaled by the power of ten that is
left; it is no number if that is too large. -/
def Lexeme.number? (l : Lexeme) : Option Number :=
  let (whole, dropped) := absorb 0 l.whole
  if dropped = [] ∧ l.fraction = none ∧ l.exponent = none then
    if !l.negative then some (.int whole)
    else if whole = 0 ∨ Nat.pow 2 63 < whole then
      (Decimal.Double.round? true whole 1).map .double
    else some (.int (-whole))
  else
    let fraction := l.fraction.getD []
    let (significand, left) := absorb whole fraction
    let power : Int := dropped.length - (fraction.length - left.length : Nat)
    let (down, exponent) := l.exponent.getD (false, [])
    let size := ofDigits exponent
    if Nat.pow 2 31 ≤ size then
      if significand ≠ 0 ∧ !down then none else some (.double (.zero l.negative))
    else
      let power := if down then power - size else power + size
      (Decimal.Double.scaled? l.negative significand power).map .double

def digitValue (c : Char) : Nat := c.toNat - '0'.toNat

/-- The leading decimal digits and what follows them. -/
def spanDigits (s : List Char) : List Nat × List Char :=
  ((s.takeWhile Char.isDigit).map digitValue, s.dropWhile Char.isDigit)

/-- Digits, of which there must be one. -/
def digits? (s : List Char) : Option (List Nat × List Char) :=
  match spanDigits s with
  | ([], _) => none
  | found => some found

/-- A zero stands alone before the point. -/
def whole? : List Char → Option (List Nat × List Char)
  | '0' :: rest => some ([0], rest)
  | s => digits? s

def fraction? : List Char → Option (Option (List Nat) × List Char)
  | '.' :: rest => (digits? rest).map fun (ds, rest) => (some ds, rest)
  | s => some (none, s)

def signedDigits? : List Char → Option ((Bool × List Nat) × List Char)
  | '+' :: rest => (digits? rest).map fun (ds, rest) => ((false, ds), rest)
  | '-' :: rest => (digits? rest).map fun (ds, rest) => ((true, ds), rest)
  | s => (digits? s).map fun (ds, rest) => ((false, ds), rest)

def exponent? : List Char → Option (Option (Bool × List Nat) × List Char)
  | 'e' :: rest => (signedDigits? rest).map fun (e, rest) => (some e, rest)
  | 'E' :: rest => (signedDigits? rest).map fun (e, rest) => (some e, rest)
  | s => some (none, s)

def unsigned? (negative : Bool) (s : List Char) : Option (Lexeme × List Char) := do
  let (whole, s) ← whole? s
  let (fraction, s) ← fraction? s
  let (exponent, s) ← exponent? s
  return (⟨negative, whole, fraction, exponent⟩, s)

def lexeme? : List Char → Option (Lexeme × List Char)
  | '-' :: rest => unsigned? true rest
  | s => unsigned? false s

def hexValue (c : Char) : Option Nat :=
  if c.isDigit then some (c.toNat - '0'.toNat)
  else if 'a' ≤ c ∧ c ≤ 'f' then some (c.toNat - 'a'.toNat + 10)
  else if 'A' ≤ c ∧ c ≤ 'F' then some (c.toNat - 'A'.toNat + 10)
  else none

def unit? (a b c d : Char) : Option Nat := do
  return (((← hexValue a) * 16 + (← hexValue b)) * 16 + (← hexValue c)) * 16 + (← hexValue d)

/-- A piece between two quotes: a byte as it stands, or a 16-bit unit written in
hexadecimal. -/
inductive Piece where
  | byte (value : UInt8)
  | unit (value : Nat)

def simpleEscape : Char → Option Char
  | '"' => some '"'
  | '\\' => some '\\'
  | '/' => some '/'
  | 'b' => some '\x08'
  | 'f' => some '\x0c'
  | 'n' => some '\n'
  | 'r' => some '\r'
  | 't' => some '\t'
  | _ => none

def byteOf (c : Char) : UInt8 := c.toNat.toUInt8

/-- The pieces up to the closing quote, and what follows it. -/
def pieces? : List Char → Option (List Piece × List Char)
  | [] => none
  | '"' :: rest => some ([], rest)
  | '\\' :: 'u' :: a :: b :: c :: d :: rest =>
    (unit? a b c d).bind fun n => (pieces? rest).map fun (ps, r) => (.unit n :: ps, r)
  | '\\' :: e :: rest =>
    (simpleEscape e).bind fun c => (pieces? rest).map fun (ps, r) => (.byte (byteOf c) :: ps, r)
  | c :: rest =>
    if c.toNat < 0x20 ∨ c = '\\' then none
    else (pieces? rest).map fun (ps, r) => (.byte (byteOf c) :: ps, r)

def encode (n : Nat) : List UInt8 := (String.singleton (Char.ofNat n)).toUTF8.toList

/-- The bytes that pieces stand for; a high surrogate needs a low one right after it, and
a low one does not stand alone. -/
def bytes? : List Piece → Option (List UInt8)
  | [] => some []
  | .byte b :: rest => (bytes? rest).map (b :: ·)
  | .unit hi :: .unit lo :: rest =>
    if 0xD800 ≤ hi ∧ hi < 0xDC00 then
      if 0xDC00 ≤ lo ∧ lo < 0xE000 then
        (bytes? rest).map (encode (0x10000 + (hi - 0xD800) * 0x400 + (lo - 0xDC00)) ++ ·)
      else none
    else if 0xDC00 ≤ hi ∧ hi < 0xE000 then none
    else (bytes? (.unit lo :: rest)).map (encode hi ++ ·)
  | .unit n :: rest =>
    if 0xD800 ≤ n ∧ n < 0xE000 then none else (bytes? rest).map (encode n ++ ·)

def textOf (ps : List Piece) : Option String :=
  (bytes? ps).bind fun bs => String.fromUTF8? ⟨bs.toArray⟩

/-- The token at the start of a text. -/
def token? : List Char → Option (Token × List Char)
  | '[' :: rest => some (.openArr, rest)
  | ']' :: rest => some (.closeArr, rest)
  | '{' :: rest => some (.openObj, rest)
  | '}' :: rest => some (.closeObj, rest)
  | ',' :: rest => some (.comma, rest)
  | ':' :: rest => some (.colon, rest)
  | 'n' :: 'u' :: 'l' :: 'l' :: rest => some (.null, rest)
  | 't' :: 'r' :: 'u' :: 'e' :: rest => some (.bool true, rest)
  | 'f' :: 'a' :: 'l' :: 's' :: 'e' :: rest => some (.bool false, rest)
  | '"' :: rest => (pieces? rest).map fun (ps, r) => (.str (textOf ps), r)
  | s => (lexeme? s).map fun (l, r) => (.num l.number?, r)

theorem length_dropWhile_le (p : Char → Bool) (s : List Char) :
    (s.dropWhile p).length ≤ s.length :=
  (List.dropWhile_sublist p).length_le

theorem digits?_length {s r : List Char} {ds : List Nat} (h : digits? s = some (ds, r)) :
    r.length < s.length := by
  unfold digits? spanDigits at h
  split at h
  · simp at h
  · next hne =>
    cases s with
    | nil => exact absurd rfl (hne _)
    | cons c rest =>
      by_cases hc : c.isDigit
      · simp only [List.takeWhile_cons, List.dropWhile_cons, hc] at h
        simp only [Option.some.injEq, Prod.mk.injEq] at h
        have := length_dropWhile_le Char.isDigit rest
        simp only [List.length_cons]
        rw [← h.2]
        simp only [↓reduceIte]
        omega
      · simp [hc] at hne

theorem whole?_length {s r : List Char} {ds : List Nat} (h : whole? s = some (ds, r)) :
    r.length < s.length := by
  unfold whole? at h
  split at h
  · simp only [Option.some.injEq, Prod.mk.injEq] at h
    simp [← h.2]
  · exact digits?_length h

theorem fraction?_length {s r : List Char} {f} (h : fraction? s = some (f, r)) :
    r.length ≤ s.length := by
  unfold fraction? at h
  split at h
  · simp only [Option.map_eq_some_iff, Prod.mk.injEq, Prod.exists] at h
    obtain ⟨ds, r', hd, -, rfl⟩ := h
    have := digits?_length hd
    simp only [List.length_cons]; omega
  · simp only [Option.some.injEq, Prod.mk.injEq] at h
    simp [← h.2]

theorem signedDigits?_length {s r : List Char} {e} (h : signedDigits? s = some (e, r)) :
    r.length ≤ s.length := by
  unfold signedDigits? at h
  split at h <;>
  · simp only [Option.map_eq_some_iff, Prod.mk.injEq, Prod.exists] at h
    obtain ⟨ds, r', hd, -, rfl⟩ := h
    have := digits?_length hd
    grind

theorem exponent?_length {s r : List Char} {e} (h : exponent? s = some (e, r)) :
    r.length ≤ s.length := by
  unfold exponent? at h
  split at h
  · simp only [Option.map_eq_some_iff, Prod.mk.injEq, Prod.exists] at h
    obtain ⟨_, _, r', hd, -, rfl⟩ := h
    have := signedDigits?_length hd
    simp only [List.length_cons]; omega
  · simp only [Option.map_eq_some_iff, Prod.mk.injEq, Prod.exists] at h
    obtain ⟨_, _, r', hd, -, rfl⟩ := h
    have := signedDigits?_length hd
    simp only [List.length_cons]; omega
  · simp only [Option.some.injEq, Prod.mk.injEq] at h
    simp [← h.2]

theorem unsigned?_length {n : Bool} {s r : List Char} {l} (h : unsigned? n s = some (l, r)) :
    r.length < s.length := by
  simp only [unsigned?, Option.bind_eq_bind, Option.bind_eq_some_iff, Prod.exists] at h
  obtain ⟨w, s₁, hw, f, s₂, hf, e, s₃, he, hr⟩ := h
  have h₁ := whole?_length hw
  have h₂ := fraction?_length hf
  have h₃ := exponent?_length he
  have : s₃ = r := by simpa using congrArg (·.map Prod.snd) hr
  subst this
  omega

theorem lexeme?_length {s r : List Char} {l} (h : lexeme? s = some (l, r)) :
    r.length < s.length := by
  unfold lexeme? at h
  split at h
  · have := unsigned?_length h
    simp only [List.length_cons]; omega
  · exact unsigned?_length h

theorem pieces?_length {s r : List Char} {ps} (h : pieces? s = some (ps, r)) :
    r.length < s.length := by
  fun_induction pieces? s generalizing ps r with
  | case1 => simp at h
  | case2 rest => simp at h; simp [h.2]
  | case3 a b c d rest ih =>
    simp only [Option.bind_eq_some_iff, Option.map_eq_some_iff, Prod.exists] at h
    obtain ⟨n, _, ps', r', hp, he⟩ := h
    have := ih hp
    simp only [Prod.mk.injEq] at he
    simp only [List.length_cons, ← he.2]; omega
  | case4 e rest _ ih =>
    simp only [Option.bind_eq_some_iff, Option.map_eq_some_iff, Prod.exists] at h
    obtain ⟨n, _, ps', r', hp, he⟩ := h
    have := ih hp
    simp only [Prod.mk.injEq] at he
    simp only [List.length_cons, ← he.2]; omega
  | case5 => simp at h
  | case6 c rest _ _ _ _ ih =>
    simp only [Option.map_eq_some_iff, Prod.exists] at h
    obtain ⟨ps', r', hp, he⟩ := h
    have := ih hp
    simp only [Prod.mk.injEq] at he
    simp only [List.length_cons, ← he.2]; omega

theorem pieces?_map_length (f : List Piece → Token) {c : Char} {s r : List Char} {t}
    (h : ((pieces? s).map fun (ps, r) => (f ps, r)) = some (t, r)) :
    r.length < (c :: s).length := by
  simp only [Option.map_eq_some_iff, Prod.exists, Prod.mk.injEq] at h
  obtain ⟨_, r', hp, -, rfl⟩ := h
  have := pieces?_length hp
  simp only [List.length_cons]; omega

theorem lexeme?_map_length (f : Lexeme → Token) {s r : List Char} {t}
    (h : ((lexeme? s).map fun (l, r) => (f l, r)) = some (t, r)) : r.length < s.length := by
  simp only [Option.map_eq_some_iff, Prod.exists, Prod.mk.injEq] at h
  obtain ⟨_, r', hp, -, rfl⟩ := h
  exact lexeme?_length hp

theorem token?_length {s r : List Char} {t} (h : token? s = some (t, r)) :
    r.length < s.length := by
  unfold token? at h
  split at h
  case h_10 => exact pieces?_map_length (fun ps => .str (textOf ps)) h
  case h_11 => exact lexeme?_map_length (fun l => .num l.number?) h
  all_goals
    simp only [Option.some.injEq, Prod.mk.injEq] at h
    simp only [← h.2, List.length_cons]; omega

/-- All tokens of a text, blanks between them left out. -/
def tokens? (s : List Char) : Option (List Token) :=
  match s.dropWhile isBlank, length_dropWhile_le isBlank s with
  | [], _ => some []
  | c :: cs, hle =>
    match h : token? (c :: cs) with
    | none => none
    | some (t, rest) =>
      have : rest.length < s.length := Nat.lt_of_lt_of_le (token?_length h) hle
      (tokens? rest).map (t :: ·)
termination_by s.length

end Tributary.Json
