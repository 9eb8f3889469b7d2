import Tributary.Decimal.Double

/-!
# The shortest decimal that reads back

Every decimal in the interval of reals that round to a given number reads back
as that number. `shortest` takes one with the fewest digits and, among those, the
one nearest to the exact value, an exact tie going to the even last digit.
-/

namespace Tributary.Decimal

/-- `digits · 10 ^ power`. -/
structure Numeral where
  digits : Nat
  power : Int
  deriving DecidableEq, Repr

/-- Numerator and denominator of `n / d` divided by `10 ^ p`. -/
def unscaleTen (n d : Nat) (p : Int) : Nat × Nat :=
  if 0 ≤ p then (n, d * Nat.pow 10 p.toNat) else (n * Nat.pow 10 (-p).toNat, d)

/-- The reals that round to a number: four fractions over one denominator, the
bounds belonging to the interval when `closed`. -/
structure Interval where
  lower : Nat
  value : Nat
  upper : Nat
  den : Nat
  closed : Bool

/-- Half a step up and half a step down; below a power of two the step down is
half as wide. -/
def Double.interval (x : Double) : Interval :=
  let m := x.significand
  let narrow := m = Nat.pow 2 52 ∧ -1074 < x.exponent
  let e := x.exponent - 2
  let scale := if 0 ≤ e then Nat.pow 2 e.toNat else 1
  let den := if 0 ≤ e then 1 else Nat.pow 2 (-e).toNat
  { lower := (4 * m - if narrow then 1 else 2) * scale
    value := 4 * m * scale
    upper := (4 * m + 2) * scale
    den
    closed := m % 2 = 0 }

/-- Whether `c · 10 ^ p` is in the interval. -/
def Interval.holds (i : Interval) (p : Int) (c : Nat) : Bool :=
  let (lo, d) := unscaleTen i.lower i.den p
  let (hi, _) := unscaleTen i.upper i.den p
  if i.closed then lo ≤ c * d ∧ c * d ≤ hi else lo < c * d ∧ c * d < hi

/-- The power of ten of the leading digit of `n / d`. -/
def magnitude (n d : Nat) : Int :=
  let guess := (((n.log2 : Int) - (d.log2 : Int)) * 1233) / 4096
  let atLeast (k : Int) : Bool :=
    if 0 ≤ k then d * Nat.pow 10 k.toNat ≤ n else d ≤ n * Nat.pow 10 (-k).toNat
  if atLeast (guess + 1) then guess + 1
  else if atLeast guess then guess
  else guess - 1

/-- The multiple of `10 ^ p` that reads back, if one of the two neighbours of the
value does: the nearer one, and the even one of two at the same distance. -/
def Interval.onGrid (i : Interval) (p : Int) : Option Nat :=
  let (n, d) := unscaleTen i.value i.den p
  let q := n / d
  match i.holds p q, i.holds p (q + 1) with
  | true, true => some (roundDiv n d)
  | true, false => some q
  | false, true => some (q + 1)
  | false, false => none

/-- Moves trailing zeros of the digits into the power. -/
def Numeral.trim (x : Numeral) : Numeral :=
  if h : x.digits ≠ 0 ∧ x.digits % 10 = 0 then
    have : x.digits / 10 < x.digits := Nat.div_lt_self (by omega) (by decide)
    Numeral.trim ⟨x.digits / 10, x.power + 1⟩
  else x
termination_by x.digits

/-- The first grid with a hit, from the coarsest to the 17 digits that always suffice. -/
def Interval.search (i : Interval) (top : Int) (count : Nat) : Nat → Numeral
  | 0 =>
    let (n, d) := unscaleTen i.value i.den (top - count)
    ⟨roundDiv n d, top - count⟩
  | fuel + 1 =>
    match i.onGrid (top - count) with
    | some digits => ⟨digits, top - count⟩
    | none => i.search top (count + 1) fuel

/-- The shortest decimal that reads back, for the absolute value of a number other
than zero. -/
def shortest (x : Double) : Numeral :=
  let i := x.interval
  (i.search (magnitude i.value i.den) 0 16).trim

/-- How a number is laid out: an exponent of the leading digit from `-5` to `15` is
written positionally with at least one fraction digit, any other one after an `e`. -/
structure Layout where
  /-- The sign written before an exponent that is not negative. -/
  plus : String

/-- The digits of a natural number in decimal. -/
def digitsOf (n : Nat) : String := String.ofList (Nat.toDigits 10 n)

def Layout.magnitudeText (layout : Layout) (x : Double) : String :=
  if x.isZero then "0.0"
  else
    let s := shortest x
    let ds := Nat.toDigits 10 s.digits
    let n := ds.length
    let lead : Int := s.power + n - 1
    if -5 ≤ lead ∧ lead ≤ 15 then
      if 0 ≤ s.power then
        String.ofList (ds ++ List.replicate s.power.toNat '0') ++ ".0"
      else if 0 ≤ lead then
        let whole := (lead + 1).toNat
        String.ofList (ds.take whole) ++ "." ++ String.ofList (ds.drop whole)
      else "0." ++ String.ofList (List.replicate (-lead - 1).toNat '0' ++ ds)
    else
      let mantissa := match ds with
        | [] => ""
        | [d] => String.singleton d
        | d :: rest => String.singleton d ++ "." ++ String.ofList rest
      let exponent :=
        if lead < 0 then "-" ++ digitsOf (-lead).toNat else layout.plus ++ digitsOf lead.toNat
      mantissa ++ "e" ++ exponent

/-- The text of a number, a negative one after a minus sign. -/
def Layout.text (layout : Layout) (x : Double) : String :=
  if x.negative then "-" ++ layout.magnitudeText x else layout.magnitudeText x

end Tributary.Decimal
