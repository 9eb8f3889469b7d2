/-!
# Finite binary64 numbers

A `Double` is a sign, a significand and a power of two, with one form for each
value. `Double.round?` is the nearest one to a fraction, a tie going to the even
significand; multiplication, division and reading of decimals are stated with
it, so each of them rounds exactly once.
-/

namespace Tributary.Decimal

/-- The pairs that stand for a value in the one admitted form: 53 bits at most,
all of them in use unless the exponent is the least one. -/
def Canonical (significand : Nat) (exponent : Int) : Prop :=
  significand < Nat.pow 2 53 ∧ -1074 ≤ exponent ∧ exponent ≤ 971 ∧
    (Nat.pow 2 52 ≤ significand ∨ exponent = -1074)

instance (m : Nat) (e : Int) : Decidable (Canonical m e) := by
  unfold Canonical; infer_instance

/-- `± significand · 2 ^ exponent`. -/
structure Double where
  negative : Bool
  significand : Nat
  exponent : Int
  canonical : Canonical significand exponent
  deriving DecidableEq

/-- The integer nearest to `num / den`; a tie goes to the even one. -/
def roundDiv (num den : Nat) : Nat :=
  let q := num / den
  let r := num % den
  if 2 * r < den then q
  else if den < 2 * r then q + 1
  else if q % 2 = 0 then q else q + 1

/-- Numerator and denominator of `(num / den) / 2 ^ e`. -/
def unscale (num den : Nat) (e : Int) : Nat × Nat :=
  if 0 ≤ e then (num, den * Nat.pow 2 e.toNat) else (num * Nat.pow 2 (-e).toNat, den)

namespace Double

def zero (negative : Bool) : Double := ⟨negative, 0, -1074, by decide⟩

instance : Inhabited Double := ⟨zero false⟩

def isZero (x : Double) : Bool := x.significand = 0

/-- The exponent at which `num / den` has a significand of 53 bits, or the least
exponent if that one is smaller. -/
def exponentFor (num den : Nat) : Int :=
  let guess := max ((num.log2 : Int) - (den.log2 : Int) - 53) (-1074)
  let (n, d) := unscale num den guess
  if n / d < Nat.pow 2 53 then guess else guess + 1

/-- The number nearest to `± num / den`, if that is not beyond the largest one. -/
def round? (negative : Bool) (num den : Nat) : Option Double :=
  if num = 0 then some (zero negative)
  else
    let e := exponentFor num den
    let (n, d) := unscale num den e
    let m := roundDiv n d
    let (m, e) := if m = Nat.pow 2 53 then (Nat.pow 2 52, e + 1) else (m, e)
    if h : Canonical m e then some ⟨negative, m, e, h⟩ else none

/-- The absolute value as a fraction. -/
def fraction (x : Double) : Nat × Nat :=
  if 0 ≤ x.exponent then (x.significand * Nat.pow 2 x.exponent.toNat, 1)
  else (x.significand, Nat.pow 2 (-x.exponent).toNat)

/-- The rounded product, or `none` if it is too large. -/
def mul? (x y : Double) : Option Double :=
  let (a, b) := x.fraction
  let (c, d) := y.fraction
  round? (x.negative != y.negative) (a * c) (b * d)

/-- The rounded quotient by a number other than zero, or `none` if it is too large. -/
def div? (x y : Double) : Option Double :=
  let (a, b) := x.fraction
  let (c, d) := y.fraction
  round? (x.negative != y.negative) (a * d) (b * c)

/-- The number nearest to `10 ^ k`, for `k` up to 308. -/
def powerOfTen (k : Nat) : Double := (round? false (Nat.pow 10 k) 1).getD (zero false)

/-- `x / 10 ^ k` by quotients of at most 308 places each; it stops at zero. -/
def shrink (x : Double) (k : Nat) : Option Double :=
  if h : k ≤ 308 then x.div? (powerOfTen k)
  else if x.isZero then some x
  else (x.div? (powerOfTen 308)).bind fun y => shrink y (k - 308)
termination_by k
decreasing_by omega

/-- A 64-bit significand scaled by a power of ten: the significand is rounded
first and every scaling rounds again. A value that is too large gives `none`, one
that is too small gives zero. -/
def scaled? (negative : Bool) (significand : Nat) (power : Int) : Option Double :=
  (round? negative significand 1).bind fun x =>
    if power < 0 then x.shrink (-power).toNat
    else if power ≤ 308 then x.mul? (powerOfTen power.toNat)
    else if x.isZero then some x
    else none

/-- The number nearest to `± digits · 10 ^ power`, rounded once. Powers beyond the
range of any finite number are decided without computing them. -/
def nearest? (negative : Bool) (digits : Nat) (power : Int) : Option Double :=
  if digits = 0 then some (zero negative)
  else if power < 0 then
    if power < -400 - ((digits.log2 : Int) + 1) then some (zero negative)
    else round? negative digits (Nat.pow 10 (-power).toNat)
  else if power ≤ 400 then round? negative (digits * Nat.pow 10 power.toNat) 1
  else none

end Double

end Tributary.Decimal
