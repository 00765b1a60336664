import Mathlib.Algebra.Order.Field.Power
import Mathlib.Data.Rat.Defs
import Mathlib.Tactic.Ring

/-!
# Decimals

`Decimal` is `github.com/shopspring/decimal`'s `Decimal`: an arbitrary-precision integer
`value` and an exponent `exp`, standing for `value * 10 ^ exp`, which `val` gives in `ℚ`.
`add`, `sub` and `mul` are exact; `cmp` compares after bringing both operands to the smaller
exponent.  `div` is `DivRound(d2, DivisionPrecision)` with `DivisionPrecision = 16`: `quoRem`
truncates the quotient to 16 fractional digits, and the remainder decides a rounding half away
from zero.  A zero divisor makes the Go code panic with `decimal division by 0`; here `quoRem`,
`divRound` and `div` return `none`.  The exponent is an `int32` in Go; its overflow panics are
left out.
-/

namespace Lucendex

/-- A `decimal.Decimal`. -/
structure Decimal where
  value : Int
  exp : Int
  deriving DecidableEq, Repr, Inhabited

namespace Decimal

/-- The number a decimal stands for. -/
def val (d : Decimal) : ℚ :=
  d.value * 10 ^ d.exp

/-- `decimal.New(value, exp)`. -/
def new (value exp : Int) : Decimal :=
  ⟨value, exp⟩

/-- `decimal.NewFromInt(value)`. -/
def newFromInt (value : Int) : Decimal :=
  ⟨value, 0⟩

/-- `decimal.Zero`. -/
def zero : Decimal :=
  ⟨0, 0⟩

/-- `10 ^ k` as an integer, computed on natural numbers. -/
def pow10 (k : Nat) : Int :=
  ((10 ^ k : Nat) : Int)

/-- `d.rescale(exp)`: the value brought to exponent `exp`, truncated toward zero when `exp` is
the larger. -/
def rescale (d : Decimal) (exp : Int) : Decimal :=
  if exp < d.exp then ⟨d.value * pow10 (d.exp - exp).toNat, exp⟩
  else if d.exp < exp then ⟨d.value.tdiv (pow10 (exp - d.exp).toNat), exp⟩
  else d

/-- `RescalePair(d1, d2)`: both brought to the smaller exponent. -/
def rescalePair (d1 d2 : Decimal) : Decimal × Decimal :=
  if d1.exp < d2.exp then (d1, d2.rescale d1.exp)
  else if d2.exp < d1.exp then (d1.rescale d2.exp, d2)
  else (d1, d2)

/-- `d.Add(d2)`. -/
def add (d d2 : Decimal) : Decimal :=
  ⟨(rescalePair d d2).1.value + (rescalePair d d2).2.value, (rescalePair d d2).1.exp⟩

/-- `d.Sub(d2)`. -/
def sub (d d2 : Decimal) : Decimal :=
  ⟨(rescalePair d d2).1.value - (rescalePair d d2).2.value, (rescalePair d d2).1.exp⟩

/-- `d.Mul(d2)`. -/
def mul (d d2 : Decimal) : Decimal :=
  ⟨d.value * d2.value, d.exp + d2.exp⟩

/-- `d.Abs()`. -/
def abs (d : Decimal) : Decimal :=
  ⟨d.value.natAbs, d.exp⟩

/-- `d.Cmp(d2)`, as an `Ordering`. -/
def cmp (d d2 : Decimal) : Ordering :=
  compare (rescalePair d d2).1.value (rescalePair d d2).2.value

/-- `d.LessThan(d2)`. -/
def lessThan (d d2 : Decimal) : Bool :=
  d.cmp d2 = .lt

/-- `d.GreaterThan(d2)`. -/
def greaterThan (d d2 : Decimal) : Bool :=
  d.cmp d2 = .gt

/-- `d.LessThanOrEqual(d2)`. -/
def lessThanOrEqual (d d2 : Decimal) : Bool :=
  d.cmp d2 ≠ .gt

/-- `d.IsZero()`. -/
def isZero (d : Decimal) : Bool :=
  d.value = 0

/-- `d.QuoRem(d2, precision)`: the quotient truncated toward zero to `precision` fractional
digits, and the remainder, or `none` for a zero divisor. -/
def quoRem (d d2 : Decimal) (precision : Int) : Option (Decimal × Decimal) :=
  if d2.value = 0 then none
  else
    let scale := -precision
    let e := d.exp - d2.exp - scale
    if e < 0 then
      let bb := d2.value * pow10 (-e).toNat
      some (⟨d.value.tdiv bb, scale⟩, ⟨d.value.tmod bb, d.exp⟩)
    else
      let aa := d.value * pow10 e.toNat
      some (⟨aa.tdiv d2.value, scale⟩, ⟨aa.tmod d2.value, scale + d2.exp⟩)

/-- `d.DivRound(d2, precision)`: `QuoRem`, then one unit of the last digit away from zero when
twice the remainder reaches the divisor. -/
def divRound (d d2 : Decimal) (precision : Int) : Option Decimal :=
  (d.quoRem d2 precision).map fun qr =>
    if (Decimal.mk (2 * qr.2.value.natAbs) (qr.2.exp + precision)).cmp d2.abs = .lt then qr.1
    else if d.value.sign * d2.value.sign < 0 then qr.1.sub (new 1 (-precision))
    else qr.1.add (new 1 (-precision))

/-- `DivisionPrecision`. -/
def divisionPrecision : Int := 16

/-- `d.Div(d2)`. -/
def div (d d2 : Decimal) : Option Decimal :=
  d.divRound d2 divisionPrecision

/-- `QuoRem` panics only on a zero divisor. -/
theorem quoRem_isSome {d d2 : Decimal} (precision : Int) (h : d2.value ≠ 0) :
    (d.quoRem d2 precision).isSome := by
  simp only [quoRem, h, if_false]
  split <;> rfl

/-- `Div` panics only on a zero divisor. -/
theorem div_isSome {d d2 : Decimal} (h : d2.value ≠ 0) : (d.div d2).isSome := by
  simpa [div, divRound] using quoRem_isSome divisionPrecision h

/-- `Div` panics exactly on a zero divisor. -/
theorem div_eq_none_iff {d d2 : Decimal} : d.div d2 = none ↔ d2.value = 0 := by
  by_cases h : d2.value = 0
  · simp [div, divRound, quoRem, h]
  · exact iff_of_false (Option.ne_none_iff_isSome.mpr (div_isSome h)) h

/-- `d.Div(d2)` where the divisor is a nonzero constant of the code, so that it cannot panic. -/
def divNonzero (d d2 : Decimal) (h : d2.value ≠ 0) : Decimal :=
  (d.div d2).get (div_isSome h)

/-- The decimal digits of `|d.value|`. -/
def absDigits (d : Decimal) : List Char :=
  Nat.toDigits 10 d.value.natAbs

/-- `fractionalPart[:i+1]` of `string(true)`: trailing zeros dropped. -/
def trimTrailingZeros (s : List Char) : List Char :=
  (s.reverse.dropWhile (· = '0')).reverse

/-- `d.String()`, that is `d.string(true)`: the integer when `exp ≥ 0`; otherwise the digits
of `|value|` split `-exp` places from the right (padded with zeros), trailing zeros of the
fraction dropped, and a minus sign for a negative value. -/
def toString (d : Decimal) : String :=
  if 0 ≤ d.exp then ToString.toString (d.rescale 0).value
  else
    let str := d.absDigits
    let k := (-d.exp).toNat
    let parts : List Char × List Char :=
      if str.length > k then (str.take (str.length - k), str.drop (str.length - k))
      else (['0'], List.replicate (k - str.length) '0' ++ str)
    let frac := trimTrailingZeros parts.2
    let number := if frac = [] then parts.1 else parts.1 ++ '.' :: frac
    String.mk (if d.value < 0 then '-' :: number else number)

end Decimal

end Lucendex
