import Lucendex.Decimal.Basic
import Lucendex.Go.Strconv

/-!
# Parsing decimals

`newFromString` follows `decimal.NewFromString`: an exponent after the first `E` or `e`, parsed
by `strconv.ParseInt(_, 10, 32)`; at most one decimal point, whose fractional digits lower the
exponent; the digits without the point parsed by `strconv.ParseInt(_, 10, 64)` when they take at
most 18 bytes and by `big.Int.SetString(_, 10)` otherwise; and the exponent checked against the
`int32` range.  Each error is the message the library builds.
-/

namespace Lucendex.Decimal

open Lucendex.Go

/-- `new(big.Int).SetString(s, 10)`: an optional sign and at least one decimal digit. -/
def setString10 (s : List UInt8) : Option Int :=
  let (neg, digits) := match s with
    | 43 :: rest => (false, rest)
    | 45 :: rest => (true, rest)
    | _ => (false, s)
  if digits = [] then none
  else (digits.mapM digitValue).map fun ds =>
    let n := ds.foldl (fun n d => 10 * n + d) 0
    if neg then -(n : Int) else n

/-- The integer of the digits of a decimal: `ParseInt` up to 18 bytes, `SetString` past them. -/
def parseDigits (s : List UInt8) : Option Int :=
  if s.length ≤ 18 then
    match parseInt s 64 with
    | .ok n => some n
    | .error _ => none
  else setString10 s

/-- `decimal.NewFromString(value)`. -/
def newFromString (value : String) : Except String Decimal := do
  let (mantissa, exp) ← match value.data.findIdx? (fun c => c = 'E' || c = 'e') with
    | none => pure (value.data, (0 : Int))
    | some i =>
      match parseInt (goBytes (String.mk (value.data.drop (i + 1)))) 32 with
      | .ok e => pure (value.data.take i, e)
      | .error ⟨_, _, .errRange⟩ =>
        throw ("can\x27t convert " ++ value ++ " to decimal: fractional part too long")
      | .error _ =>
        throw ("can\x27t convert " ++ value ++ " to decimal: exponent is not numeric")
  if 1 < mantissa.count '.' then
    throw ("can\x27t convert " ++ String.mk mantissa ++ " to decimal: too many .s")
  let (intString, exp) := match mantissa.findIdx? (· = '.') with
    | none => (mantissa, exp)
    | some p => (mantissa.take p ++ mantissa.drop (p + 1), exp - (mantissa.length - (p + 1) : Nat))
  match parseDigits (goBytes (String.mk intString)) with
  | none => throw ("can\x27t convert " ++ String.mk mantissa ++ " to decimal")
  | some v =>
    if exp < -2 ^ 31 ∨ 2 ^ 31 - 1 < exp then
      throw ("can\x27t convert " ++ value ++ " to decimal: fractional part too long")
    else pure ⟨v, exp⟩

end Lucendex.Decimal
