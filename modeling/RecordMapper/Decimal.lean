import RecordMapper.Fault
import RecordMapper.Number.Shortest
import RecordMapper.Number.Numeral

/-!
# Fixed-point decimals

A decimal is `digits * 10 ^ (-scale)`. Its text is exact; the storage engine holds it as a float,
and a float narrows to a decimal through its shortest digits.
-/

namespace RecordMapper

/-- The number `digits * 10 ^ (-scale)`. -/
structure Decimal where
  digits : Int
  scale : Int
  deriving DecidableEq, Repr, Inhabited

namespace Decimal

/-- A natural number in at least `width` digits. -/
def padded (width n : Nat) : String :=
  let ds := toString n
  zeros (width - ds.length) ++ ds

/-- The digits, with the point placed before the last `scale` of them, or with `-scale` zeros
after them. -/
def text (d : Decimal) : String :=
  if d.scale ≤ 0 then
    if d.digits = 0 then "0" else toString d.digits ++ zeros d.scale.natAbs
  else
    let unit := tenTo d.scale.toNat
    (if d.digits < 0 then "-" else "") ++ toString (d.digits.natAbs / unit) ++ "."
      ++ padded d.scale.toNat (d.digits.natAbs % unit)

/-- Ten to a natural power in floating point, by repeated squaring: the factor `a` is squared for
each binary digit of the exponent and multiplied into the result where the digit is one. -/
def powerLoop : Nat → Nat → Float → Float → Float
  | 0, _, r, _ => r
  | fuel + 1, n, r, a =>
    let r := if n % 2 = 1 then r * a else r
    if n / 2 = 0 then r else powerLoop fuel (n / 2) r (a * a)

def powerOfTen (n : Int) : Float :=
  let size := powerLoop 64 n.natAbs 1.0 10.0
  if n < 0 then 1.0 / size else size

def toFloat (d : Decimal) : Float := Float.ofInt d.digits / powerOfTen d.scale

/-- The most digits a fraction keeps. -/
def maxScale : Nat := 28

/-- The greatest integer in the hundred and twenty-eight bits of the digits. -/
def maxDigits : Int := 170141183460469231731687303715884105727

/-- Whether an integer can be the digits. -/
abbrev Fits (i : Int) : Prop := -maxDigits - 1 ≤ i ∧ i ≤ maxDigits

/-- The shortest digits of a float, cut after `maxScale` places. -/
def ofFloat (x : Float) : Except TypeFault Decimal :=
  let shown := floatText x
  match BinaryView.ofFloat x with
  | .finite negative _ _ =>
    let cs := (Numeral.sign shown.toList).2
    let whole := cs.takeWhile isDigit
    let fraction := ((cs.dropWhile isDigit).drop 1).take maxScale
    let n : Int := digitsValue (whole ++ fraction)
    if Fits n then .ok ⟨if negative then -n else n, fraction.length⟩
    else .error (.outOfRange shown "decimal")
  | _ => .error (.noDecimal shown)

end Decimal

end RecordMapper
