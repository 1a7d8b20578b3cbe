import RecordMapper.Number.Binary

/-!
# The fewest digits that read back

`Shortest.select m e` gives a decimal `d * 10 ^ k` that rounds to the float `m * 2 ^ e`, with as few
digits as possible and, among those, nearest to it; of two equally near ones it is the greater. The
reals that round to the float form an interval whose ends count exactly when `m` is even; a decimal
is compared with the ends by cross-multiplied naturals.
-/

namespace RecordMapper

namespace Shortest

/-- The value, the ends of its rounding interval and a power of ten on one integer scale. -/
structure Scaled where
  /-- Four times the significand. -/
  value : Nat
  low : Nat
  high : Nat
  /-- Whether the ends themselves round to the value. -/
  closed : Bool
  /-- The unit of `value`, `low` and `high` is `numerator / denominator`. -/
  numerator : Nat
  denominator : Nat

def scaled (m : Nat) (e : Int) : Scaled :=
  { value := 4 * m
    low := if m = twoTo 52 ∧ -1074 < e then 4 * m - 1 else 4 * m - 2
    high := 4 * m + 2
    closed := m % 2 == 0
    numerator := twoTo (e - 2).toNat
    denominator := twoTo (2 - e).toNat }

/-- The two factors that bring `d * 10 ^ k` and the scaled numbers to one unit. -/
def Scaled.factors (s : Scaled) (k : Int) : Nat × Nat :=
  (s.denominator * tenTo k.toNat, s.numerator * tenTo (-k).toNat)

/-- Whether `d * 10 ^ k` lies in the rounding interval. -/
def Scaled.reads (s : Scaled) (d : Nat) (k : Int) : Bool :=
  let (a, b) := s.factors k
  if s.closed then decide (s.low * b ≤ d * a) && decide (d * a ≤ s.high * b)
  else decide (s.low * b < d * a) && decide (d * a < s.high * b)

/-- The best decimal on the grid `10 ^ k`, if one of the value's two neighbours reads back. -/
def Scaled.onGrid (s : Scaled) (k : Int) : Option Nat :=
  let (a, b) := s.factors k
  let d := s.value * b / a
  match s.reads d k, s.reads (d + 1) k with
  | true, true => some (if 2 * (s.value * b) < (2 * d + 1) * a then d else d + 1)
  | true, false => some d
  | false, true => some (d + 1)
  | false, false => none

/-- The least `k` with `m * 2 ^ e < 10 ^ k`. -/
def magnitude (m : Nat) (e : Int) : Int :=
  let below (k : Int) : Bool :=
    decide (m * twoTo e.toNat * tenTo (-k).toNat < tenTo k.toNat * twoTo (-e).toNat)
  let guess := Int.fdiv (((m.log2 : Int) + e) * 30103) 100000
  if below (guess - 1) then guess - 1
  else if below guess then guess
  else if below (guess + 1) then guess + 1
  else guess + 2

/-- Drops trailing zeros of the digits into the exponent. -/
def strip : Nat → Nat → Int → Nat × Int
  | 0, d, k => (d, k)
  | fuel + 1, d, k => if d % 10 = 0 ∧ d ≠ 0 then strip fuel (d / 10) (k + 1) else (d, k)

/-- Tries grids of growing fineness: `n` more digits starting from the grid `10 ^ k`. -/
def search (s : Scaled) : Nat → Int → Option (Nat × Int)
  | 0, _ => none
  | n + 1, k =>
    match s.onGrid k with
    | some d => some (strip 20 d k)
    | none => search s n (k - 1)

/-- The digits and exponent of the shortest decimal that rounds to `m * 2 ^ e`, for `m ≠ 0`. -/
def select (m : Nat) (e : Int) : Nat × Int :=
  match search (scaled m e) 17 (magnitude m e - 1) with
  | some r => r
  | none => if 0 ≤ e then (m * twoTo e.toNat, 0) else (m * Nat.pow 5 (-e).toNat, e)

end Shortest

/-! ## Layout -/

def zeros (n : Nat) : String := String.ofList (List.replicate n '0')

/-- Digits `d * 10 ^ k` without an exponent; the point appears only when a fraction does. -/
def positional (d : Nat) (k : Int) : String :=
  let ds := toString d
  if 0 ≤ k then ds ++ zeros k.toNat
  else
    let places := (-k).toNat
    if places < ds.length then
      String.ofList (ds.toList.take (ds.length - places)) ++ "."
        ++ String.ofList (ds.toList.drop (ds.length - places))
    else "0." ++ zeros (places - ds.length) ++ ds

/-- The text of a float: the fewest digits that read back, never an exponent, integers without a
point. -/
def floatText (x : Float) : String :=
  match BinaryView.ofFloat x with
  | .nan => "NaN"
  | .infinite negative => if negative then "-inf" else "inf"
  | .finite negative m e =>
    let size := if m = 0 then "0" else let (d, k) := Shortest.select m e; positional d k
    if negative then "-" ++ size else size

/-- The text of a float in diagnostics: integers keep `.0`, and numbers below `10⁻⁴` or from
`10¹⁶` on are written with an exponent. -/
def floatDiagnostic (x : Float) : String :=
  match BinaryView.ofFloat x with
  | .nan => "NaN"
  | .infinite negative => if negative then "-inf" else "inf"
  | .finite negative m e =>
    let size :=
      if m = 0 then "0.0"
      else
        let (d, k) := Shortest.select m e
        let ds := toString d
        let exponent : Int := k + ds.length - 1
        if exponent < -4 ∨ 16 ≤ exponent then
          let head := String.ofList (ds.toList.take 1)
          let tail := String.ofList (ds.toList.drop 1)
          head ++ (if tail.isEmpty then "" else "." ++ tail) ++ "e" ++ toString exponent
        else if 0 ≤ k then positional d k ++ ".0"
        else positional d k
    if negative then "-" ++ size else size

end RecordMapper
