import RecordMapper.Number.Shortest

/-!
# Fifteen significant digits

The text that the storage engine gives a real number: fifteen significant digits, halves rounded
away from zero, trailing zeros dropped down to one digit after the point, and an exponent when the
leading digit stands before `10⁻⁴` or after `10¹⁴`.
-/

namespace RecordMapper

namespace Significant

/-- The nearest integer to `num / den`, halves upward. -/
def halfUp (num den : Nat) : Nat := (2 * num + den) / (2 * den)

/-- The fifteen leading digits `d` of `m * 2 ^ e` and the power of ten of the last one. -/
def fifteen (m : Nat) (e : Int) : Nat × Int :=
  let k := Shortest.magnitude m e - 15
  let d := halfUp (m * twoTo e.toNat * tenTo (-k).toNat) (twoTo (-e).toNat * tenTo k.toNat)
  if d = tenTo 15 then (tenTo 14, k + 1) else (d, k)

def twoDigits (n : Nat) : String := if n < 10 then "0" ++ toString n else toString n

end Significant

/-- The engine's text of a real number. -/
def realText (x : Float) : String :=
  match BinaryView.ofFloat x with
  | .nan => ""
  | .infinite negative => if negative then "-Inf" else "Inf"
  | .finite negative m e =>
    if m = 0 then "0.0"
    else
      let (d, k) := Significant.fifteen m e
      let exponent : Int := k + 14
      let (d, k) := Shortest.strip 20 d k
      let ds := toString d
      let size :=
        if exponent < -4 ∨ 14 < exponent then
          let tail := String.ofList (ds.toList.drop 1)
          String.ofList (ds.toList.take 1) ++ "." ++ (if tail.isEmpty then "0" else tail) ++ "e"
            ++ (if exponent < 0 then "-" else "+") ++ Significant.twoDigits exponent.natAbs
        else if 0 ≤ k then positional d k ++ ".0"
        else positional d k
      if negative then "-" ++ size else size

end RecordMapper
