import RecordMapper.Number.Power
import RecordMapper.Number.Rounding

/-!
# The exact content of a binary floating-point number

A finite `Float` is `± significand * 2 ^ exponent` with natural significand. Roundings, narrowings
and comparisons are computed from this view in exact integer arithmetic.
-/

namespace RecordMapper

/-- What the bits of a `Float` say. -/
inductive BinaryView
  | nan
  | infinite (negative : Bool)
  | finite (negative : Bool) (significand : Nat) (exponent : Int)
  deriving DecidableEq, Repr

namespace BinaryView

/-- Splits the sixty-four bits into sign, exponent and fraction. -/
def ofBits (bits : UInt64) : BinaryView :=
  let n := bits.toNat
  let negative := n / twoTo 63 % 2 == 1
  let e : Nat := n / twoTo 52 % 2048
  let f : Nat := n % twoTo 52
  if e = 2047 then if f = 0 then .infinite negative else .nan
  else if e = 0 then .finite negative f (-1074)
  else .finite negative (f + twoTo 52) ((e : Int) - 1075)

def ofFloat (x : Float) : BinaryView := ofBits x.toBits

def signed (negative : Bool) (n : Nat) : Int := if negative then -(n : Int) else n

/-- The nearest integer to `± m * 2 ^ e`, ties to even. -/
def nearest (negative : Bool) (m : Nat) (e : Int) : Int :=
  signed negative (if 0 ≤ e then m * twoTo e.toNat else halfEven m (twoTo (-e).toNat))

/-- The integer part of `± m * 2 ^ e`. -/
def truncated (negative : Bool) (m : Nat) (e : Int) : Int :=
  signed negative (if 0 ≤ e then m * twoTo e.toNat else m / twoTo (-e).toNat)

def isIntegral : BinaryView → Bool
  | finite _ m e => decide (0 ≤ e) || m % twoTo (-e).toNat == 0
  | _ => false

end BinaryView

/-! ## Sixty-four bit integers -/

def minInt64 : Int := -9223372036854775808
def maxInt64 : Int := 9223372036854775807

/-- Whether an integer fits in sixty-four bits. -/
abbrev FitsInt64 (i : Int) : Prop := minInt64 ≤ i ∧ i ≤ maxInt64

/-- The sixty-four bit integer closest to `i`. -/
def clampInt64 (i : Int) : Int64 :=
  if i < minInt64 then Int64.ofInt minInt64
  else if maxInt64 < i then Int64.ofInt maxInt64
  else Int64.ofInt i

def int64? (i : Int) : Option Int64 := if FitsInt64 i then some (Int64.ofInt i) else none

theorem toInt_of_int64? {i : Int} {n : Int64} (h : int64? i = some n) : n.toInt = i := by
  unfold int64? at h
  split at h
  next hb =>
    obtain ⟨h₁, h₂⟩ := hb
    unfold minInt64 at h₁
    unfold maxInt64 at h₂
    cases h
    exact Int64.toInt_ofInt_of_le (by omega) (by omega)
  next => cases h

/-- The integer part of a float, held to the sixty-four bit range; not-a-number gives zero. -/
def truncateToInt64 (x : Float) : Int64 :=
  match BinaryView.ofFloat x with
  | .nan => 0
  | .infinite negative => Int64.ofInt (if negative then minInt64 else maxInt64)
  | .finite negative m e => clampInt64 (BinaryView.truncated negative m e)

/-- The nearest integer to a float, held to the sixty-four bit range; not-a-number gives zero. -/
def roundToInt64 (x : Float) : Int64 :=
  match BinaryView.ofFloat x with
  | .nan => 0
  | .infinite negative => Int64.ofInt (if negative then minInt64 else maxInt64)
  | .finite negative m e => clampInt64 (BinaryView.nearest negative m e)

/-! ## Single precision -/

/-- The value of the single-precision number nearest to `x`. -/
def toSingle (x : Float) : Float :=
  match BinaryView.ofFloat x with
  | .finite negative m e =>
    let unit : Int := max (m.log2 + e - 23) (-149)
    let m' : Nat := if unit ≤ e then m * twoTo (e - unit).toNat else halfEven m
      (twoTo (unit - e).toNat)
    let size : Float :=
      if 0 ≤ unit then
        let n : Nat := m' * twoTo unit.toNat
        if twoTo 128 ≤ n then Float.ofBits 0x7ff0000000000000 else Float.ofNat n
      else Float.ofNat m' / Float.ofNat (twoTo (-unit).toNat)
    if negative then -size else size
  | _ => x

/-- The value of the single-precision number with the given bits. -/
def ofSingleBits (bits : Nat) : Float :=
  let negative := bits / twoTo 31 % 2 == 1
  let e : Nat := bits / twoTo 23 % 256
  let f : Nat := bits % twoTo 23
  let size : Float :=
    if e = 255 then Float.ofBits (if f = 0 then 0x7ff0000000000000 else 0x7ff8000000000000)
    else if e = 0 then Float.ofNat f / Float.ofNat (twoTo 149)
    else if 150 ≤ e then Float.ofNat ((f + twoTo 23) * twoTo (e - 150))
    else Float.ofNat (f + twoTo 23) / Float.ofNat (twoTo (150 - e))
  if negative then -size else size

/-! ## Order -/

namespace BinaryView

def ofInt (i : Int) : BinaryView := .finite (i < 0) i.natAbs 0

/-- The place in the order: not-a-number is the least, finite numbers stand between the
infinities. -/
def rank : BinaryView → Nat
  | nan => 0
  | infinite negative => if negative then 1 else 3
  | finite .. => 2

def order : BinaryView → BinaryView → Ordering
  | finite negative m e, finite negative' m' e' =>
    compare (signed negative m * (twoTo (e - e').toNat : Nat))
      (signed negative' m' * (twoTo (e' - e).toNat : Nat))
  | x, y => compare x.rank y.rank

end BinaryView

end RecordMapper
