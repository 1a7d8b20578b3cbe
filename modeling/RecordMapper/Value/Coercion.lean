import RecordMapper.DataType
import RecordMapper.Value

/-!
# Coercion

Converts a value toward a type. Null stays null; a value already of a fitting shape stays as it is;
numbers become integers by rounding to the nearest, ties to even, and must lie in the type's range.
-/

namespace RecordMapper

def uuidOfText (text : String) : Except TypeFault Uuid :=
  match Uuid.read text with
  | .ok u => .ok u
  | .error cause => .error (.badUuid text cause)

namespace Value

/-- The integer, when it lies in the range of the type. -/
def inRange (i : Int64) (t : DataType) : Except TypeFault Value :=
  if t.range.1 ≤ i.toInt ∧ i.toInt ≤ t.range.2 then .ok (int i)
  else .error (.outOfRange (toString i.toInt) t.name)

/-- A float as an integer of the type. Not-a-number, the infinities and what rounds below `-2⁶³` or
above `2⁶³` are out of range. -/
def integralOfFloat (x : Float) (t : DataType) : Except TypeFault Value :=
  match BinaryView.ofFloat x with
  | .finite negative m e =>
    let n := BinaryView.nearest negative m e
    if n < minInt64 ∨ maxInt64 + 1 < n then .error (.outOfRange (floatText x) t.name)
    else inRange (clampInt64 n) t
  | _ => .error (.outOfRange (floatText x) t.name)

def isZero (x : Float) : Bool :=
  match BinaryView.ofFloat x with
  | .finite _ 0 _ => true
  | _ => false

def toIntegral (v : Value) (t : DataType) : Except TypeFault Value :=
  match v with
  | bool b => .ok (int (if b then 1 else 0))
  | int i => inRange i t
  | float x => integralOfFloat x t
  | decimal d => inRange (roundToInt64 d.toFloat) t
  | v => .ok v

/-- The value converted toward the type. -/
def coerce (v : Value) (t : DataType) : Except TypeFault Value :=
  match v with
  | null => .ok null
  | v =>
    if t.isIntegral then v.toIntegral t
    else
      match t, v with
      | .bool, int i => .ok (bool (i != 0))
      | .bool, float x => .ok (bool (!isZero x))
      | .float32, int i | .float64, int i => .ok (float (Float.ofInt i.toInt))
      | .float32, bool b | .float64, bool b => .ok (float (if b then 1.0 else 0.0))
      | .float32, decimal d | .float64, decimal d => .ok (float d.toFloat)
      | .float32, float x => .ok (float (toSingle x))
      | .decimal, int i => .ok (decimal ⟨i.toInt, 0⟩)
      | .decimal, float x => (Decimal.ofFloat x).map decimal
      | .uuid, text s => (uuidOfText s).map uuid
      | .text, v => .ok (text v.display)
      | .datetime, offsetTimestamp t => .ok (timestamp t.utc)
      | .offsetDatetime, timestamp t => .ok (offsetTimestamp ⟨t, 0⟩)
      | _, v => .ok v

end Value

end RecordMapper
