/-!
# Types of fields

What a field means, the name of that meaning, and the type its column is declared with.
-/

namespace RecordMapper

inductive DataType
  | bool
  | int8
  | int16
  | int32
  | uint8
  | uint16
  | uint32
  | int64
  | float32
  | float64
  | decimal
  | text
  | blob
  | duration
  | datetime
  | offsetDatetime
  | enumeration
  | uuid
  | unsupported (name : String)
  deriving DecidableEq, Repr, Inhabited

namespace DataType

def name : DataType → String
  | bool => "bool"
  | int8 => "i8"
  | int16 => "i16"
  | int32 => "i32"
  | uint8 => "u8"
  | uint16 => "u16"
  | uint32 => "u32"
  | int64 => "i64"
  | float32 => "f32"
  | float64 => "f64"
  | decimal => "decimal"
  | text => "text"
  | blob => "blob"
  | duration => "duration"
  | datetime => "datetime"
  | offsetDatetime => "datetime with offset"
  | enumeration => "enum"
  | uuid => "uuid"
  | unsupported name => name

def supported : List DataType :=
  [bool, int8, int16, int32, uint8, uint16, uint32, int64, float32, float64, decimal, text, blob,
    duration, datetime, offsetDatetime, enumeration, uuid]

def named? (name : String) : Option DataType := supported.find? fun t => t.name == name

/-- The types that an auto-incremented key may have. -/
def isInteger : DataType → Bool
  | int8 | int16 | int32 | uint8 | uint16 | uint32 | int64 => true
  | _ => false

/-- The types whose values are integers: the integer types and enumerations. -/
def isIntegral (t : DataType) : Bool := t.isInteger || t == enumeration

def isText : DataType → Bool
  | text => true
  | _ => false

def isSupported : DataType → Bool
  | unsupported _ => false
  | _ => true

/-- The least and the greatest integer of the type; types without bounds have those of sixty-four
bits, enumerations those of thirty-two. -/
def range : DataType → Int × Int
  | int8 => (-128, 127)
  | int16 => (-32768, 32767)
  | int32 | enumeration => (-2147483648, 2147483647)
  | uint8 => (0, 255)
  | uint16 => (0, 65535)
  | uint32 => (0, 4294967295)
  | _ => (-9223372036854775808, 9223372036854775807)

/-- The declared type of a column, given whether timestamps are stored as ticks and the greatest
length of a text. -/
def columnType (ticks : Bool) (maxLength : Option Nat) : DataType → Option String
  | bool | int8 | int16 | int32 | uint8 | uint16 | enumeration => some "integer"
  | uint32 | int64 => some "bigint"
  | float32 | float64 | decimal => some "float"
  | text => some <|
    match maxLength with
    | some n => "varchar(" ++ toString n ++ ")"
    | none => "varchar"
  | blob => some "blob"
  | duration | offsetDatetime => some "bigint"
  | datetime => some (if ticks then "bigint" else "datetime")
  | uuid => some "varchar(36)"
  | unsupported _ => none

end DataType

end RecordMapper
