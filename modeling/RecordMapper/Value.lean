import RecordMapper.Decimal
import RecordMapper.Uuid
import RecordMapper.Time.Timestamp
import RecordMapper.Text.Diagnostic

/-!
# Values

What a field of a record can hold. A value says what it means and not how it is stored: a timestamp
is a timestamp until it is bound to a statement.
-/

namespace RecordMapper

inductive Value
  | null
  | bool (b : Bool)
  | int (i : Int64)
  | float (x : Float)
  | decimal (d : Decimal)
  | text (s : String)
  | blob (bytes : Bytes)
  | timestamp (t : Timestamp)
  | offsetTimestamp (t : OffsetTimestamp)
  | interval (d : Interval)
  | uuid (u : Uuid)
  deriving DecidableEq, Inhabited

namespace Value

def isNull : Value → Bool
  | null => true
  | _ => false

def isText : Value → Bool
  | text _ => true
  | _ => false

def kind : Value → String
  | null => "null"
  | bool _ => "bool"
  | int _ => "integer"
  | float _ => "float"
  | decimal _ => "decimal"
  | text _ => "text"
  | blob _ => "blob"
  | timestamp _ => "timestamp"
  | offsetTimestamp _ => "timestamp with offset"
  | interval _ => "interval"
  | uuid _ => "uuid"

def display : Value → String
  | null => "NULL"
  | bool b => if b then "true" else "false"
  | int i => toString i.toInt
  | float x => floatText x
  | decimal d => d.text
  | text s => s
  | blob bytes => "x'" ++ bytes.toHex ++ "'"
  | timestamp t => t.text
  | offsetTimestamp t => t.text
  | interval d => d.text
  | uuid u => u.text

def diagnostic : Value → String
  | null => "Null"
  | bool b => "Bool(" ++ diagnosticBool b ++ ")"
  | int i => "Int(" ++ toString i.toInt ++ ")"
  | float x => "Float(" ++ floatDiagnostic x ++ ")"
  | decimal d =>
    "Decimal(" ++ namedParts "Decimal"
      [("digits", toString d.digits), ("scale", toString d.scale)] ++ ")"
  | text s => "Text(" ++ diagnosticText s ++ ")"
  | blob bytes => listed "Blob([" (bytes.map fun b => toString b.toNat) "])"
  | timestamp t => "Timestamp(" ++ t.textWith "T" ++ ")"
  | offsetTimestamp t =>
    "TimestampTz(" ++ t.clock.textWith "T" ++ OffsetTimestamp.exactOffsetText t.offset ++ ")"
  | interval d =>
    "Interval(" ++ namedParts "TimeDelta"
      [("secs", toString (d.nanoseconds / 1000000000)),
        ("nanos", toString (d.nanoseconds % 1000000000))] ++ ")"
  | uuid u => "Uuid(" ++ u.text ++ ")"

end Value

end RecordMapper
