import RecordMapper.Engine.Cell
import RecordMapper.Expression.Basic
import RecordMapper.Time.Reader
import RecordMapper.Time.Tick
import RecordMapper.Value.Coercion

/-!
# Values and cells

How a value is stored in a cell, and what a cell is read as where a type is expected. Reading is
lenient: a cell of another class counts as the number or the text that it stands for, or as zero.

1. `Value.toCell` stores a value; the storage policy says whether timestamps are ticks or text.
2. `Cell.read` reads a cell as a type, `Cell.plain` reads it by its own class.
-/

namespace RecordMapper

/-! ## Storing -/

/-- The cell that a value is stored in; with `ticks` timestamps are integers, otherwise text. -/
def Value.toCell (ticks : Bool) : Value → Except TypeFault Cell
  | .null => .ok .null
  | .bool b => .ok (.integer (if b then 1 else 0))
  | .int i => .ok (.integer i)
  | .float x => .ok (.real x)
  | .decimal d => .ok (.real d.toFloat)
  | .text s => .ok (.text s)
  | .blob bytes => .ok (.blob bytes)
  | .timestamp t => if ticks then (Tick.ofTimestamp t).map .integer else .ok (.text t.storedText)
  | .offsetTimestamp t => (Tick.ofTimestamp t.utc).map .integer
  | .interval d => (Tick.ofInterval d).map .integer
  | .uuid u => .ok (.text u.text)

/-- The cell of a host value; only scalars have one. -/
def HostValue.toCell (ticks : Bool) : HostValue → Except TypeFault Cell
  | .scalar v => v.toCell ticks
  | v => .error (.unbindable v.kind)

namespace Cell

/-! ## Reading -/

def readInt : Cell → Int64
  | integer i => i
  | real x => truncateToInt64 x
  | text s => (readInt64? (trimmed s)).getD 0
  | _ => 0

def readFloat : Cell → Float
  | integer i => Float.ofInt i.toInt
  | real x => x
  | text s => (readFloat? (trimmed s)).getD 0.0
  | _ => 0.0

def readText : Cell → String
  | null => ""
  | integer i => toString i.toInt
  | real x => floatText x
  | text s => s
  | malformed bytes | blob bytes => bytes.toText

def readBytes : Cell → Bytes
  | malformed bytes | blob bytes => bytes
  | c => Bytes.ofString c.readText

/-- The timestamp that a cell stands for: a text is read as one, anything else counts ticks. -/
def readTimestamp (c : Cell) : Except TypeFault Timestamp :=
  match c with
  | text _ | malformed _ =>
    let shown := trimmed c.readText
    match Timestamp.read? shown with
    | some t => .ok t
    | none => .error (.badDatetime shown)
  | c => Tick.toTimestamp c.readInt

def readAs (t : DataType) (c : Cell) : Except TypeFault Value :=
  match t with
  | .bool => .ok (.bool (c.readInt == 1))
  | .int8 | .int16 | .int32 | .uint8 | .uint16 | .uint32 | .int64 | .enumeration =>
    .ok (.int c.readInt)
  | .float32 | .float64 => .ok (.float c.readFloat)
  | .decimal => (Decimal.ofFloat c.readFloat).map .decimal
  | .text => .ok (.text c.readText)
  | .blob => .ok (.blob c.readBytes)
  | .duration => .ok (.interval (Tick.toInterval c.readInt))
  | .datetime => c.readTimestamp.map .timestamp
  | .offsetDatetime => (Tick.toTimestamp c.readInt).map fun t => .offsetTimestamp ⟨t, 0⟩
  | .uuid => (uuidOfText c.readText).map .uuid
  | .unsupported name => .error (.unreadable name)

/-- The value of a cell as a type; null stays null. -/
def read (t : DataType) (c : Cell) : Except TypeFault Value :=
  if c.isNull then .ok .null else c.readAs t

/-- The value of a cell by its own class. -/
def plain : Cell → Value
  | null => .null
  | integer i => .int i
  | real x => .float x
  | text s => .text s
  | malformed bytes => .text bytes.toText
  | blob bytes => .blob bytes

end Cell

end RecordMapper
