import RecordMapper.Value.Coercion

/-!
# Fields

The type of a field decides which values it takes and how it holds them. An optional field holds
null; any other field takes null as the zero of its type.
-/

namespace RecordMapper

/-- A list of named integers; the first listed stands for null. -/
structure Enumeration where
  name : String
  variants : List (String × Int64)
  deriving DecidableEq, Repr, Inhabited

/-- The content type of a field: a data type, and the enumeration where it is one. -/
inductive Content
  | plain (type : DataType)
  | enumeration (e : Enumeration)
  deriving DecidableEq, Repr, Inhabited

structure FieldType where
  content : Content
  optional : Bool
  deriving DecidableEq, Repr, Inhabited

def Content.dataType : Content → DataType
  | plain t => t
  | enumeration _ => .enumeration

namespace Content

/-- Refuses a value whose kind the type does not take. -/
def refuse (target : String) (v : Value) : Except TypeFault Value :=
  .error (.mismatch v.kind target)

def takeInteger (t : DataType) : Value → Except TypeFault Value
  | .null => .ok (.int 0)
  | .int i => Value.inRange i t
  | .bool b => .ok (.int (if b then 1 else 0))
  | v => refuse t.name v

def takeFloat : Value → Except TypeFault Value
  | .null => .ok (.float 0.0)
  | .float x => .ok (.float x)
  | .int i => .ok (.float (Float.ofInt i.toInt))
  | .decimal d => .ok (.float d.toFloat)
  | v => refuse "f64" v

/-- What a field of the data type holds after taking the value. -/
def takePlain (t : DataType) (v : Value) : Except TypeFault Value :=
  match t with
  | .bool =>
    match v with
    | .null => .ok (.bool false)
    | .bool b => .ok (.bool b)
    | .int i => .ok (.bool (i == 1))
    | v => refuse "bool" v
  | .int8 | .int16 | .int32 | .uint8 | .uint16 | .uint32 | .int64 | .enumeration => takeInteger t v
  | .float64 => takeFloat v
  | .float32 => do
    match ← takeFloat v with
    | .float x => .ok (.float (toSingle x))
    | v => .ok v
  | .decimal =>
    match v with
    | .null => .ok (.decimal ⟨0, 0⟩)
    | .decimal d => .ok (.decimal d)
    | .float x => (Decimal.ofFloat x).map .decimal
    | .int i => .ok (.decimal ⟨i.toInt, 0⟩)
    | v => refuse "decimal" v
  | .text =>
    match v with
    | .null => .ok (.text "")
    | .text s => .ok (.text s)
    | v => refuse "String" v
  | .blob =>
    match v with
    | .null => .ok (.blob [])
    | .blob bytes => .ok (.blob bytes)
    | .text s => .ok (.blob (Bytes.ofString s))
    | v => refuse "Vec<u8>" v
  | .duration =>
    match v with
    | .null => .ok (.interval ⟨0⟩)
    | .interval d => .ok (.interval d)
    | v => refuse "TimeDelta" v
  | .datetime =>
    match v with
    | .null => .ok (.timestamp .epoch)
    | .timestamp t => .ok (.timestamp t)
    | .offsetTimestamp t => .ok (.timestamp t.utc)
    | v => refuse "NaiveDateTime" v
  | .offsetDatetime =>
    match v with
    | .null => .ok (.offsetTimestamp ⟨.epoch, 0⟩)
    | .offsetTimestamp t => .ok (.offsetTimestamp t)
    | .timestamp t => .ok (.offsetTimestamp ⟨t, 0⟩)
    | v => refuse "DateTime<FixedOffset>" v
  | .uuid =>
    match v with
    | .null => .ok (.uuid .nil)
    | .uuid u => .ok (.uuid u)
    | .text s => (uuidOfText s).map .uuid
    | v => refuse "Uuid" v
  | .unsupported _ => .ok .null

/-- What a field of the enumeration holds after taking the value. -/
def takeVariant (e : Enumeration) (v : Value) : Except TypeFault Value :=
  let refused : Except TypeFault Value := .error (.notAVariant v.display e.name)
  match v with
  | .null =>
    match e.variants with
    | (_, i) :: _ => .ok (.int i)
    | [] => refused
  | .int i => if e.variants.any fun (_, j) => i == j then .ok (.int i) else refused
  | _ => refused

/-- What a field holds after taking the value. -/
def take : Content → Value → Except TypeFault Value
  | plain t, v => takePlain t v
  | enumeration e, v => takeVariant e v

end Content

namespace FieldType

def dataType (t : FieldType) : DataType := t.content.dataType

/-- What the field holds after taking the value: null stays null in an optional field. -/
def take (t : FieldType) (v : Value) : Except TypeFault Value :=
  match t.optional, v with
  | true, .null => .ok .null
  | _, v => t.content.take v

end FieldType

end RecordMapper
