import RecordMapper.Error
import RecordMapper.Text.Fold

/-!
# Rows of a result

A row keeps the names of its columns and one value for each. A typed getter takes the value of one
kind only, except that an integer is also taken as a float.
-/

namespace RecordMapper

structure ResultRow where
  columns : List String
  values : List Value
  deriving DecidableEq, Inhabited

namespace ResultRow

def get? (r : ResultRow) (i : Nat) : Option Value := r.values[i]?

/-- The value of the first column of the name; the case of ASCII letters does not count. -/
def named? (r : ResultRow) (name : String) : Option Value :=
  (r.columns.findIdx? fun c => sameFolded c name).bind r.get?

/-- The value at a place as `pick` takes it. -/
def getAs {α : Type} (r : ResultRow) (wanted : String) (pick : Value → Option α) (i : Nat) :
    Except Error α :=
  match r.get? i with
  | none => .error (.lookup (.noColumn i))
  | some v =>
    match pick v with
    | some a => .ok a
    | none => .error (.type (.unexpectedStorage wanted v.diagnostic))

def getInt (r : ResultRow) : Nat → Except Error Int64 :=
  r.getAs "INTEGER" fun
    | .int i => some i
    | _ => none

def getFloat (r : ResultRow) : Nat → Except Error Float :=
  r.getAs "REAL" fun
    | .float x => some x
    | .int i => some (Float.ofInt i.toInt)
    | _ => none

def getText (r : ResultRow) : Nat → Except Error String :=
  r.getAs "TEXT" fun
    | .text s => some s
    | _ => none

def getBytes (r : ResultRow) : Nat → Except Error Bytes :=
  r.getAs "BLOB" fun
    | .blob bytes => some bytes
    | _ => none

/-- Whether the value at a place is null; where there is no value it is not. -/
def isNull (r : ResultRow) (i : Nat) : Bool := r.get? i == some .null

def size (r : ResultRow) : Nat := r.values.length

end ResultRow

/-- What a table says of one of its columns. -/
structure ColumnDescription where
  name : String
  type : String
  notNull : Bool
  default : Option String
  isKey : Bool
  deriving DecidableEq, Repr, Inhabited

namespace ColumnDescription

/-- The text in a column of a description; null counts as empty. -/
def text (r : ResultRow) (column : String) : Except Error String :=
  match r.named? column with
  | some (.text s) => .ok s
  | some .null => .ok ""
  | some v => .error (.type (.unexpectedStorage "TEXT" v.diagnostic))
  | none => .error (.lookup (.noPragmaColumn column))

/-- Whether the number in a column of a description is not zero. -/
def flag (r : ResultRow) (column : String) : Except Error Bool :=
  match r.named? column with
  | some (.int i) => .ok (i != 0)
  | some v => .error (.type (.unexpectedStorage "INTEGER" v.diagnostic))
  | none => .error (.lookup (.noPragmaColumn column))

def ofRow (r : ResultRow) : Except Error ColumnDescription := do
  let default := match r.named? "dflt_value" with
    | some .null | none => none
    | some v => some v.display
  return {
    name := ← text r "name", type := ← text r "type", notNull := ← flag r "notnull"
    default, isKey := ← flag r "pk" }

end ColumnDescription

end RecordMapper
