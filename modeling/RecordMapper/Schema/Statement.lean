import RecordMapper.Schema.Mapping

/-!
# Statements on one table

The statements that store, find, change and remove single records. Every value is a parameter; every
name is a quoted identifier.
-/

namespace RecordMapper

/-- What an insert does about a row with the same key. -/
inductive InsertMode
  | plain
  | replace
  deriving DecidableEq, Repr, Inhabited

def InsertMode.keyword : InsertMode → String
  | plain => "insert into"
  | replace => "insert or replace into"

namespace Mapping

def boundColumns (m : Mapping) : InsertMode → List Column
  | .plain => m.insertColumns
  | .replace => m.columns

def placeholders (n : Nat) : String := ",".intercalate (List.replicate n "?")

def insertStatement (m : Mapping) (mode : InsertMode) : String :=
  let columns := m.boundColumns mode
  let head := mode.keyword ++ " " ++ quoteIdentifier m.table
  let onlyCounted := m.columns.length == 1 && m.columns.all Column.autoIncrement
  if columns.isEmpty && onlyCounted then head ++ " default values"
  else
    head ++ "(" ++ ",".intercalate (columns.map fun c => quoteIdentifier c.name) ++ ") values ("
      ++ placeholders columns.length ++ ")"

end Mapping

structure InsertCommand where
  mode : InsertMode
  text : String
  made : ∃ m : Mapping, text = m.insertStatement mode

namespace Mapping

def insertCommand (m : Mapping) (mode : InsertMode) : InsertCommand where
  mode
  text := m.insertStatement mode
  made := ⟨m, rfl⟩

/-- The statement that finds the record of a key; without a key it finds any record. -/
def findStatement (m : Mapping) : String :=
  match m.key? with
  | some c =>
    "select * from " ++ quoteIdentifier m.table ++ " where " ++ quoteIdentifier c.name ++ " = ?"
  | none => "select * from " ++ quoteIdentifier m.table ++ " limit 1"

/-- The columns that an update sets: all but the key, or the key where it stands alone. -/
def updateColumns (m : Mapping) : List Column :=
  let others := m.columns.filter fun c => !c.isKey
  if others.isEmpty then m.columns.filter Column.isKey else others

def updateStatement (m : Mapping) (key : Column) : String :=
  let settings := m.updateColumns.map fun c => quoteIdentifier c.name ++ " = ?"
  "update " ++ quoteIdentifier m.table ++ " set " ++ ", ".intercalate settings ++ " where "
    ++ quoteIdentifier key.name ++ " = ?"

def deleteStatement (m : Mapping) (key : Column) : String :=
  "delete from " ++ quoteIdentifier m.table ++ " where " ++ quoteIdentifier key.name ++ " = ?"

def deleteAllStatement (m : Mapping) : String := "delete from " ++ quoteIdentifier m.table

end Mapping

end RecordMapper
