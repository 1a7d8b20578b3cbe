import RecordMapper.Session.Basic

/-!
# Creating tables

A table is created from its mapping, or gets the columns that it lacks; then the indices that the
mapping plans are created where their names are free. Existing columns are never changed.
-/

namespace RecordMapper

/-- What became of a table. -/
inductive Creation
  | created
  | migrated
  deriving DecidableEq, Repr, Inhabited

namespace Mapping

def createStatement (m : Mapping) (ticks : Bool) : Except Error String := do
  let declarations ← m.columns.mapM fun c => c.declaration ticks
  return "create table if not exists " ++ quoteIdentifier m.table ++ "("
    ++ ", ".intercalate declarations ++ ")" ++
      (if m.record.withoutRowid then " without rowid" else "")

def addStatement (m : Mapping) (ticks : Bool) (c : Column) : Except Error String := do
  return "alter table " ++ quoteIdentifier m.table ++ " add column " ++ (← c.declaration ticks)

/-- The columns that a table with the given columns lacks. -/
def missingColumns (m : Mapping) (present : List ColumnDescription) : List Column :=
  m.columns.filter fun c => !present.any fun d => sameFolded d.name c.name

end Mapping

def createIndexStatement (name table : String) (columns : List String) (unique : Bool) : String :=
  "create " ++ (if unique then "unique " else "") ++ "index if not exists " ++ quoteIdentifier name
    ++ " on " ++ quoteIdentifier table ++ "(" ++
      ", ".intercalate (columns.map quoteIdentifier) ++ ")"

namespace Session

/-- The columns of a table; none if there is no such table. -/
def tableInfo (table : String) : SessionAction (List ColumnDescription) := do
  let found ← rows ⟨"pragma table_info(" ++ quoteIdentifier table ++ ")", []⟩
  .ofExcept (found.mapM ColumnDescription.ofRow)

def createIndex (name table : String) (columns : List String) (unique : Bool) :
    SessionAction Int :=
  executeText (createIndexStatement name table columns unique)

/-- Adds the columns that a table lacks. -/
def migrate (m : Mapping) (present : List ColumnDescription) : SessionAction Unit := do
  let ticks := (← get).connection.settings.ticks
  for c in m.missingColumns present do
    let text ← .ofExcept (m.addStatement ticks c)
    let _ ← executeText text

/-- Creates the table of a record type, or adds what it lacks, with its indices. -/
def createTableWith (conventions : Conventions) (d : Declaration) : SessionAction Creation := do
  let m ← mappingWith conventions d
  let plans ← .ofExcept ((IndexPlan.ofMapping m).mapError Error.schema)
  let ticks := (← get).connection.settings.ticks
  let present ← tableInfo m.table
  let creation ←
    if present.isEmpty then do
      let text ← .ofExcept (m.createStatement ticks)
      let _ ← executeText text
      pure Creation.created
    else do
      migrate m present
      pure Creation.migrated
  for plan in plans do
    let _ ← createIndex plan.name m.table (plan.members.map Prod.snd) plan.unique
  modify fun s =>
    { s with connection := { s.connection with created := d.typeName :: s.connection.created } }
  return creation

/-- Creates the table of a record type under the conventions of the connection. -/
def createTable (d : Declaration) : SessionAction Creation := do
  createTableWith (← get).connection.settings.conventions d

def dropTable (d : Declaration) : SessionAction Int := do
  let m ← mapping d
  let count ← executeText ("drop table if exists " ++ quoteIdentifier m.table)
  modify fun s =>
    { s with connection := { s.connection with
        created := s.connection.created.filter (· != d.typeName)
        insertCommands := s.connection.insertCommands.forget d.typeName } }
  return count

/-- Whether the table of a record type was created or migrated here. -/
def isCreated (s : Session) (d : Declaration) : Bool := s.connection.created.contains d.typeName

end Session

end RecordMapper
