import RecordMapper.Schema.Declaration
import RecordMapper.Text.Quoted

/-!
# Mappings

A mapping is the resolved form of a declaration: every column that is stored, with its name, type,
nullability, key and index facts. Naming conventions fill in what the declaration leaves silent:

1. a property named `Id` becomes the primary key when no field declares one;
2. a column whose name ends in `Id` gets an index when it is no key and declares none;
3. an integer primary key counts up by itself.
-/

namespace RecordMapper

/-- The naming conventions in force. -/
structure Conventions where
  implicitKey : Bool := false
  implicitIndex : Bool := false
  autoIncrementKey : Bool := false
  deriving DecidableEq, Repr, Inhabited

namespace Conventions

/-- No convention: only what is declared counts. -/
def silent : Conventions := {}

def all : Conventions := ⟨true, true, true⟩

/-- The name of a property that is the key by convention. -/
def keyName : String := "Id"

/-- The end of the name of a column that is indexed by convention. -/
def indexEnding : String := "Id"

end Conventions

/-- A stored column. -/
structure Column where
  property : String
  name : String
  type : FieldType
  nullable : Bool
  collation : Option String
  maxLength : Option Nat
  isKey : Bool
  /-- The storage engine counts the key up. -/
  autoIncrement : Bool
  /-- A fresh unique identifier is assigned to an empty key. -/
  autoIdentifier : Bool
  indices : List IndexMembership
  /-- The place of the field in the record. -/
  field : Nat
  deriving DecidableEq, Repr, Inhabited

namespace Column

def dataType (c : Column) : DataType := c.type.dataType

/-- The declaration of the column in a statement that creates it. -/
def declaration (c : Column) (ticks : Bool) : Except Error String := do
  let type ←
    if c.autoIncrement then pure "integer"
    else
      match c.dataType.columnType ticks c.maxLength with
      | some type => pure type
      | none => throw (.schema (.unknownType c.dataType.name c.property))
  return quoteIdentifier c.name ++ " " ++ type
    ++ (if c.isKey then " primary key" else "")
    ++ (if c.autoIncrement then " autoincrement" else "")
    ++ (if c.nullable then "" else " not null")
    ++ (match c.collation with
        | some collation => " collate " ++ collation
        | none => "")

end Column

/-- The mapping of a record type to its table. -/
structure Mapping where
  record : Declaration
  columns : List Column
  deriving DecidableEq, Inhabited

namespace Mapping

/-! ## Building -/

def keyField (c : Conventions) (declared : Bool) (f : FieldDeclaration) : Bool :=
  f.isPrimaryKey || (!declared && c.implicitKey && sameFolded f.property Conventions.keyName)

def autoField (c : Conventions) (isKey : Bool) (f : FieldDeclaration) : Bool :=
  f.isAutoIncrement || (isKey && c.autoIncrementKey && f.type.dataType.isInteger)

def indicesOf (c : Conventions) (isKey : Bool) (f : FieldDeclaration) : List IndexMembership :=
  if f.indices.isEmpty && !isKey && c.implicitIndex && endsFolded f.name Conventions.indexEnding
  then [{}]
  else f.indices

/-- The column of a field that is stored; `declared` says whether any field declares a key. -/
def column (c : Conventions) (table : String) (declared : Bool) (place : Nat)
    (f : FieldDeclaration) : Except SchemaFault Column :=
  let type := f.type.dataType
  let isKey := keyField c declared f
  let auto := autoField c isKey f
  let identifier := auto && type == .uuid
  let increment := auto && type != .uuid
  if !type.isSupported then .error (.unknownType type.name f.property)
  else if increment && !isKey then .error (.autoNotKey table f.property)
  else if increment && !type.isInteger then .error (.autoNotInteger table f.property type.name)
  else .ok
    { property := f.property
      name := f.name
      type := f.type
      nullable := !(isKey || f.isNotNull)
      collation := f.collation
      maxLength := f.maxLength
      isKey
      autoIncrement := increment
      autoIdentifier := identifier
      indices := indicesOf c isKey f
      field := place }

/-- The fields that are stored, with their places. -/
def storedFields (d : Declaration) : List (FieldDeclaration × Nat) :=
  d.fields.zipIdx.filter fun (f, _) => !f.isIgnored

/-- The first column whose name an earlier column has, ASCII case aside. -/
def firstDuplicate : List String → List Column → Option String
  | _, [] => none
  | seen, c :: r =>
    if seen.any fun name => sameFolded name c.name then some c.name
    else firstDuplicate (c.name :: seen) r

/-- Resolves a declaration under some conventions. -/
def build (c : Conventions) (d : Declaration) : Except SchemaFault Mapping := do
  let stored := storedFields d
  let declared := stored.any fun (f, _) => f.isPrimaryKey
  let columns ← stored.mapM fun (f, place) => column c d.table declared place f
  if 1 < (columns.filter Column.isKey).length then throw (.manyKeys d.table)
  match firstDuplicate [] columns with
  | some name => throw (.duplicateColumn d.table name)
  | none => return ⟨d, columns⟩

/-! ## What a mapping says -/

def typeName (m : Mapping) : String := m.record.typeName

def table (m : Mapping) : String := m.record.table

def key? (m : Mapping) : Option Column := m.columns.find? Column.isKey

def hasAutoIncrementKey (m : Mapping) : Bool :=
  match m.key? with
  | some c => c.autoIncrement
  | none => false

/-- The columns that a plain insert binds: all but the key that counts up. -/
def insertColumns (m : Mapping) : List Column := m.columns.filter fun c => !c.autoIncrement

def findColumn (m : Mapping) (name : String) : Option Column :=
  m.columns.find? fun c => c.name == name

/-- The column for a column of a result: the same name, or else the same name up to ASCII case. -/
def resultColumn (m : Mapping) (name : String) : Option Column :=
  (m.findColumn name).or (m.columns.find? fun c => sameFolded c.name name)

def findProperty (m : Mapping) (property : String) : Option Column :=
  m.columns.find? fun c => c.property == property

/-! ## Access to records -/

/-- The content of a column's field. -/
def valueOf (m : Mapping) (c : Column) (r : Record) : Except Error Value :=
  if r.typeName = m.typeName then .ok (r.contents[c.field]?.getD .null)
  else .error (.type .foreignRecord)

/-- The record with a column's field set. -/
def assign (m : Mapping) (c : Column) (r : Record) (v : Value) : Except Error Record :=
  if r.typeName = m.typeName then
    match c.type.take v with
    | .ok content => .ok { r with contents := r.contents.set c.field content }
    | .error fault => .error (.type fault)
  else .error (.type .foreignRecord)

/-- The contents of the given columns. -/
def valuesOf (m : Mapping) (columns : List Column) (r : Record) : Except Error (List Value) :=
  columns.mapM fun c => m.valueOf c r

/-- The record as reported with a violated NOT NULL constraint. -/
def report (m : Mapping) (r : Record) : List ColumnReport :=
  m.columns.map fun c =>
    { name := c.name
      nullable := c.nullable
      value := match m.valueOf c r with
        | .ok v => v
        | .error _ => .null }

/-- Adds the record to an error that a violated NOT NULL constraint raised. -/
def attach (m : Mapping) (r : Record) : Error → Error
  | .notNull message _ => .notNull message (some (m.report r))
  | e => e

end Mapping

end RecordMapper
