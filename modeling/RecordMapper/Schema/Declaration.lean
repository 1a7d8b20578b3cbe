import RecordMapper.Error
import RecordMapper.Field
import RecordMapper.Text.Fold

/-!
# Declarations

A record type declares its table and, for each field, a property, a type and constraints. A record
holds one content for each declared field, ignored fields included, and what its type has besides.
What a fresh record holds is up to its type.
-/

namespace RecordMapper

/-- The membership of a column in an index. -/
structure IndexMembership where
  /-- The name of the index, where the declaration gives one. -/
  name : Option String := none
  /-- The place of the column among the columns of the index. -/
  order : Int := 0
  unique : Bool := false
  deriving DecidableEq, Repr, Inhabited

inductive Constraint
  | primaryKey
  | autoIncrement
  | notNull
  | indexed (membership : IndexMembership)
  | collate (collation : String)
  | maxLength (length : Nat)
  | ignore
  deriving DecidableEq, Repr, Inhabited

/-- A field of a record type and how its column is declared. -/
structure FieldDeclaration where
  property : String
  /-- The name of the column, where it differs from the property. -/
  storage : Option String
  type : FieldType
  constraints : List Constraint
  /-- What a fresh record holds in the field. -/
  initial : Value
  deriving DecidableEq, Inhabited

namespace FieldDeclaration

def name (f : FieldDeclaration) : String := f.storage.getD f.property

def isPrimaryKey (f : FieldDeclaration) : Bool := f.constraints.contains .primaryKey

def isAutoIncrement (f : FieldDeclaration) : Bool := f.constraints.contains .autoIncrement

def isNotNull (f : FieldDeclaration) : Bool := f.constraints.contains .notNull

def isIgnored (f : FieldDeclaration) : Bool := f.constraints.contains .ignore

def collation (f : FieldDeclaration) : Option String :=
  f.constraints.reverse.findSome? fun
    | .collate name => some name
    | _ => none

/-- The greatest length given last. -/
def maxLength (f : FieldDeclaration) : Option Nat :=
  f.constraints.reverse.findSome? fun
    | .maxLength n => some n
    | _ => none

def indices (f : FieldDeclaration) : List IndexMembership :=
  f.constraints.filterMap fun
    | .indexed membership => some membership
    | _ => none

end FieldDeclaration

/-- A record type: its name tells it from every other record type. -/
structure Declaration where
  typeName : String
  table : String
  withoutRowid : Bool
  fields : List FieldDeclaration
  /-- What a fresh record holds in the fields of its type that are not declared. -/
  undeclared : List Value
  deriving DecidableEq, Inhabited

def Declaration.diagnostic (d : Declaration) : String :=
  namedParts "TableDef"
    [("name", diagnosticText d.table), ("without_rowid", diagnosticBool d.withoutRowid),
      ("columns", listed "[" (d.fields.map fun f => diagnosticText f.name) "]")]

/-- A record of some type: the contents of its fields in order of declaration, then of those that
are not declared. -/
structure Record where
  typeName : String
  contents : List Value
  deriving DecidableEq, Inhabited

/-- A fresh record. -/
def Declaration.blank (d : Declaration) : Record :=
  ⟨d.typeName, d.fields.map FieldDeclaration.initial ++ d.undeclared⟩

/-- The record with one property set; a property that no field has changes nothing. -/
def Declaration.assign (d : Declaration) (r : Record) (property : String) (v : Value) :
    Except Error Record :=
  match d.fields.findIdx? fun f => f.property == property with
  | none => .ok r
  | some i =>
    match d.fields[i]? with
    | none => .ok r
    | some f =>
      match f.type.take v with
      | .ok content => .ok { r with contents := r.contents.set i content }
      | .error fault => .error (.type fault)

end RecordMapper
