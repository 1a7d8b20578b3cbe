import RecordMapper.Sql.Parser

/-!
# Failures of the storage engine

What the engine refuses, with its code and sentence. A fault found while a statement is prepared may
also tell the place in the text.
-/

namespace RecordMapper

inductive EngineFault
  | syntaxError (spelling : String)
  | badToken (spelling : String)
  | parameterNumber
  | incomplete
  | noTable (name : String)
  | noColumn (name : String)
  | noFunction (name : String)
  | argumentCount (name : String)
  | misusedAggregate (name : String)
  | misusedRow
  | noSource
  | noCollation (name : String)
  | noColumnNamed (table column : String)
  | noUpdateColumn (column : String)
  | valueCount (table : String) (columns values : Nat)
  | listedValueCount (values columns : Nat)
  | unequalTerms
  | ordinalRange (position : String) (columns : Nat)
  | noIndex (name : String)
  | tableExists (spelling : String)
  | indexExists (name : String)
  | nameOfIndex (name : String)
  | nameOfTable (name : String)
  | reservedName (name : String)
  /-- A table that the engine keeps by itself, and what may not be done with it. -/
  | keptTable (name action : String)
  | duplicateColumn (name : String)
  | manyKeys (table : String)
  | autoIncrementType
  | autoIncrementWithoutRowid
  | keyMissing (table : String)
  | addKey
  | addUnique
  | addNotNull
  | addDefault
  | notNull (column : String)
  | unique (columns : List String)
  | uniqueIndex (name : String)
  | primaryKey (columns : List String)
  | rowid (column : String)
  | check (text : String)
  | mismatch
  | full
  | integerOverflow
  | patternTooComplex
  | busy
  | tableLocked
  | readOnly
  | alreadyInTransaction
  | noTransaction (verb : String)
  | noSavepoint (name : String)
  | noStatement
  | bindingRange
  | stated (code : Nat) (text : String)
  deriving DecidableEq, Repr, Inhabited

namespace EngineFault

def code : EngineFault → Nat
  | noCollation _ => 257
  | notNull _ => 1299
  | unique _ | uniqueIndex _ => 2067
  | primaryKey _ => 1555
  | rowid _ => 2579
  | check _ => 275
  | mismatch => 20
  | full => 13
  | busy => 5
  | tableLocked => 6
  | readOnly => 8
  | noStatement => 21
  | bindingRange => 25
  | stated code _ => code
  | _ => 1

def message : EngineFault → String
  | syntaxError spelling => "near \"" ++ spelling ++ "\": syntax error"
  | badToken spelling => "unrecognized token: \"" ++ spelling ++ "\""
  | parameterNumber =>
    "variable number must be between ?1 and ?" ++ toString Sql.maxParameter
  | incomplete => "incomplete input"
  | noTable name => "no such table: " ++ name
  | noColumn name => "no such column: " ++ name
  | noFunction name => "no such function: " ++ name
  | argumentCount name => "wrong number of arguments to function " ++ name ++ "()"
  | misusedAggregate name => "misuse of aggregate: " ++ name ++ "()"
  | misusedRow => "row value misused"
  | noSource => "no tables specified"
  | noCollation name => "no such collation sequence: " ++ name
  | noColumnNamed table column => "table " ++ table ++ " has no column named " ++ column
  | noUpdateColumn column => "no such column: " ++ column
  | valueCount table columns values =>
    "table " ++ table ++ " has " ++ toString columns ++ " columns but " ++ toString values
      ++ " values were supplied"
  | listedValueCount values columns =>
    toString values ++ " values for " ++ toString columns ++ " columns"
  | unequalTerms => "all VALUES must have the same number of terms"
  | ordinalRange position columns =>
    position ++ " ORDER BY term out of range - should be between 1 and " ++ toString columns
  | noIndex name => "no such index: " ++ name
  | tableExists spelling => "table " ++ spelling ++ " already exists"
  | indexExists name => "index " ++ name ++ " already exists"
  | nameOfIndex name => "there is already an index named " ++ name
  | nameOfTable name => "there is already a table named " ++ name
  | reservedName name => "object name reserved for internal use: " ++ name
  | keptTable name action => "table " ++ name ++ " may not be " ++ action
  | duplicateColumn name => "duplicate column name: " ++ name
  | manyKeys table => "table \"" ++ table ++ "\" has more than one primary key"
  | autoIncrementType => "AUTOINCREMENT is only allowed on an INTEGER PRIMARY KEY"
  | autoIncrementWithoutRowid => "AUTOINCREMENT not allowed on WITHOUT ROWID tables"
  | keyMissing table => "PRIMARY KEY missing on table " ++ table
  | addKey => "Cannot add a PRIMARY KEY column"
  | addUnique => "Cannot add a UNIQUE column"
  | addNotNull => "Cannot add a NOT NULL column with default value NULL"
  | addDefault => "Cannot add a column with non-constant default"
  | notNull column => "NOT NULL constraint failed: " ++ column
  | unique columns | primaryKey columns =>
    "UNIQUE constraint failed: " ++ ", ".intercalate columns
  | uniqueIndex name => "UNIQUE constraint failed: index '" ++ name ++ "'"
  | rowid column => "UNIQUE constraint failed: " ++ column
  | check text => "CHECK constraint failed: " ++ text
  | mismatch => "datatype mismatch"
  | full => "database or disk is full"
  | integerOverflow => "integer overflow"
  | patternTooComplex => "LIKE or GLOB pattern too complex"
  | busy => "database is locked"
  | tableLocked => "database table is locked"
  | readOnly => "attempt to write a readonly database"
  | alreadyInTransaction => "cannot start a transaction within a transaction"
  | noTransaction verb => "cannot " ++ verb ++ " - no transaction is active"
  | noSavepoint name => "no such savepoint: " ++ name
  | noStatement => "not an error"
  | bindingRange => "column index out of range"
  | stated _ text => text

end EngineFault

/-- A fault with its place in the text of the statement, where it has one. -/
structure LocatedFault where
  fault : EngineFault
  offset : Option Nat := none
  deriving DecidableEq, Repr, Inhabited

namespace LocatedFault

/-- The fault of a text that is no statement. -/
def ofSyntax : Sql.SyntaxFault → LocatedFault
  | .incomplete => ⟨.incomplete, none⟩
  | .parameterNumber l => ⟨.parameterNumber, some l.offset⟩
  | .near l =>
    match l.token with
    | .illegal => ⟨.badToken l.spelling, some l.offset⟩
    | _ => ⟨.syntaxError l.spelling, some l.offset⟩

end LocatedFault

end RecordMapper
