import RecordMapper.Engine.Cell

/-!
# Statements

The statements that the storage engine runs, as trees. Names are still names: which columns they are
is decided when a statement is prepared against the tables.
-/

namespace RecordMapper.Sql

inductive Negation
  | minus
  | plus
  | not
  | complement
  deriving DecidableEq, Repr, Inhabited

inductive Operator
  | or
  | and
  | eq
  | ne
  | is
  | isNot
  | lt
  | le
  | gt
  | ge
  | bitAnd
  | bitOr
  | shiftLeft
  | shiftRight
  | add
  | sub
  | mul
  | div
  | rem
  | concat
  deriving DecidableEq, Repr, Inhabited

inductive Scalar
  | literal (v : Cell)
  /-- A parameter, told by its place in the text. -/
  | parameter (place : Nat)
  /-- A column by name; a quoted name may turn out to be a text. The offset is that of the name. -/
  | column (table : Option String) (name : String) (quoted : Bool) (offset : Nat)
  | negate (op : Negation) (a : Scalar)
  | binary (op : Operator) (a b : Scalar)
  | collate (a : Scalar) (collation : String)
  /-- A pattern match, `pattern` standing on the right. -/
  | like (negated : Bool) (a pattern : Scalar) (escape : Option Scalar)
  | isNull (negated : Bool) (a : Scalar)
  | between (negated : Bool) (a low high : Scalar)
  | inList (negated : Bool) (a : Scalar) (items : List Scalar)
  | inTable (negated : Bool) (a : Scalar) (table : String)
  /-- A function call; `star` stands for the argument `*`. -/
  | call (name : String) (distinct star : Bool) (arguments : List Scalar) (offset : Nat)
  | cast (a : Scalar) (type : String)
  /-- Tests in order, each with its result, compared with the operand where there is one. -/
  | cases (operand : Option Scalar) (branches : List (Scalar × Scalar)) (otherwise : Option Scalar)
  /-- Several values in parentheses. -/
  | row (items : List Scalar) (offset : Nat)

instance : Inhabited Scalar := ⟨.literal .null⟩

inductive Selection
  | all (table : Option String)
  | scalar (a : Scalar) (otherName : Option String) (spelling : String)

structure OrderTerm where
  scalar : Scalar
  descending : Bool

structure Source where
  table : String
  otherName : Option String
  deriving DecidableEq, Repr, Inhabited

structure Select where
  distinct : Bool := false
  selections : List Selection
  source : Option Source := none
  condition : Option Scalar := none
  orderings : List OrderTerm := []
  limit : Option Scalar := none
  offset : Option Scalar := none

/-- What a statement does about a violated constraint. -/
inductive Conflict
  | abort
  | fail
  | ignore
  | replace
  | rollback
  deriving DecidableEq, Repr, Inhabited

inductive ColumnConstraint
  | primaryKey (descending autoIncrement : Bool)
  | notNull
  | nullable
  | unique
  | default (value : Scalar) (spelling : String)
  | collate (name : String)
  /-- A condition with its name or spelling. -/
  | check (condition : Scalar) (label : String)

structure ColumnSpec where
  name : String
  type : String
  constraints : List ColumnConstraint

structure IndexedColumn where
  name : String
  quoted : Bool
  collation : Option String
  offset : Nat
  deriving DecidableEq, Repr, Inhabited

inductive TableConstraint
  | primaryKey (columns : List IndexedColumn)
  | unique (columns : List IndexedColumn)
  /-- A condition with its name or spelling. -/
  | check (condition : Scalar) (label : String)

/-- The text of a definition, in the parts that later statements change. -/
structure DefinitionText where
  /-- What stands before the name of the table. -/
  head : String
  /-- The name of the table as it is written. -/
  table : String
  /-- What follows the name, the last column included. -/
  columns : String
  rest : String
  deriving DecidableEq, Repr, Inhabited

namespace DefinitionText

def render (t : DefinitionText) : String := t.head ++ t.table ++ t.columns ++ t.rest

end DefinitionText

structure TableSpec where
  name : String
  text : DefinitionText
  /-- Where the name stands. -/
  offset : Nat
  columns : List ColumnSpec
  constraints : List TableConstraint
  withoutRowid : Bool

inductive InsertSource
  | values (rows : List (List Scalar))
  | select (s : Select)
  | defaults

inductive BeginMode
  | deferred
  | immediate
  | exclusive
  deriving DecidableEq, Repr, Inhabited

inductive Statement
  | select (s : Select)
  | values (rows : List (List (Scalar × String)))
  | insert (conflict : Conflict) (table : String) (columns : Option (List String))
      (source : InsertSource)
  | update (conflict : Conflict) (table : String) (settings : List (String × Scalar))
      (condition : Option Scalar)
  | delete (table : String) (condition : Option Scalar)
  | createTable (ifNotExists : Bool) (spec : TableSpec)
  | createIndex (unique ifNotExists : Bool) (name table : String)
      (columns : List IndexedColumn) (text : DefinitionText)
  | dropTable (ifExists : Bool) (name : String)
  | dropIndex (ifExists : Bool) (name : String)
  | addColumn (table : String) (column : ColumnSpec) (spelling : String)
  | renameTable (table name : String)
  | pragma (name : String) (argument : Option String)
  | begin (mode : BeginMode)
  | commit
  | rollback
  | savepoint (name : String)
  | release (name : String)
  | rollbackTo (name : String)

end RecordMapper.Sql
