import RecordMapper.Fault
import RecordMapper.Value

/-!
# Errors

The outcome of an operation that fails. Failures of the storage engine keep its code; a violated NOT
NULL constraint also keeps the record that violated it, when there is one.
-/

namespace RecordMapper

/-- A column of a failed record: its name, whether it may be null, and the record's value. -/
structure ColumnReport where
  name : String
  nullable : Bool
  value : Value
  deriving DecidableEq, Inhabited

inductive Error
  | connection (path message : String)
  | schema (fault : SchemaFault)
  | expression (fault : ExpressionFault)
  | type (fault : TypeFault)
  | execution (code : Int) (message : String)
  | notNull (message : String) (record : Option (List ColumnReport))
  | transaction (fault : TransactionFault)
  | lookup (fault : LookupFault)
  deriving DecidableEq, Inhabited

namespace Error

/-- The engine's codes after which the open transaction cannot be trusted: out of memory,
interrupted, input or output failure, disk full, and locked by another connection. -/
def transientCodes : List Int := [5, 7, 9, 10, 13]

def notNullCode : Int := 1299

def message : Error → String
  | connection path message => "could not open database '" ++ path ++ "': " ++ message
  | schema fault => "schema error: " ++ fault.message
  | expression fault => "unsupported expression: " ++ fault.message
  | type fault => "unsupported type: " ++ fault.message
  | execution code message => message ++ " (code " ++ toString code ++ ")"
  | notNull message _ => "NOT NULL constraint violation: " ++ message
  | transaction fault => "invalid transaction state: " ++ fault.message
  | lookup fault => "not found: " ++ fault.message

def code : Error → Option Int
  | execution code _ => some code
  | notNull _ _ => some notNullCode
  | _ => none

/-- The code without its extension: the low eight bits. -/
def primaryCode (e : Error) : Option Int := e.code.map (· % 256)

def isTransient (e : Error) : Bool :=
  match e.primaryCode with
  | some c => transientCodes.contains c
  | none => false

/-- The columns that may not be null and for which the failed record has no value. -/
def notNullColumns : Error → List String
  | notNull _ (some record) =>
    (record.filter fun c => !c.nullable && c.value.isNull).map ColumnReport.name
  | _ => []

/-- The values of the failed record. -/
def values : Error → Option (List Value)
  | notNull _ (some record) => some (record.map ColumnReport.value)
  | _ => none

end Error

end RecordMapper
