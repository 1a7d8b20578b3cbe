/-!
# Causes of failure

What can go wrong with a declaration, an expression, a value, a transaction or a lookup, and the
sentence that reports it. A fault carries only the texts its sentence shows.
-/

namespace RecordMapper

/-- A value that does not fit the type it meets. -/
inductive TypeFault
  | outOfRange (shown target : String)
  | mismatch (found target : String)
  | noDecimal (shown : String)
  | badUuid (text cause : String)
  | badDatetime (text : String)
  | notAVariant (shown enumeration : String)
  | unreadable (type : String)
  | unbindable (kind : String)
  | foreignRecord
  | unexpectedStorage (wanted shown : String)
  | stated (text : String)
  deriving DecidableEq, Repr

def TypeFault.message : TypeFault → String
  | outOfRange shown target => shown ++ " is out of range for " ++ target
  | mismatch found target => "cannot convert " ++ found ++ " value into " ++ target
  | noDecimal shown => shown ++ " has no decimal representation"
  | badUuid text cause => "'" ++ text ++ "' is not a valid uuid: " ++ cause
  | badDatetime text => "'" ++ text ++ "' is not a recognized datetime"
  | notAVariant shown enumeration => shown ++ " is not a " ++ enumeration ++ " variant"
  | unreadable type => "cannot read a column into " ++ type
  | unbindable kind => "cannot bind a " ++ kind ++ " as a statement parameter"
  | foreignRecord => "column accessor applied to a record of another type"
  | unexpectedStorage wanted shown => "expected " ++ wanted ++ ", got " ++ shown
  | stated text => text

/-- A declaration that gives no table, or an operation the table does not admit. -/
inductive SchemaFault
  | unknownType (type property : String)
  | autoNotKey (table property : String)
  | autoNotInteger (table property type : String)
  | manyKeys (table : String)
  | duplicateColumn (table column : String)
  | mixedUniqueness (index : String)
  | updateWithoutKey (table : String)
  | deleteWithoutKey (table : String)
  | stated (text : String)
  deriving DecidableEq, Repr

def SchemaFault.message : SchemaFault → String
  | unknownType type property => "don't know about type " ++ type ++ " of property " ++ property
  | autoNotKey table property =>
    table ++ "." ++ property ++ ": auto-increment requires the column to be the primary key"
  | autoNotInteger table property type =>
    table ++ "." ++ property ++ ": auto-increment requires an integer column, found " ++ type
  | manyKeys table => table ++ " declares more than one primary key"
  | duplicateColumn table column => table ++ " declares column " ++ column ++ " more than once"
  | mixedUniqueness index =>
    "all the columns in index " ++ index ++ " must have the same value for their unique property"
  | updateWithoutKey table => "cannot update " ++ table ++ ": it has no primary key"
  | deleteWithoutKey table => "cannot delete from " ++ table ++ " by key: it has no primary key"
  | stated text => text

/-- An expression or a query that has no statement. -/
inductive ExpressionFault
  | noOperator (operator : String)
  | noMappedMember (type member : String)
  | notAnObject (member kind : String)
  | noMember (type member : String)
  | notCompilable (kind : String)
  | notOrderable (kind : String)
  | join
  | windowedDelete
  | unconditionalDelete
  | stated (text : String)
  deriving DecidableEq, Repr

def ExpressionFault.message : ExpressionFault → String
  | noOperator operator => "operator " ++ operator ++ " is not supported"
  | noMappedMember type member => type ++ " has no mapped member " ++ member
  | notAnObject member kind => "member " ++ member ++ " needs an object receiver, got " ++ kind
  | noMember type member => type ++ " has no member " ++ member
  | notCompilable kind => "cannot compile a " ++ kind ++ " expression"
  | notOrderable kind => "order by requires a member of the queried record, got " ++ kind
  | join => "joins are not supported"
  | windowedDelete => "cannot delete with limits or offsets"
  | unconditionalDelete => "no condition specified for delete"
  | stated text => text

/-- A transaction call that does not fit the transactions open. -/
inductive TransactionFault
  | alreadyOpen
  | badToken (token : String)
  | stated (text : String)
  deriving DecidableEq, Repr

def TransactionFault.message : TransactionFault → String
  | alreadyOpen => "cannot begin a transaction while already in a transaction"
  | badToken token =>
    "savepoint '" ++ token
      ++ "' is not valid, and should be the result of a call to save_transaction_point"
  | stated text => text

inductive LookupFault
  | noRow (table key : String)
  | emptyQuery (table : String)
  | noColumn (index : Nat)
  | noPragmaColumn (name : String)
  | stated (text : String)
  deriving DecidableEq, Repr

def LookupFault.message : LookupFault → String
  | noRow table key => "no row in " ++ table ++ " with primary key " ++ key
  | emptyQuery table => "query on " ++ table ++ " returned no rows"
  | noColumn index => "column " ++ toString index ++ " out of bounds"
  | noPragmaColumn name => "table_info has no " ++ name ++ " column"
  | stated text => text

end RecordMapper
