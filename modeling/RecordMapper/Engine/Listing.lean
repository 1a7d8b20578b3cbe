import RecordMapper.Sql.Syntax
import RecordMapper.Text.Fold
import RecordMapper.Text.Quoted

/-!
# The list of definitions

A database lists its tables and indices in the order of their definition, each with the first of its
pages and its text. A later statement may change a part of a text: a new column is written after the
last one, and a new name of a table stands in quotes.
-/

namespace RecordMapper

/-- A table or an index with its text; an index that a constraint calls for has none. -/
structure Listed where
  isTable : Bool
  name : String
  table : String
  page : Nat
  text : Option Sql.DefinitionText
  deriving DecidableEq, Repr, Inhabited

abbrev Listing := List Listed

namespace Listing

/-- How the name of an index that a constraint calls for starts. -/
def automatic : String := "sqlite_autoindex_"

/-- The table that keeps the counters. -/
def counters : String := "sqlite_sequence"

/-- The least page that nothing uses. The first page of all holds the list itself. -/
def freePage (l : Listing) : Nat :=
  2 + ((List.range l.length).find? fun k => !l.any fun e => e.page == k + 2).getD l.length

def addTable (l : Listing) (name : String) (text : Sql.DefinitionText) : Listing :=
  l ++ [⟨true, name, name, l.freePage, some text⟩]

def addIndex (l : Listing) (name table : String) (text : Option Sql.DefinitionText) : Listing :=
  l ++ [⟨false, name, table, l.freePage, text⟩]

def hasCounters (l : Listing) : Bool := l.any fun e => e.isTable && e.name == counters

/-- The list with the table of the counters, which is there once. -/
def addCounters (l : Listing) : Listing :=
  if l.hasCounters then l else l.addTable counters ⟨"CREATE TABLE ", counters, "(name,seq", ")"⟩

/-- The list without a table and its indices. -/
def dropTable (l : Listing) (table : String) : Listing :=
  l.filter fun e => !sameFolded e.table table

def dropIndex (l : Listing) (name : String) : Listing :=
  l.filter fun e => e.isTable || !sameFolded e.name name

/-- Writes a column after the last one of a table. -/
def addColumn (l : Listing) (table spelling : String) : Listing :=
  l.map fun e =>
    if e.isTable && sameFolded e.table table then
      { e with text := e.text.map fun t => { t with columns := t.columns ++ ", " ++ spelling } }
    else e

/-- The name of an automatic index once its table has a new name. -/
def renamedIndex (index table name : String) : String :=
  automatic ++ name ++ String.ofList (index.toList.drop (automatic.length + table.length))

def renameTable (l : Listing) (table name : String) : Listing :=
  l.map fun e =>
    if sameFolded e.table table then
      let own :=
        if e.isTable then name
        else if e.text.isNone then renamedIndex e.name e.table name
        else e.name
      let text := e.text.map fun t => { t with table := quoteIdentifier name }
      { e with name := own, table := name, text }
    else e

end Listing

end RecordMapper
