import RecordMapper.Engine.Table

/-!
# Tables that the engine keeps

The list of definitions and the counters can be read like any other table. No statement may change
them.
-/

namespace RecordMapper

/-- A column of a table that the engine keeps. -/
def StoredColumn.kept (name type : String) : StoredColumn :=
  ⟨name, type, Affinity.ofType type, false, .binary, none⟩

/-- A table that the engine keeps, from its cells. -/
def Table.kept (name : String) (columns : List StoredColumn) (rows : List (List Cell)) : Table :=
  { (default : Table) with
    name, columns
    rows := rows.zipIdx.map fun (cells, i) => ⟨Int.ofNat (i + 1), cells⟩ }

namespace Listed

def cells (e : Listed) : List Cell :=
  [.text (if e.isTable then "table" else "index"), .text e.name, .text e.table,
    Cell.ofInt (Int.ofNat e.page), (e.text.map fun t => Cell.text t.render).getD .null]

end Listed

namespace Database

def definitions (d : Database) : Table :=
  .kept "sqlite_master"
    [.kept "type" "TEXT", .kept "name" "TEXT", .kept "tbl_name" "TEXT", .kept "rootpage" "INT",
      .kept "sql" "TEXT"]
    (d.listing.map Listed.cells)

def counters (d : Database) : Table :=
  .kept Listing.counters [.kept "name" "", .kept "seq" ""]
    (d.sequences.map fun (name, n) => [.text name, Cell.ofInt n])

/-- A table that the engine keeps. The list of definitions has two names. -/
def keptTable? (d : Database) (name : String) : Option Table :=
  let name := foldCase name
  if name = "sqlite_master" ∨ name = "sqlite_schema" then some d.definitions
  else if name = Listing.counters ∧ d.listing.hasCounters then some d.counters
  else none

/-- A table that a statement may read. -/
def readable? (d : Database) (name : String) : Option Table :=
  (d.table? name).or (d.keptTable? name)

/-- A table for an action that the engine allows on no table of its own. -/
def tableFor (d : Database) (action name : String) (missing : EngineFault) :
    Except LocatedFault Table :=
  match d.table? name, d.keptTable? name with
  | some t, _ => .ok t
  | none, some t => .error ⟨.keptTable t.name action, none⟩
  | none, none => .error ⟨missing, none⟩

end Database

end RecordMapper
