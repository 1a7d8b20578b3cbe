import RecordMapper.Engine.Formula
import RecordMapper.Engine.Listing

/-!
# Tables

A database holds tables and indices. The rows of a table have distinct row numbers and stand in the
order of these numbers; a table without row numbers shows its rows in the order of its key.
-/

namespace RecordMapper

structure StoredColumn where
  name : String
  /-- The declared type. -/
  type : String
  affinity : Affinity
  notNull : Bool
  collation : Collation
  /-- The value of a missing cell, with its spelling. -/
  fallback : Option (Cell × String)
  deriving DecidableEq, Inhabited

structure Row where
  id : Int
  cells : List Cell
  deriving DecidableEq, Inhabited

inductive IndexOrigin
  | created
  | unique
  | primaryKey
  deriving DecidableEq, Repr, Inhabited

/-- One term of an index: a column, or a text that is the same in all rows. -/
structure IndexTerm where
  column : Option Nat
  collation : Collation := .binary
  deriving DecidableEq, Repr, Inhabited

structure Index where
  name : String
  table : String
  unique : Bool
  terms : List IndexTerm
  origin : IndexOrigin
  deriving DecidableEq, Repr, Inhabited

structure Table where
  name : String
  columns : List StoredColumn
  /-- The column that is the row number under another name; its cells hold the number. -/
  rowidColumn : Option Nat
  autoIncrement : Bool
  withoutRowid : Bool
  /-- The columns of the primary key. -/
  key : List Nat
  checks : List (Formula × String)
  rows : List Row

instance : Inhabited Table := ⟨⟨"", [], none, false, false, [], [], []⟩⟩

structure Database where
  tables : List Table := []
  /-- Indices, the newest first. -/
  indices : List Index := []
  /-- The greatest row number that each counting table ever had. -/
  sequences : List (String × Int) := []
  listing : Listing := []
  /-- Changes with every change of the definitions. -/
  version : Nat := 0
  userVersion : Int := 0

instance : Inhabited Database := ⟨{}⟩

namespace Table

/-- The place of a column; letter case does not count. -/
def columnPlace? (t : Table) (name : String) : Option Nat :=
  t.columns.findIdx? fun c => sameFolded c.name name

def columnLabel (t : Table) (i : Nat) : String :=
  t.name ++ "." ++ ((t.columns[i]?.map StoredColumn.name).getD "")

def orderBy (columns : List (Nat × Collation)) (a b : Row) : Ordering :=
  columns.foldr (fun (i, c) rest =>
    let x := a.cells[i]?.getD .null
    let y := b.cells[i]?.getD .null
    (Cell.order c x y).then rest) .eq

def keyColumns (t : Table) : List (Nat × Collation) :=
  t.key.map fun i => (i, (t.columns[i]?.map StoredColumn.collation).getD .binary)

/-- The rows in the order in which a plain scan finds them. -/
def scan (t : Table) : List Row :=
  if t.withoutRowid then
    t.rows.mergeSort fun a b => orderBy t.keyColumns a b != .gt
  else t.rows

/-- Puts a row at its place in the order of row numbers. -/
def place (r : Row) : List Row → List Row
  | [] => [r]
  | a :: rest => if r.id < a.id then r :: a :: rest else a :: place r rest

def insertRow (t : Table) (r : Row) : Table := { t with rows := place r t.rows }

def row? (t : Table) (id : Int) : Option Row := t.rows.find? fun r => r.id == id

def lastId? (t : Table) : Option Int := (t.rows.getLast?).map Row.id

def maxId : Int := maxInt64

end Table

namespace Index

/-- The cells of a row that the index holds, with their collations. -/
def key (ix : Index) (cells : List Cell) : List (Collation × Cell) :=
  ix.terms.map fun term =>
    (term.collation, (term.column.map fun i => cells[i]?.getD .null).getD (.text ""))

/-- Whether two rows may not both be there: all cells are equal, and none is null. -/
def clash (ix : Index) (xs ys : List Cell) : Bool :=
  ix.unique && ((ix.key xs).zip (ix.key ys)).all fun ((c, x), (_, y)) =>
    !x.isNull && Cell.same c x y

def violation (ix : Index) (t : Table) : EngineFault :=
  let columns := ix.terms.map IndexTerm.column
  if columns.all Option.isSome then
    let labels := columns.filterMap fun i => i.map t.columnLabel
    match ix.origin with
    | .primaryKey => .primaryKey labels
    | _ => .unique labels
  else .uniqueIndex ix.name

end Index

namespace Database

def table? (d : Database) (name : String) : Option Table :=
  d.tables.find? fun t => sameFolded t.name name

def index? (d : Database) (name : String) : Option Index :=
  d.indices.find? fun i => sameFolded i.name name

/-- The indices of a table, the newest first. -/
def indicesOf (d : Database) (table : String) : List Index :=
  d.indices.filter fun i => sameFolded i.table table

/-- The database with a table exchanged for one of the same name. -/
def setTable (d : Database) (t : Table) : Database :=
  { d with tables := d.tables.map fun u => if sameFolded u.name t.name then t else u }

def sequence (d : Database) (table : String) : Int :=
  ((d.sequences.find? fun (name, _) => sameFolded name table).map Prod.snd).getD 0

def setSequence (d : Database) (table : String) (n : Int) : Database :=
  if d.sequences.any fun (name, _) => sameFolded name table then
    { d with sequences := d.sequences.map fun (name, m) =>
        if sameFolded name table then (name, n) else (name, m) }
  else { d with sequences := d.sequences ++ [(table, n)] }

/-- The database after a change of its definitions. -/
def redefined (d : Database) : Database := { d with version := d.version + 1 }

end Database

end RecordMapper
