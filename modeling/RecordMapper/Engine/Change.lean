import RecordMapper.Engine.Access

/-!
# Changing rows

Insert, update and delete on one table. A statement that meets a fault leaves the tables as they
were, unless its conflict clause says otherwise.

1. `Draft` is a row before it is stored, and `Database.store` checks it and puts it into its table.
2. `InsertPlan`, `UpdatePlan` and `DeletePlan` are statements with their names resolved.
-/

namespace RecordMapper

/-- What a statement on rows leaves. -/
structure Outcome where
  database : Database
  /-- How many rows were changed. -/
  count : Nat := 0
  /-- The row number given last. -/
  lastRowid : Option Int := none
  fault : Option EngineFault := none
  /-- Whether the fault ends the whole transaction. -/
  endsTransaction : Bool := false
  /-- Whether what was changed before the fault stays. -/
  stands : Bool := false

instance : Inhabited Outcome := ⟨{ database := default }⟩

/-! ## Storing one row -/

/-- A row to be stored: its cells, and its number if it has one already. -/
structure Draft where
  cells : List Cell
  id : Option Int
  /-- The row that it replaces. -/
  old : Option Row := none
  /-- The columns that are checked for null. -/
  checked : List Nat

namespace Database

/-- The number of a new row: one more than the greatest; a counting table never gives one twice. -/
def nextId (d : Database) (t : Table) : Except EngineFault Int :=
  let last := t.lastId?.getD 0
  let floor := if t.autoIncrement then max last (d.sequence t.name) else last
  if floor < Table.maxId then .ok (floor + 1)
  else if t.autoIncrement then .error .full
  else
    match (List.range (t.rows.length + 1)).find? fun i : Nat =>
        decide ((i : Int) < Table.maxId) && (t.row? (i + 1)).isNone with
    | some i => .ok ((i : Int) + 1)
    | none => .error .full

/-- The first column that must not be null and is; a fallback stands in for it when rows are
replaced. -/
def fillNulls (t : Table) (mode : Sql.Conflict) (checked : List Nat) (cells : List Cell) :
    Except EngineFault (List Cell) :=
  checked.foldlM (fun cells i =>
    match t.columns[i]? with
    | some c =>
      if c.notNull && t.rowidColumn != some i && (cells[i]?.getD .null).isNull then
        match mode, c.fallback with
        | .replace, some (v, _) =>
          if v.isNull then .error (.notNull (t.columnLabel i)) else .ok (cells.set i v)
        | _, _ => .error (.notNull (t.columnLabel i))
      else .ok cells
    | none => .ok cells) cells

/-- The first check that is false on a row. -/
def failedCheck (t : Table) (r : Row) : Except EngineFault Unit :=
  t.checks.forM fun (f, text) => do
    match (← f.eval { fields := r.cells, rowid := Cell.ofInt r.id }).truth with
    | some false => throw (.check text)
    | _ => return

/-- The rows that may not stand beside a row, each with the fault that it means. -/
def clashes (d : Database) (t : Table) (r : Row) (old : Option Row) : List (Row × EngineFault) :=
  let others := t.rows.filter fun o => old.all fun q => q.id != o.id
  let byNumber := if t.withoutRowid then [] else others.filter fun o => o.id == r.id
  let numberFault : EngineFault :=
    match t.rowidColumn with
    | some i => .primaryKey [t.columnLabel i]
    | none => .rowid (t.name ++ ".rowid")
  let byIndex := (d.indicesOf t.name).flatMap fun ix =>
    (others.filter fun o => ix.clash r.cells o.cells).map fun o => (o, ix.violation t)
  byNumber.map (fun o => (o, numberFault)) ++ byIndex

/-- The fault of a row that a conflict clause lets pass over. -/
def passedOver (mode : Sql.Conflict) : EngineFault → Bool
  | .notNull _ | .unique _ | .uniqueIndex _ | .primaryKey _ | .rowid _ | .check _ =>
    mode = .ignore
  | _ => false

/-- Checks a row and puts it into its table. -/
def store (d : Database) (t : Table) (mode : Sql.Conflict) (draft : Draft) :
    Except EngineFault (Database × Int) := do
  let id ← match draft.id with
    | some id => pure id
    | none => d.nextId t
  let cells ← fillNulls t mode draft.checked draft.cells
  let cells := match t.rowidColumn with
    | some i => cells.set i (Cell.ofInt id)
    | none => cells
  let r : Row := ⟨id, cells⟩
  failedCheck t r
  let found := d.clashes t r draft.old
  match found with
  | (_, fault) :: _ => if mode ≠ .replace then throw fault
  | [] => pure ()
  let gone := (draft.old.toList ++ found.map Prod.fst).map Row.id
  let rest := { t with rows := t.rows.filter fun o => !gone.contains o.id }
  let d := d.setTable (rest.insertRow r)
  let d := if t.autoIncrement && draft.old.isNone then
      d.setSequence t.name (max id (d.sequence t.name))
    else d
  return (d, id)

end Database

namespace Outcome

/-- The outcome of a fault in the midst of a statement that started on some tables. -/
def failed (before : Database) (mode : Sql.Conflict) (o : Outcome) (fault : EngineFault) :
    Outcome :=
  if mode = .fail then { o with fault := some fault, stands := true }
  else
    { o with
      database := before, count := 0, fault := some fault, endsTransaction := mode = .rollback }

/-- Takes one step for each item; a fault ends the statement. -/
def steps {α : Type} (before : Database) (mode : Sql.Conflict)
    (step : Outcome → α → Except EngineFault Outcome) : Outcome → List α → Outcome
  | o, [] => o
  | o, a :: r =>
    match step o a with
    | .ok o => steps before mode step o r
    | .error fault =>
      if Database.passedOver mode fault then steps before mode step o r
      else failed before mode o fault

end Outcome

/-! ## Insert -/

inductive RowSource
  | formulas (rows : List (List Formula))
  | select (plan : SelectPlan) (table : Option String)

structure InsertPlan where
  mode : Sql.Conflict
  table : String
  /-- For each column the place of its value. -/
  places : List (Option Nat)
  /-- The place of the row number. -/
  rowidPlace : Option Nat
  source : RowSource

namespace InsertPlan

/-- The columns that a list of names means; a name of the row number means none. -/
def targets (t : Table) (names : List String) : Except LocatedFault (List (Option Nat)) :=
  names.mapM fun name =>
    match t.columnPlace? name with
    | some i => .ok (some i)
    | none =>
      if Resolver.rowidNames.contains (foldCase name) && !t.withoutRowid then .ok none
      else .error ⟨.noColumnNamed t.name name, none⟩

/-- Resolves the source of an insert and gives the number of its values. -/
def resolveSource (d : Database) (parameters : Sql.Parameters) :
    Sql.InsertSource → Except LocatedFault (RowSource × Option Nat)
  | .defaults => .ok (.formulas [[]], none)
  | .values rows => do
    let naming : Naming := { parameters }
    let rows ← rows.mapM fun r => r.mapM naming.formula
    match rows with
    | [] => return (.formulas [], none)
    | r :: rest =>
      if rest.all fun q => q.length == r.length then return (.formulas rows, some r.length)
      else throw ⟨.unequalTerms, none⟩
  | .select s => do
    let plan ← SelectPlan.of d parameters s
    return (.select plan (s.source.map Sql.Source.table), some plan.results.length)

def of (d : Database) (parameters : Sql.Parameters) (mode : Sql.Conflict) (table : String)
    (columns : Option (List String)) (source : Sql.InsertSource) :
    Except LocatedFault InsertPlan := do
  let t ← d.tableFor "modified" table (.noTable table)
  let wanted ← match columns with
    | some names => targets t names
    | none => pure ((List.range t.columns.length).map some)
  let (source, count) ← resolveSource d parameters source
  match count with
  | some n =>
    if n ≠ wanted.length then
      throw ⟨if columns.isSome then .listedValueCount n wanted.length
        else .valueCount t.name t.columns.length n, none⟩
  | none => pure ()
  let given := if count.isSome then wanted else []
  return {
    mode, table := t.name, source
    places := (List.range t.columns.length).map fun i => given.findIdx? (· == some i)
    rowidPlace := given.findIdx? (· == none) }

def sourceRows (p : InsertPlan) (d : Database) (s : Scope) : Run (List Cell) :=
  match p.source with
  | .formulas rows => Run.traverse (Formula.evalEach s) rows
  | .select plan table =>
    plan.run s (((table.bind d.readable?).map (plan.visited d)).getD [⟨0, []⟩])

/-- The number that a cell asks for; null leaves it open. -/
def askedId : Cell → Except EngineFault (Option Int)
  | .null => .ok none
  | c =>
    match c.stored .numeric with
    | .integer i => .ok (some i.toInt)
    | _ => .error .mismatch

def draft (p : InsertPlan) (t : Table) (values : List Cell) :
    Except EngineFault Draft := do
  let cells := t.columns.zip p.places |>.map fun (c, place) =>
    match place with
    | some k => (values[k]?.getD .null).stored c.affinity
    | none => ((c.fallback.map Prod.fst).getD .null).stored c.affinity
  let asked ← match p.rowidPlace, t.rowidColumn with
    | some k, _ => askedId (values[k]?.getD .null)
    | none, some i =>
      askedId (((p.places[i]?.join.bind fun k => values[k]?)).getD .null)
    | none, none => pure none
  let id := if t.withoutRowid then some ((t.lastId?.getD 0) + 1) else asked
  return { cells, id, checked := List.range t.columns.length }

def step (p : InsertPlan) (o : Outcome) (values : List Cell) : Except EngineFault Outcome := do
  let some t := o.database.table? p.table | throw (.noTable p.table)
  let (d, id) ← o.database.store t p.mode (← p.draft t values)
  return { o with
    database := d, count := o.count + 1
    lastRowid := if t.withoutRowid then o.lastRowid else some id }

/-- Whether the statement inserts a single row. -/
def single (p : InsertPlan) : Bool :=
  match p.source with
  | .formulas [_] => true
  | _ => false

def run (p : InsertPlan) (d : Database) (s : Scope) : Outcome :=
  let rows := p.sourceRows d s
  let o := Outcome.steps d p.mode p.step { database := d } rows.items
  let o := match o.fault, rows.fault with
    | none, some fault => o.failed d p.mode fault
    | _, _ => o
  if o.fault = some .full && p.single then { o with endsTransaction := true } else o

end InsertPlan

/-! ## Update -/

structure UpdatePlan where
  mode : Sql.Conflict
  table : String
  /-- The columns set, with their values; no column is the row number. -/
  settings : List (Option Nat × Formula)
  condition : Option Formula

namespace UpdatePlan

def of (d : Database) (parameters : Sql.Parameters) (mode : Sql.Conflict) (table : String)
    (settings : List (String × Sql.Scalar)) (condition : Option Sql.Scalar) :
    Except LocatedFault UpdatePlan := do
  let t ← d.tableFor "modified" table (.noTable table)
  let naming : Naming := { table := some t, parameters }
  let settings ← settings.mapM fun (name, value) => do
    let f ← naming.formula value
    match t.columnPlace? name with
    | some i => return (if t.rowidColumn = some i then none else some i, f)
    | none =>
      if Resolver.rowidNames.contains (foldCase name) && !t.withoutRowid then return (none, f)
      else throw ⟨.noUpdateColumn name, none⟩
  return { mode, table := t.name, settings, condition := ← condition.mapM naming.formula }

def draft (p : UpdatePlan) (t : Table) (s : Scope) (r : Row) : Except EngineFault Draft := do
  let scope := SelectPlan.scopeOf s r
  let values ← p.settings.mapM fun (i, f) => do return (i, ← f.eval scope)
  let cells := values.foldl (fun cells (i, v) =>
    match i with
    | some i => cells.set i (v.stored ((t.columns[i]?.map StoredColumn.affinity).getD .blob))
    | none => cells) r.cells
  let id ← values.foldlM (fun id (i, v) =>
    match i with
    | some _ => pure id
    | none =>
      match v.stored .numeric with
      | .integer n => pure n.toInt
      | _ => throw .mismatch) r.id
  return { cells, id := some id, old := some r, checked := p.settings.filterMap Prod.fst }

/-- Updates one row, unless it is gone. -/
def step (p : UpdatePlan) (s : Scope) (o : Outcome) (id : Int) : Except EngineFault Outcome := do
  let some t := o.database.table? p.table | throw (.noTable p.table)
  match t.row? id with
  | none => return o
  | some r =>
    let (d, _) ← o.database.store t p.mode (← p.draft t s r)
    return { o with database := d, count := o.count + 1 }

def run (p : UpdatePlan) (d : Database) (s : Scope) (visited : List Row) : Outcome :=
  match (Run.select (SelectPlan.holds p.condition s) visited).whole with
  | .error fault => { database := d, fault := some fault }
  | .ok rows => Outcome.steps d p.mode (p.step s) { database := d } (rows.map Row.id)

end UpdatePlan

/-! ## Delete -/

structure DeletePlan where
  table : String
  condition : Option Formula

namespace DeletePlan

def of (d : Database) (parameters : Sql.Parameters) (table : String)
    (condition : Option Sql.Scalar) : Except LocatedFault DeletePlan := do
  let t ← d.tableFor "modified" table (.noTable table)
  let naming : Naming := { table := some t, parameters }
  return { table := t.name, condition := ← condition.mapM naming.formula }

def run (p : DeletePlan) (d : Database) (s : Scope) (visited : List Row) : Outcome :=
  match (Run.select (SelectPlan.holds p.condition s) visited).whole, d.table? p.table with
  | .error fault, _ => { database := d, fault := some fault }
  | .ok rows, some t =>
    let gone := rows.map Row.id
    let rest := t.rows.filter fun r => !gone.contains r.id
    { database := d.setTable { t with rows := rest }, count := rows.length }
  | .ok _, none => { database := d, fault := some (.noTable p.table) }

end DeletePlan

end RecordMapper
