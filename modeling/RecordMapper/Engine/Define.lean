import RecordMapper.Engine.Change

/-!
# Defining tables and indices

A statement that changes the definitions is checked when it is prepared, and what is left to check
depends on the rows. Names of tables and indices share one space, in which the case of ASCII letters
does not count.
-/

namespace RecordMapper

/-- A change of the definitions. -/
inductive Definition
  /-- There is nothing to do. -/
  | keep
  | createTable (t : Table) (indices : List Index) (text : Sql.DefinitionText)
  | createIndex (ix : Index) (text : Sql.DefinitionText)
  | dropTable (name : String)
  | dropIndex (name : String)
  | addColumn (table : String) (column : StoredColumn) (spelling : String)
  | renameTable (table name : String)

namespace Definition

abbrev Checked := Except LocatedFault

def refuse {α : Type} (fault : EngineFault) : Checked α := .error ⟨fault, none⟩

/-- Whether a name belongs to the engine itself. -/
def isReserved (name : String) : Bool :=
  "sqlite_".toList.isPrefixOf (foldCase name).toList

/-! ## Columns -/

/-- The columns of a key or an index, with the collations that are stated. -/
def terms (columns : List StoredColumn) (wanted : List Sql.IndexedColumn)
    (other : Sql.IndexedColumn → Checked IndexTerm) : Checked (List IndexTerm) :=
  wanted.mapM fun w => do
    match columns.findIdx? fun c => sameFolded c.name w.name with
    | none => other w
    | some i =>
      let own := (columns[i]?.map StoredColumn.collation).getD .binary
      match w.collation with
      | none => return ⟨some i, own⟩
      | some name =>
        match Collation.named? name with
        | some c => return ⟨some i, c⟩
        | none => refuse (.noCollation name)

/-- The value that stands in for a missing one. -/
def fallback (column : String) (value : Sql.Scalar) (spelling : String) :
    Checked (Cell × String) :=
  let value := match value with
    | .column none name _ _ => .literal (.text name)
    | v => v
  match (Naming.formula {} value).toOption.bind fun f => (f.eval {}).toOption with
  | some c => .ok (c, spelling)
  | none => refuse (.stated 1 ("default value of column [" ++ column ++ "] is not constant"))

/-- The types whose spelling is not kept. -/
def standardTypes : List String := ["ANY", "BLOB", "INT", "INTEGER", "REAL", "TEXT"]

/-- A declared type as a table describes it. -/
def describedType (type : String) : String :=
  (standardTypes.find? fun s => sameFolded s type).getD type

/-- A table while its constraints are read. -/
structure Draft where
  table : Table
  /-- Whether a primary key was stated. -/
  keyed : Bool := false
  indices : List Index := []

/-- The draft with an index that a constraint calls for; one with the same terms serves both. -/
def Draft.addIndex (d : Draft) (terms : List IndexTerm) (origin : IndexOrigin) : Draft :=
  if d.indices.any fun ix => ix.terms == terms then
    { d with indices := d.indices.map fun ix =>
        if ix.terms == terms && origin == .primaryKey then { ix with origin } else ix }
  else
    let name := Listing.automatic ++ d.table.name ++ "_" ++ toString (d.indices.length + 1)
    { d with indices := ⟨name, d.table.name, true, terms, origin⟩ :: d.indices }

def isIntegerType (t : Table) (i : Nat) : Bool :=
  t.columns[i]?.any fun c => sameFolded c.type "integer"

def Draft.addKey (d : Draft) (terms : List IndexTerm) (descending autoIncrement : Bool) :
    Checked Draft :=
  if d.keyed then refuse (.manyKeys d.table.name)
  else
    let key := terms.filterMap IndexTerm.column
    let d := { d with keyed := true, table := { d.table with key } }
    match key with
    | [i] =>
      if isIntegerType d.table i && !descending then
        .ok { d with table := { d.table with rowidColumn := some i, autoIncrement } }
      else if autoIncrement then refuse .autoIncrementType
      else .ok (d.addIndex terms .primaryKey)
    | _ => .ok (d.addIndex terms .primaryKey)

def Draft.setColumn (d : Draft) (f : StoredColumn → StoredColumn) : Draft :=
  let last := d.table.columns.length - 1
  { d with table := { d.table with columns := d.table.columns.modify last f } }

def Draft.constrain (d : Draft) (column : String) : Sql.ColumnConstraint → Checked Draft
  | .primaryKey descending autoIncrement =>
    let last := d.table.columns.length - 1
    let collation := (d.table.columns[last]?.map StoredColumn.collation).getD .binary
    d.addKey [⟨some last, collation⟩] descending autoIncrement
  | .notNull => .ok (d.setColumn fun c => { c with notNull := true })
  | .nullable => .ok d
  | .unique =>
    let last := d.table.columns.length - 1
    let collation := (d.table.columns[last]?.map StoredColumn.collation).getD .binary
    .ok (d.addIndex [⟨some last, collation⟩] .unique)
  | .default value spelling => do
    let v ← fallback column value spelling
    return d.setColumn fun c => { c with fallback := some v }
  | .collate name =>
    match Collation.named? name with
    | some collation =>
      let last := d.table.columns.length - 1
      let indices := d.indices.map fun ix =>
        { ix with terms := ix.terms.map fun term =>
            if term.column = some last then { term with collation } else term }
      .ok { d.setColumn (fun c => { c with collation }) with indices }
    | none => refuse (.noCollation name)
  | .check condition label => do
    let f ← Naming.formula { table := some d.table } condition
    return { d with table := { d.table with checks := d.table.checks ++ [(f, label)] } }

def Draft.addColumn (d : Draft) (c : Sql.ColumnSpec) : Checked Draft :=
  if (d.table.columnPlace? c.name).isSome then refuse (.duplicateColumn c.name)
  else
    let column : StoredColumn :=
      ⟨c.name, describedType c.type, Affinity.ofType c.type, false, .binary, none⟩
    let d := { d with table := { d.table with columns := d.table.columns ++ [column] } }
    c.constraints.foldlM (fun d k => d.constrain c.name k) d

def Draft.constrainTable (d : Draft) : Sql.TableConstraint → Checked Draft
  | .primaryKey columns => do d.addKey (← ownTerms d columns) false false
  | .unique columns => do return d.addIndex (← ownTerms d columns) .unique
  | .check condition label => do
    let f ← Naming.formula { table := some d.table } condition
    return { d with table := { d.table with checks := d.table.checks ++ [(f, label)] } }
where
  ownTerms (d : Draft) (columns : List Sql.IndexedColumn) : Checked (List IndexTerm) :=
    terms d.table.columns columns fun w =>
      if w.quoted then
        refuse (.stated 1 "expressions prohibited in PRIMARY KEY and UNIQUE constraints")
      else .error ⟨.noColumn w.name, some w.offset⟩

/-- A table without row numbers: its key is an index, and no key column may be null. -/
def Draft.withoutRowid (d : Draft) : Checked Draft :=
  let t := d.table
  if t.autoIncrement then refuse .autoIncrementWithoutRowid
  else if !d.keyed then refuse (.keyMissing t.name)
  else
    let columns := t.columns.zipIdx.map fun (c, i) =>
      if t.key.contains i then { c with notNull := true } else c
    let table := { t with columns, withoutRowid := true, rowidColumn := none }
    let d := { d with table }
    match t.rowidColumn with
    | some i =>
      let collation := (columns[i]?.map StoredColumn.collation).getD .binary
      .ok (d.addIndex [⟨some i, collation⟩] .primaryKey)
    | none => .ok d

/-! ## Statements -/

def ofCreateTable (d : Database) (ifNotExists : Bool) (spec : Sql.TableSpec) :
    Checked Definition := do
  if isReserved spec.name then refuse (.reservedName spec.name)
  if (d.table? spec.name).isSome then
    if ifNotExists then return keep
    else throw ⟨.tableExists spec.text.table, some spec.offset⟩
  if (d.index? spec.name).isSome then refuse (.nameOfIndex spec.name)
  let empty : Draft := { table := { (default : Table) with name := spec.name } }
  let draft ← spec.columns.foldlM Draft.addColumn empty
  let draft ← spec.constraints.foldlM Draft.constrainTable draft
  let draft ← if spec.withoutRowid then draft.withoutRowid else pure draft
  return createTable draft.table draft.indices spec.text

def ofCreateIndex (d : Database) (unique ifNotExists : Bool) (name table : String)
    (columns : List Sql.IndexedColumn) (text : Sql.DefinitionText) : Checked Definition := do
  let t ← d.tableFor "indexed" table (.noTable ("main." ++ table))
  if isReserved name then refuse (.reservedName name)
  if (d.table? name).isSome then refuse (.nameOfTable name)
  if (d.index? name).isSome then
    if ifNotExists then return keep else refuse (.indexExists name)
  let terms ← terms t.columns columns fun w =>
    if w.quoted then pure ⟨none, .binary⟩ else .error ⟨.noColumn w.name, some w.offset⟩
  return createIndex ⟨name, t.name, unique, terms, .created⟩ text

def ofDropTable (d : Database) (ifExists : Bool) (name : String) : Checked Definition :=
  match d.readable? name with
  | some _ => do return dropTable (← d.tableFor "dropped" name (.noTable name)).name
  | none => if ifExists then .ok keep else refuse (.noTable name)

def ofDropIndex (d : Database) (ifExists : Bool) (name : String) : Checked Definition :=
  match d.index? name with
  | some ix =>
    if ix.origin = .created then .ok (dropIndex ix.name)
    else refuse (.stated 1
      "index associated with UNIQUE or PRIMARY KEY constraint cannot be dropped")
  | none => if ifExists then .ok keep else refuse (.noIndex name)

def ofAddColumn (d : Database) (table : String) (c : Sql.ColumnSpec) (spelling : String) :
    Checked Definition := do
  let t ← d.tableFor "altered" table (.noTable table)
  let start : Draft := { table := { t with rowidColumn := none, key := [], checks := [] } }
  let draft ← start.addColumn c
  if draft.keyed then refuse .addKey
  if !draft.indices.isEmpty then refuse .addUnique
  match draft.table.columns.getLast? with
  | some column => return addColumn t.name column spelling
  | none => return keep

def ofRenameTable (d : Database) (table name : String) : Checked Definition := do
  if (d.readable? table).isNone then refuse (.noTable table)
  if (d.readable? name).isSome || (d.index? name).isSome then
    refuse (.stated 1 ("there is already another table or index with this name: " ++ name))
  let t ← d.tableFor "altered" table (.noTable table)
  if isReserved name then refuse (.reservedName name)
  return renameTable t.name name

/-! ## Running -/

def hasClash (ix : Index) : List Row → Bool
  | [] => false
  | r :: rest => rest.any (fun o => ix.clash r.cells o.cells) || hasClash ix rest

def isKeep : Definition → Bool
  | keep => true
  | _ => false

/-- The list of definitions with a new table, the indices that its constraints call for, and the
counters, where it is the first table that counts. A table without row numbers is its own index. -/
def listTable (l : Listing) (t : Table) (indices : List Index) (text : Sql.DefinitionText) :
    Listing :=
  let listed := indices.filter fun ix => !(t.withoutRowid && ix.origin == .primaryKey)
  let l := listed.foldr (fun ix l => l.addIndex ix.name t.name none) (l.addTable t.name text)
  if t.autoIncrement then l.addCounters else l

def renameIndex (ix : Index) (name : String) : Index :=
  let own := if ix.origin = .created then ix.name else Listing.renamedIndex ix.name ix.table name
  { ix with name := own, table := name }

def run (d : Database) : Definition → Except EngineFault Database
  | keep => .ok d
  | createTable t indices text =>
    .ok { d.redefined with
      tables := d.tables ++ [t], indices := indices ++ d.indices
      listing := listTable d.listing t indices text }
  | createIndex ix text =>
    match d.table? ix.table with
    | none => .error (.noTable ix.table)
    | some t =>
      if hasClash ix t.rows then .error (ix.violation t)
      else .ok { d.redefined with
        indices := ix :: d.indices
        listing := d.listing.addIndex ix.name ix.table (some text) }
  | dropTable name =>
    .ok { d.redefined with
      tables := d.tables.filter fun t => !sameFolded t.name name
      indices := d.indices.filter fun ix => !sameFolded ix.table name
      sequences := d.sequences.filter fun (t, _) => !sameFolded t name
      listing := d.listing.dropTable name }
  | dropIndex name =>
    .ok { d.redefined with
      indices := d.indices.filter fun ix => !sameFolded ix.name name
      listing := d.listing.dropIndex name }
  | addColumn table column spelling =>
    match d.table? table with
    | none => .error (.noTable table)
    | some t =>
      let cell := ((column.fallback.map Prod.fst).getD .null).stored column.affinity
      if column.notNull && cell.isNull && !t.rows.isEmpty then .error .addNotNull
      else
        let rows := t.rows.map fun r => { r with cells := r.cells ++ [cell] }
        let e := d.redefined.setTable { t with columns := t.columns ++ [column], rows }
        .ok { e with listing := d.listing.addColumn table spelling }
  | renameTable table name =>
    .ok { d.redefined with
      tables := d.tables.map fun t => if sameFolded t.name table then { t with name } else t
      indices := d.indices.map fun ix =>
        if sameFolded ix.table table then renameIndex ix name else ix
      sequences := d.sequences.map fun (t, n) =>
        if sameFolded t table then (name, n) else (t, n)
      listing := d.listing.renameTable table name }

end Definition

end RecordMapper
