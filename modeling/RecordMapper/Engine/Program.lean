import RecordMapper.Engine.Define

/-!
# Prepared statements

A statement with its names resolved against the definitions: what it will do, which columns it
gives, and how much of the database it has to hold while it runs.
-/

namespace RecordMapper

/-- How a statement uses the database. -/
inductive Need
  | nothing
  | reading
  | writing
  deriving DecidableEq, Repr, Inhabited

/-- A statement that moves between states of the transaction. -/
inductive Control
  | begin (mode : Sql.BeginMode)
  | commit
  | rollback
  | savepoint (name : String)
  | release (name : String)
  | rollbackTo (name : String)
  deriving DecidableEq, Repr, Inhabited

inductive Program
  | select (plan : SelectPlan) (table : Option String)
  | values (names : List String) (rows : List (List Formula))
  | insert (plan : InsertPlan)
  | update (plan : UpdatePlan)
  | delete (plan : DeletePlan)
  | define (definition : Definition)
  | tableInfo (name : String)
  | readVersion
  | setVersion (n : Int)
  /-- A setting without effect. -/
  | silent
  | control (c : Control)

namespace Program

def ofPragma (name : String) (argument : Option String) : Program :=
  match foldCase name, argument with
  | "table_info", some table => tableInfo table
  | "user_version", none => readVersion
  | "user_version", some text => setVersion ((readInt? text).getD 0)
  | _, _ => silent

def of (d : Database) (parameters : Sql.Parameters) : Sql.Statement → Except LocatedFault Program
  | .select s => do return select (← SelectPlan.of d parameters s) (s.source.map Sql.Source.table)
  | .values rows => do
    let naming : Naming := { parameters }
    let names := (rows.head?.getD []).zipIdx.map fun (_, i) => "column" ++ toString (i + 1)
    let formulas ← rows.mapM fun r => r.mapM fun (a, _) => naming.formula a
    if formulas.all fun r => r.length == names.length then return values names formulas
    else throw ⟨.unequalTerms, none⟩
  | .insert mode table columns source => do
    return insert (← InsertPlan.of d parameters mode table columns source)
  | .update mode table settings condition => do
    return update (← UpdatePlan.of d parameters mode table settings condition)
  | .delete table condition => do return delete (← DeletePlan.of d parameters table condition)
  | .createTable lenient spec => do return define (← Definition.ofCreateTable d lenient spec)
  | .createIndex unique lenient name table columns text => do
    return define (← Definition.ofCreateIndex d unique lenient name table columns text)
  | .dropTable lenient name => do return define (← Definition.ofDropTable d lenient name)
  | .dropIndex lenient name => do return define (← Definition.ofDropIndex d lenient name)
  | .addColumn table column spelling => do
    return define (← Definition.ofAddColumn d table column spelling)
  | .renameTable table name => do return define (← Definition.ofRenameTable d table name)
  | .pragma name argument => .ok (ofPragma name argument)
  | .begin mode => .ok (control (.begin mode))
  | .commit => .ok (control .commit)
  | .rollback => .ok (control .rollback)
  | .savepoint name => .ok (control (.savepoint name))
  | .release name => .ok (control (.release name))
  | .rollbackTo name => .ok (control (.rollbackTo name))

def names : Program → List String
  | select plan _ => plan.names
  | values names _ => names
  | tableInfo _ => ["cid", "name", "type", "notnull", "dflt_value", "pk"]
  | readVersion => ["user_version"]
  | _ => []

def need : Program → Need
  | select _ (some _) | tableInfo _ | readVersion => .reading
  | select _ none | values .. | silent | control _ => .nothing
  | define definition => if definition.isKeep then .reading else .writing
  | insert _ | update _ | delete _ | setVersion _ => .writing

def columnRows (t : Table) : List (List Cell) :=
  t.columns.zipIdx.map fun (c, i) =>
    [Cell.ofInt i, .text c.name, .text c.type, Cell.ofBool c.notNull,
      (c.fallback.map fun (_, spelling) => Cell.text spelling).getD .null,
      Cell.ofInt (Int.ofNat (((t.key.findIdx? (· == i)).map (· + 1)).getD 0))]

/-- The rows that a statement finds and that change nothing. -/
def rows (d : Database) (s : Scope) : Program → Run (List Cell)
  | select plan table =>
    plan.run s (((table.bind d.readable?).map (plan.visited d)).getD [⟨0, []⟩])
  | values _ rows => Run.traverse (Formula.evalEach s) rows
  | tableInfo name => ⟨((d.readable? name).map columnRows).getD [], none⟩
  | readVersion => ⟨[[Cell.ofInt d.userVersion]], none⟩
  | _ => ⟨[], none⟩

/-- What a statement makes of the database. -/
def change (d : Database) (s : Scope) : Program → Outcome
  | insert plan => plan.run d s
  | update plan => plan.run d s (((d.table? plan.table).map Table.scan).getD [])
  | delete plan => plan.run d s (((d.table? plan.table).map Table.scan).getD [])
  | define definition =>
    match definition.run d with
    | .ok e => { database := e }
    | .error fault => { database := d, fault := some fault }
  | setVersion n => { database := { d with userVersion := n } }
  | _ => { database := d }

def counts : Program → Bool
  | insert _ | update _ | delete _ => true
  | _ => false

/-- Whether the stored pages are written even when no row changes. -/
def writesAlways : Program → Bool
  | delete plan => plan.condition.isNone
  | define definition => !definition.isKeep
  | setVersion _ => true
  | _ => false

end Program

end RecordMapper
