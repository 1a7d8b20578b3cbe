import RecordMapper.Session.Transaction

/-!
# Storing and finding records

Insert, update, delete and lookup of single records. An insert writes into the record what it gets
there: an identifier made before, or the number that the engine gave.
-/

namespace RecordMapper

/-- A step on a session and a record, or some records, that it may change. -/
abbrev StoringAction (ρ : Type) := Action (Session × ρ)

namespace Session

/-! ## Insert -/

def freshIdentifier : SessionAction Uuid := fun s =>
  (.ok (Uuid.random (s.supply.seeds s.supply.identifiers)),
    { s with supply := { s.supply with identifiers := s.supply.identifiers + 1 } })

/-- Whether a key is still without an identifier. -/
def isUnset : Value → Bool
  | .null => true
  | .uuid u => u == .nil
  | _ => false

/-- Gives a record the identifier that its key lacks. -/
def assignIdentifier (m : Mapping) : StoringAction Record Unit := do
  match m.key?.filter Column.autoIdentifier with
  | none => return
  | some key =>
    let (_, r) ← get
    if isUnset (← .ofExcept (m.valueOf key r)) then
      let u ← freshIdentifier.first
      let r ← .ofExcept (m.assign key r (.uuid u))
      modify fun (s, _) => (s, r)

/-- Writes the number that the engine gave into the key. -/
def writeBackKey (m : Mapping) : StoringAction Record Unit := do
  if m.hasAutoIncrementKey then
    match m.key? with
    | none => return
    | some key =>
      let (s, r) ← get
      let r ← .ofExcept (m.assign key r (.int (Int64.ofInt s.lastRowid)))
      modify fun (s, _) => (s, r)

/-- The command that stores records of a mapping's type, kept since the last insert or made now. -/
def insertCommand (m : Mapping) (mode : InsertMode) : SessionAction InsertCommand := fun s =>
  let (command, insertCommands) := s.connection.insertCommands.request m mode
  (.ok command, { s with connection := { s.connection with insertCommands } })

/-- What an insert is going to execute: a command and the values that it binds. The record gets its
identifier before. -/
def prepareInsert (d : Declaration) (mode : InsertMode) :
    StoringAction Record (Mapping × InsertCommand × List Value) := do
  let m ← (mapping d).first
  assignIdentifier m
  let (_, r) ← get
  let values ← .ofExcept (m.valuesOf (m.boundColumns mode) r)
  return (m, ← (insertCommand m mode).first, values)

/-- Stores a record and gives the number of changed rows. The engine's own store of prepared
statements is left out: it prepares a statement anew when the definitions have changed, so that it
shows in the text of an error only, which then does not quote the statement. -/
def insertWith (d : Declaration) (mode : InsertMode) : StoringAction Record Int := do
  let (m, command, values) ← prepareInsert d mode
  let (_, r) ← get
  let changed ← ((executeText command.text values).mapError (m.attach r)).first
  if 0 < changed then writeBackKey m
  return changed

def insert (d : Declaration) : StoringAction Record Int := insertWith d .plain

/-- Stores records one after the other; the first failure ends it. -/
def insertEach (d : Declaration) : List Record → StoringAction (List Record) Int
  | [] => return 0
  | r :: rest => do
    let (s, done) ← get
    let (outcome, s, r) := insert d (s, r)
    set (s, done ++ r :: rest)
    let changed ← .ofExcept outcome
    set (s, done ++ [r])
    let more ← insertEach d rest
    return changed + more

/-- Stores records, all or none of them where they are in a transaction. -/
def insertAll (d : Declaration) (together : Bool) (records : List Record) :
    StoringAction (List Record) Int := fun (s, _) =>
  let each := insertEach d records
  if together then
    let body : StoringAction (List Record) Int := fun (s, _) => each (s, [])
    host.first.runAction body (s, records)
  else each (s, [])

/-! ## Update -/

def update (d : Declaration) (r : Record) : SessionAction Int := do
  let m ← mapping d
  match m.key? with
  | none => throw (.schema (.updateWithoutKey m.table))
  | some key =>
    let values ← .ofExcept (m.valuesOf (m.updateColumns ++ [key]) r)
    (executeText (m.updateStatement key) values).mapError (m.attach r)

def updateEach (d : Declaration) : List Record → SessionAction Int
  | [] => return 0
  | r :: rest => do
    let changed ← update d r
    let more ← updateEach d rest
    return changed + more

/-- Updates records, all or none of them where they are in a transaction. -/
def updateAll (d : Declaration) (together : Bool) (records : List Record) : SessionAction Int :=
  if together then host.runAction (updateEach d records) else updateEach d records

/-! ## Delete -/

def keyed (d : Declaration) : SessionAction (Mapping × Column) := do
  let m ← mapping d
  match m.key? with
  | some key => return (m, key)
  | none => throw (.schema (.deleteWithoutKey m.table))

def delete (d : Declaration) (r : Record) : SessionAction Int := do
  let (m, key) ← keyed d
  let value ← .ofExcept (m.valueOf key r)
  executeText (m.deleteStatement key) [value]

def deleteByKey (d : Declaration) (key : Value) : SessionAction Int := do
  let (m, column) ← keyed d
  executeText (m.deleteStatement column) [key]

def deleteAll (d : Declaration) : SessionAction Int := do
  let m ← mapping d
  executeText m.deleteAllStatement

/-! ## Lookup -/

/-- The record of a key; in a table without key it is any record. -/
def find (d : Declaration) (key : Value) : SessionAction (Option Record) := do
  let m ← mapping d
  let keys := if m.key?.isSome then [HostValue.scalar key] else []
  return (← records d (.positional m.findStatement keys)).head?

def get (d : Declaration) (key : Value) : SessionAction Record := do
  match ← find d key with
  | some r => return r
  | none => throw (.lookup (.noRow (← mapping d).table key.display))

end Session

end RecordMapper
