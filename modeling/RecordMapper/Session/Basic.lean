import RecordMapper.Codec
import RecordMapper.Engine.Connection
import RecordMapper.Query.Command
import RecordMapper.ResultRow
import RecordMapper.Schema.Catalog
import RecordMapper.Schema.IndexPlan
import RecordMapper.Schema.InsertCommands

/-!
# Sessions

A connection with the storage that it works on. Every statement is logged just before it is
prepared; what changes before a failure stays changed.

1. `Connection` is what the mapper keeps: settings, the depth of transactions, mappings, and the
   link to the engine while it is open.
2. `Action` is a step that may fail; the state after a failure is still the state.
3. `Session.execute`, `scalar`, `rows` and `records` run one command.
-/

namespace RecordMapper

/-- How a connection is configured. -/
structure Settings where
  path : String := ":memory:"
  /-- Whether timestamps without offset are stored as ticks rather than as text. -/
  ticks : Bool := true
  conventions : Conventions := .silent
  /-- How long a locked database is waited for, in milliseconds. -/
  busyTimeout : Nat := 100
  readOnly : Bool := false
  deriving DecidableEq, Repr, Inhabited

structure Connection where
  settings : Settings
  /-- The connection of the engine, until it is closed. -/
  link : Option Link
  /-- How many transactions are nested. -/
  depth : Nat := 0
  catalog : Catalog := {}
  /-- The record types whose tables were created or migrated. -/
  created : List String := []
  insertCommands : InsertCommands := {}

instance : Inhabited Connection := ⟨{ settings := {}, link := none }⟩

/-- What chance gives, in turn, where something has to be fresh, and how much of it was
given out. -/
structure Supply where
  /-- The numbers in the tokens of savepoints. -/
  nonces : Nat → Nat
  /-- The numbers of which identifiers are made. -/
  seeds : Nat → Nat
  savepoints : Nat := 0
  identifiers : Nat := 0
  deriving Inhabited

structure Session where
  connection : Connection
  storage : Storage := {}
  supply : Supply
  /-- The statements so far, the last one first. -/
  log : List String := []

instance : Inhabited Session := ⟨{ connection := default, supply := default }⟩

/-- A step on a state that may fail. -/
abbrev Action (σ : Type) := ExceptT Error (StateM σ)

/-- A step on a session that may fail. -/
abbrev SessionAction := Action Session

namespace Error

def ofFault (fault : EngineFault) : Error :=
  if fault.code = 1299 then .notNull fault.message none
  else .execution fault.code fault.message

/-- The error of a statement that could not be prepared: the place is told for faults without a code
of their own. -/
def ofLocated (text : String) (f : LocatedFault) : Error :=
  match f.offset with
  | some offset =>
    if f.fault.code = 1 then
      .execution 1 (f.fault.message ++ " in " ++ text ++ " at offset " ++ toString offset)
    else .ofFault f.fault
  | none => .ofFault f.fault

end Error

namespace Action

variable {σ τ α : Type}

/-- The outcome as a step that changes nothing. -/
def ofExcept (x : Except Error α) : Action σ α := fun s => (x, s)

/-- The step on the first of two states. -/
def first (x : Action σ α) : Action (σ × τ) α := fun (s, t) =>
  let (y, s) := x s
  (y, s, t)

/-- The step with its failure as an outcome. -/
def attempt (x : Action σ α) : Action σ (Except Error α) := fun s =>
  let (y, s) := x s
  (.ok y, s)

/-- The step with its error changed. -/
def mapError (f : Error → Error) (x : Action σ α) : Action σ α := fun s =>
  let (y, s) := x s
  (y.mapError f, s)

end Action

namespace Session

/-! ## The connection -/

def depth (s : Session) : Nat := s.connection.depth

def setDepth (depth : Nat) (s : Session) : Session :=
  { s with connection := { s.connection with depth } }

/-- The number of rows that the last statement on rows changed. -/
def changes (s : Session) : Int := (s.connection.link.map Link.changes).getD 0

def lastRowid (s : Session) : Int := (s.connection.link.map Link.lastRowid).getD 0

/-- The session after the engine's part has moved on. -/
def withEngine (s : Session) (e : Engine) : Session :=
  { s with storage := e.storage, connection := { s.connection with link := some e.link } }

def engine : SessionAction Engine := fun s =>
  match s.connection.link with
  | some link => (.ok ⟨s.storage, link⟩, s)
  | none =>
    (.error (.execution 21 ("connection to " ++ s.connection.settings.path ++ " is closed")), s)

/-- The mapping of a record type, built under some conventions if it is not built yet. -/
def mappingWith (conventions : Conventions) (d : Declaration) : SessionAction Mapping := fun s =>
  let (mapping, catalog) := s.connection.catalog.request conventions d
  (mapping, { s with connection := { s.connection with catalog } })

def mapping (d : Declaration) : SessionAction Mapping := do
  mappingWith (← get).connection.settings.conventions d

/-! ## Commands -/

def prepare (text : String) : SessionAction Prepared := do
  modify fun s => { s with log := text :: s.log }
  let e ← engine
  let (prepared, e) := e.prepare text
  modify fun s => s.withEngine e
  .ofExcept (prepared.mapError (Error.ofLocated text))

/-- The index of a binding: a name is looked up, the others count on from `next`. -/
def bindingIndex (p : Prepared) (next : Nat) (b : Binding) : Except Error (Nat × Nat) :=
  match b.name with
  | none => .ok (next, next + 1)
  | some name =>
    match p.parameters.named? name with
    | some index => .ok (index, next)
    | none => .error (.execution 25 ("no parameter named " ++ name))

/-- Binds values in order. The bindings come back with the indices that they got before the first
failure. -/
def bindEach (ticks : Bool) (p : Prepared) (next : Nat) :
    List Binding → Except Error Prepared × List Binding
  | [] => (.ok p, [])
  | b :: rest =>
    match bindingIndex p next b with
    | .error e => (.error e, b :: rest)
    | .ok (index, next) =>
      let b := { b with index }
      match (b.value.toCell ticks).mapError Error.type with
      | .error e => (.error e, b :: rest)
      | .ok cell =>
        match (p.bind index cell).mapError Error.ofFault with
        | .error e => (.error e, b :: rest)
        | .ok p =>
          let (bound, rest) := bindEach ticks p next rest
          (bound, b :: rest)

def ready (c : Command) : SessionAction Prepared := do
  let p ← prepare c.text
  let ticks := (← get).connection.settings.ticks
  .ofExcept (bindEach ticks p 1 c.bindings).1

def step (p : Prepared) : SessionAction (Run (List Cell)) := do
  let (rows, e) := (← engine).run p
  modify fun s => s.withEngine e
  return rows

/-- The first row, or the fault that came before it. -/
def firstRow (rows : Run (List Cell)) : Except Error (Option (List Cell)) :=
  match rows.items, rows.fault with
  | r :: _, _ => .ok (some r)
  | [], some fault => .error (.ofFault fault)
  | [], none => .ok none

/-- Runs a prepared statement for its effect and gives the number of changed rows. -/
def finishExecute (p : Prepared) : SessionAction Int := do
  let _ ← Action.ofExcept (firstRow (← step p))
  return (← get).changes

/-- Runs a prepared statement for the first column of its first row, as a type. -/
def finishScalar (p : Prepared) (type : FieldType) : SessionAction Value := do
  let row ← .ofExcept (firstRow (← step p))
  let value ← match row with
    | none => pure .null
    | some cells => .ofExcept (((cells.head?.getD .null).read type.dataType).mapError Error.type)
  .ofExcept ((type.take value).mapError Error.type)

def cellAt (cells : List Cell) (i : Nat) : Except Error Cell :=
  match cells[i]? with
  | some c => .ok c
  | none => .error (.execution 1 ("Invalid column index: " ++ toString i))

/-- What all rows become, unless the engine or `f` fails on the way. -/
def collect {α : Type} (rows : Run (List Cell)) (f : List Cell → Except Error α) :
    Except Error (List α) := do
  let items ← rows.items.mapM f
  match rows.fault with
  | some fault => throw (.ofFault fault)
  | none => return items

/-- The values of a row by the classes of its cells. -/
def plainRow (names : List String) (cells : List Cell) : Except Error ResultRow := do
  let values ← (List.range names.length).mapM fun i => (cellAt cells i).map Cell.plain
  return ⟨names, values⟩

def finishRows (p : Prepared) : SessionAction (List ResultRow) := do
  .ofExcept (collect (← step p) (plainRow p.names))

/-! ## Records -/

/-- The record of a row: each column that is mapped sets its field, other fields stay blank. -/
def materialize (m : Mapping) (names : List String) (cells : List Cell) : Except Error Record :=
  names.zipIdx.foldlM (fun r (name, i) =>
    match m.resultColumn name with
    | none => .ok r
    | some c => do
      let value ← ((← cellAt cells i).read c.dataType).mapError Error.type
      m.assign c r value) m.record.blank

def finishRecords (m : Mapping) (p : Prepared) : SessionAction (List Record) := do
  .ofExcept (collect (← step p) (materialize m p.names))

/-! ## Whole commands -/

/-- Runs a command to the end that `finish` gives; the bindings come back with their indices. -/
def runBound {α : Type} (c : Command) (finish : Prepared → SessionAction α) :
    StateM Session (Except Error α × List Binding) := do
  match ← (prepare c.text).run with
  | .error e => return (.error e, c.bindings)
  | .ok p =>
    let ticks := (← get).connection.settings.ticks
    match bindEach ticks p 1 c.bindings with
    | (.error e, bindings) => return (.error e, bindings)
    | (.ok p, bindings) => return (← (finish p).run, bindings)

def execute (c : Command) : SessionAction Int := do finishExecute (← ready c)

def executeText (text : String) (values : List Value := []) : SessionAction Int :=
  execute (.positional text (values.map HostValue.scalar))

def scalar (c : Command) (type : FieldType) : SessionAction Value := do
  finishScalar (← ready c) type

def rows (c : Command) : SessionAction (List ResultRow) := do finishRows (← ready c)

def records (d : Declaration) (c : Command) : SessionAction (List Record) := do
  let m ← mapping d
  finishRecords m (← ready c)

end Session

end RecordMapper
