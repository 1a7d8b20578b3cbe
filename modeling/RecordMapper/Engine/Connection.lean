import RecordMapper.Engine.Program

/-!
# Connections to a database

Several links may be open to one storage. Each holds a lock on it: readers share, one link at a time
may reserve the right to write, and what it has written becomes the content only when no other link
holds any lock. A refused commit leaves the transaction open and keeps new readers out.

1. `Storage` is the content with the locks, `Link` is one connection's own state.
2. `Engine` is a link with its storage; `Engine.prepare` and `Engine.run` work on it.
-/

namespace RecordMapper

inductive Lock
  | none
  | shared
  | reserved
  | pending
  | exclusive
  deriving DecidableEq, Repr, Inhabited

namespace Lock

def level : Lock → Nat
  | none => 0
  | shared => 1
  | reserved => 2
  | pending => 3
  | exclusive => 4

end Lock

/-- A database that links share, with their locks. -/
structure Storage where
  content : Database := {}
  locks : List (Nat × Lock) := []

instance : Inhabited Storage := ⟨{}⟩

namespace Storage

def lockOf (s : Storage) (id : Nat) : Lock :=
  ((s.locks.find? fun (i, _) => i == id).map Prod.snd).getD .none

def setLock (s : Storage) (id : Nat) (lock : Lock) : Storage :=
  let others := s.locks.filter fun (i, _) => i != id
  { s with locks := if lock = .none then others else (id, lock) :: others }

/-- Whether all other links hold less than a lock. -/
def othersBelow (s : Storage) (id : Nat) (lock : Lock) : Bool :=
  s.locks.all fun (i, l) => i == id || decide (l.level < lock.level)

end Storage

/-- A name to which the changes that follow can be undone. -/
structure Savepoint where
  name : String
  /-- The changed content at that time, if there was any. -/
  content : Option Database

/-- How the open transaction was opened. -/
inductive Opening
  | statement
  | savepoint
  deriving DecidableEq, Repr, Inhabited

/-- The state of one connection. -/
structure Link where
  id : Nat
  readOnly : Bool := false
  /-- The definitions as they were last read. -/
  known : Option Database := none
  opening : Option Opening := none
  /-- The newest first. -/
  savepoints : List Savepoint := []
  /-- The content with the changes that are not committed. -/
  working : Option Database := none
  /-- Whether the working content has been written to. -/
  dirty : Bool := false
  /-- How many statements are still giving rows. -/
  readers : Nat := 0
  changes : Int := 0
  totalChanges : Int := 0
  lastRowid : Int := 0

instance : Inhabited Link := ⟨{ id := 0 }⟩

/-- A link together with its storage. -/
structure Engine where
  storage : Storage
  link : Link

instance : Inhabited Engine := ⟨⟨{}, { id := 0 }⟩⟩

/-- A statement that was read and resolved once. -/
structure Prepared where
  text : String
  statement : Option Sql.Statement
  parameters : Sql.Parameters
  /-- The names of the result columns, as they were when the statement was prepared. -/
  names : List String
  bindings : List Cell := []

instance : Inhabited Prepared := ⟨⟨"", none, {}, [], []⟩⟩

namespace Prepared

/-- Gives a parameter its value; parameters are counted from one. -/
def bind (p : Prepared) (index : Nat) (c : Cell) : Except EngineFault Prepared :=
  if p.statement.isNone then .error .noStatement
  else if index = 0 ∨ p.parameters.count < index then .error .bindingRange
  else
    let missing := List.replicate (index - p.bindings.length) .null
    .ok { p with bindings := (p.bindings ++ missing).set (index - 1) c.bound }

end Prepared

namespace EngineFault

/-- Whether newer definitions might remove the fault. -/
def asksDefinitions : EngineFault → Bool
  | noTable _ | noColumn _ | noColumnNamed .. | noUpdateColumn _ | noIndex _ => true
  | _ => false

end EngineFault

namespace Engine

variable (e : Engine)

def content : Database := e.link.working.getD e.storage.content

def lock : Lock := e.storage.lockOf e.link.id

def withLock (lock : Lock) : Engine := { e with storage := e.storage.setLock e.link.id lock }

def inTransaction : Bool := e.link.opening.isSome

/-- Gives up the lock that is no longer needed. -/
def settled : Engine :=
  if e.inTransaction then e
  else e.withLock (if 0 < e.link.readers then .shared else .none)

/-! ## Locks -/

def acquireRead : Except EngineFault Engine :=
  if Lock.shared.level ≤ e.lock.level then .ok e
  else if e.storage.othersBelow e.link.id .pending then .ok (e.withLock .shared)
  else .error .busy

def acquireWrite : Except EngineFault Engine :=
  if e.link.readOnly then .error .readOnly
  else if Lock.reserved.level ≤ e.lock.level then .ok e
  else
    match e.acquireRead with
    | .error fault => .error fault
    | .ok r =>
      if r.storage.othersBelow e.link.id .reserved then
        .ok { r.withLock .reserved with link := { r.link with working := some r.content } }
      else .error .busy

def acquireExclusive : Except EngineFault Engine :=
  match e.acquireWrite with
  | .error fault => .error fault
  | .ok w =>
    if w.storage.othersBelow e.link.id .shared then .ok (w.withLock .exclusive) else .error .busy

def acquire : Need → Except EngineFault Engine
  | .nothing => .ok e
  | .reading => e.acquireRead
  | .writing => e.acquireWrite

/-! ## Ends of a transaction -/

/-- Drops all changes that are not committed. -/
def rolledBack : Engine :=
  let redefined := e.content.version ≠ e.storage.content.version
  let known := if redefined then none else e.link.known
  settled { e with link := { e.link with
    known, opening := none, savepoints := [], working := none, dirty := false } }

/-- Makes the changes the content of the storage, if no other link is reading. -/
def committed : Option EngineFault × Engine :=
  if e.link.dirty && !e.storage.othersBelow e.link.id .shared then
    (some .busy, e.withLock .pending)
  else
    let storage := { e.storage with content := e.content }
    (none, settled { e with storage, link := { e.link with
      opening := none, savepoints := [], working := none, dirty := false } })

/-! ## Transactions -/

/-- The newest savepoint of a name and the older ones. -/
def savepointsFrom (name : String) : List Savepoint :=
  e.link.savepoints.dropWhile fun s => !sameFolded s.name name

def control : Control → Option EngineFault × Engine
  | .begin mode =>
    let ready : Except EngineFault Engine :=
      match mode with
      | .deferred => .ok e
      | .immediate => if e.link.readOnly then e.acquireRead else e.acquireWrite
      | .exclusive => if e.link.readOnly then e.acquireRead else e.acquireExclusive
    match ready with
    | .error fault => (some fault, e)
    | .ok r =>
      if e.inTransaction then (some .alreadyInTransaction, r)
      else (none, { r with link := { r.link with opening := some .statement } })
  | .commit => if e.inTransaction then e.committed else (some (.noTransaction "commit"), e)
  | .rollback =>
    if e.inTransaction then (none, e.rolledBack) else (some (.noTransaction "rollback"), e)
  | .savepoint name =>
    (none, { e with link := { e.link with
      opening := e.link.opening.or (some .savepoint)
      savepoints := ⟨name, e.link.working⟩ :: e.link.savepoints } })
  | .release name =>
    match e.savepointsFrom name with
    | [] => (some (.noSavepoint name), e)
    | [_] =>
      if e.link.opening = some .savepoint then e.committed
      else (none, { e with link := { e.link with savepoints := [] } })
    | _ :: older => (none, { e with link := { e.link with savepoints := older } })
  | .rollbackTo name =>
    match e.savepointsFrom name with
    | [] => (some (.noSavepoint name), e)
    | s :: older =>
      let restored := s.content.getD e.storage.content
      let known := if restored.version ≠ e.content.version then none else e.link.known
      (none, { e with link := { e.link with
        known, savepoints := s :: older, working := e.link.working.map fun _ => restored } })

/-! ## Preparing -/

def readsDefinitions : Sql.Statement → Bool
  | .select s => s.source.isSome
  | .values _ | .begin _ | .commit | .rollback | .savepoint _ | .release _ | .rollbackTo _ => false
  | .pragma name _ => foldCase name == "table_info"
  | _ => true

/-- The engine with the definitions as they are now. -/
def refreshed : Except EngineFault Engine := do
  let _ ← e.acquireRead
  return { e with link := { e.link with known := some e.content } }

def resolve (parameters : Sql.Parameters) (statement : Sql.Statement) :
    Except LocatedFault Program :=
  Program.of (e.link.known.getD {}) parameters statement

/-- The engine in which a statement is resolved: definitions are read where none are known. -/
def informed (statement : Sql.Statement) : Except EngineFault Engine :=
  if readsDefinitions statement && e.link.known.isNone then e.refreshed else .ok e

def prepare (text : String) : Except LocatedFault Prepared × Engine :=
  match Sql.readStatement text with
  | .error fault => (.error (.ofSyntax fault), e)
  | .ok (none, parameters) => (.ok { text, statement := none, parameters, names := [] }, e)
  | .ok (some statement, parameters) =>
    match e.informed statement with
    | .error fault => (.error ⟨fault, none⟩, e)
    | .ok r =>
      let made (p : Program) : Prepared :=
        { text, statement := some statement, parameters, names := p.names }
      match r.resolve parameters statement with
      | .ok p => (.ok (made p), r)
      | .error fault =>
        match r.refreshed with
        | .error _ => (.error fault, r)
        | .ok q =>
          if fault.fault.asksDefinitions then ((q.resolve parameters statement).map made, q)
          else (.error fault, r)

/-! ## Running -/

/-- What a formula of a statement is evaluated in. -/
def scope (p : Prepared) : Scope :=
  { parameters := p.bindings, changes := e.link.changes, totalChanges := e.link.totalChanges
    lastRowid := e.link.lastRowid }

/-- The engine in which a statement that was prepared before is resolved again: definitions are read
where none are known, and where those that are known do not have what the statement names. -/
def renewed (parameters : Sql.Parameters) (statement : Sql.Statement) :
    Except EngineFault Engine := do
  let r ← e.informed statement
  match r.resolve parameters statement with
  | .ok _ => return r
  | .error fault => if fault.fault.asksDefinitions then r.refreshed else return r

/-- Takes the locks that a statement needs; a statement that was resolved against older definitions
starts anew. Locks that a transaction has taken stay with it. -/
def engage (p : Prepared) (statement : Sql.Statement) : Except EngineFault (Program × Engine) := do
  let located {α : Type} (x : Except LocatedFault α) : Except EngineFault α :=
    x.mapError LocatedFault.fault
  let program ← located (e.resolve p.parameters statement)
  let r ← e.acquire program.need
  if program.need = .nothing then return (program, r)
  if r.link.known.any fun k => k.version == r.content.version then return (program, r)
  let r := if e.inTransaction then r else e
  let r := { r with link := { r.link with known := some r.content } }
  let program ← located (r.resolve p.parameters statement)
  return (program, ← r.acquire program.need)

/-- Resolves a prepared statement in the definitions that there are, and takes its locks. -/
def enter (p : Prepared) (statement : Sql.Statement) : Except EngineFault (Program × Engine) := do
  (← e.renewed p.parameters statement).engage p statement

/-- The counters after a statement on rows. -/
def counted (o : Outcome) : Engine :=
  { e with link := { e.link with
      changes := o.count, totalChanges := e.link.totalChanges + o.count
      lastRowid := o.lastRowid.getD e.link.lastRowid } }

/-- The engine after a change, which is committed at once outside a transaction. -/
def changed (program : Program) (o : Outcome) : Option EngineFault × Engine :=
  let dirty := e.link.dirty || 0 < o.count || (o.fault.isNone && program.writesAlways)
  let known := match program with
    | .define _ => some o.database
    | _ => e.link.known
  let r := { e with link := { e.link with working := some o.database, dirty, known } }
  let r := if program.counts then r.counted o else r
  match o.fault with
  | some fault =>
    let r := { r with link := { r.link with known := e.link.known } }
    if o.endsTransaction then (some fault, r.rolledBack)
    else if e.inTransaction then (some fault, r)
    else (some fault, if o.stands then r.committed.2.rolledBack else r.rolledBack)
  | none =>
    if e.inTransaction then (none, r)
    else
      match r.committed with
      | (none, r) => (none, r)
      | (some fault, r) =>
        let r := if program.counts then { r with link := { r.link with changes := 0 } } else r
        (some fault, r.rolledBack)

/-- The engine after a statement on rows that could not start. -/
def refused (statement : Sql.Statement) : Engine :=
  match statement with
  | .insert .. | .update .. | .delete .. => { e with link := { e.link with changes := 0 } }
  | _ => e

def run (p : Prepared) : Run (List Cell) × Engine :=
  match p.statement with
  | none => (⟨[], some .noStatement⟩, e)
  | some statement =>
    match e.enter p statement with
    | .error fault => (⟨[], some fault⟩, e.refused statement)
    | .ok (.control c, r) =>
      let (fault, r) := r.control c
      (⟨[], fault⟩, r)
    | .ok (program, r) =>
      if program.need = .writing then
        match program with
        | .define (.dropTable _) =>
          if 0 < r.link.readers then
            (⟨[], some .tableLocked⟩, if r.inTransaction then r else r.rolledBack)
          else
            let (fault, r) := r.changed program (program.change r.content (r.scope p))
            (⟨[], fault⟩, r)
        | program =>
          let (fault, r) := r.changed program (program.change r.content (r.scope p))
          (⟨[], fault⟩, r)
      else (program.rows r.content (r.scope p), r.settled)

/-- Runs a statement and keeps its part in reading until `finish`. -/
def start (p : Prepared) : Run (List Cell) × Bool × Engine :=
  match p.statement with
  | none => (⟨[], some .noStatement⟩, false, e)
  | some statement =>
    match e.enter p statement with
    | .ok (program, r) =>
      if program.need = .reading then
        let rows := program.rows r.content (r.scope p)
        (rows, true, { r with link := { r.link with readers := r.link.readers + 1 } })
      else
        let (rows, r) := e.run p
        (rows, false, r)
    | .error fault => (⟨[], some fault⟩, false, e.refused statement)

def finish : Engine :=
  let r := { e with link := { e.link with readers := e.link.readers - 1 } }
  r.settled

def closed : Storage :=
  let r := rolledBack { e with link := { e.link with readers := 0 } }
  r.storage.setLock e.link.id .none

end Engine

end RecordMapper
