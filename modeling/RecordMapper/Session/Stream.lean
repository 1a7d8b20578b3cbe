import RecordMapper.Session.Querying

/-!
# Streams of records

A stream keeps its statement and runs it anew for each iterator. An iterator hands out records one
by one until its end or the first error, after which it has nothing more. While it is under way its
statement takes part in reading the storage.

1. `Cursor` is where an iterator over a stream stands, and `Stream.next` asks it for the next item.
2. `QueryRows` are the rows of a query, read ahead or as a stream; `QueryRows.next` asks for either.
3. `Session.pull` and `Session.iterate` ask a new iterator for some items.
-/

namespace RecordMapper

/-- A statement whose records are read as they are asked for. -/
structure Stream where
  prepared : Prepared
  mapping : Mapping

/-- Where an iterator over a stream stands. -/
inductive Cursor
  /-- Nothing was asked for. -/
  | fresh
  /-- What the statement still gives; `reading` says whether it takes part in reading. -/
  | running (rest : Run (List Cell)) (reading : Bool)
  /-- The end or an error was met. -/
  | done

namespace Cursor

instance : Inhabited Cursor := ⟨fresh⟩

def isDone : Cursor → Bool
  | done => true
  | _ => false

def isReading : Cursor → Bool
  | running _ reading => reading
  | _ => false

end Cursor

namespace Prepared

/-- The text with the values of its parameters written in their places. -/
def expanded (p : Prepared) : Option String :=
  if p.statement.isNone then none
  else
    let statement := Sql.firstStatement p.text
    let lexemes := statement.filter fun l => p.parameters.indexAt l.offset != 0
    let bytes := p.text.toUTF8
    let piece (start stop : Nat) : String :=
      (String.fromUTF8? (bytes.extract start stop)).getD ""
    let write (done : String × Nat) (l : Sql.Lexeme) : String × Nat :=
      let value := (p.bindings[p.parameters.indexAt l.offset - 1]?.getD .null).literal
      (done.1 ++ piece done.2 l.offset ++ value, l.offset + l.spelling.utf8ByteSize)
    let stop := match statement.getLast? with
      | some l => if Sql.Parser.isSymbol ";" l then l.offset + 1 else p.text.utf8ByteSize
      | none => p.text.utf8ByteSize
    let (text, rest) := lexemes.foldl write ("", 0)
    some (text ++ piece rest stop)

end Prepared

namespace Stream

def diagnostic (s : Stream) : String :=
  namedParts "DeferredQuery"
    [("table", diagnosticText s.mapping.table),
      ("sql", diagnosticOption diagnosticText s.prepared.expanded)]

end Stream

/-- The rows of a query: read ahead, or a stream where the query says so. -/
inductive QueryRows
  | ahead (records : List Record)
  | stream (s : Stream)

/-- What some calls of an iterator gave. -/
structure Pass where
  items : List (Except Error Record)
  /-- Whether the iterator was asked for more than there was. -/
  ended : Bool
  cursor : Cursor

instance : Inhabited Pass := ⟨⟨[], false, .fresh⟩⟩

namespace Pass

def finished (p : Pass) : Bool := p.cursor.isDone

/-- Asks an iterator for `n` items, or until there is none. -/
def gather {ι σ : Type} (next : ι → StateM σ (Option (Except Error Record) × ι)) :
    Nat → ι → StateM σ (List (Except Error Record) × Bool × ι)
  | 0, i => return ([], false, i)
  | n + 1, i => do
    match ← next i with
    | (none, i) => return ([], true, i)
    | (some item, i) =>
      let (items, ended, i) ← gather next n i
      return (item :: items, ended, i)

end Pass

namespace Session

def openStream (d : Declaration) (c : Command) : SessionAction Stream := do
  let mapping ← mapping d
  return { prepared := ← ready c, mapping }

/-- Ends the part of an iterator in reading. -/
def leaveCursor (cursor : Cursor) : StateM Session Unit := fun s =>
  match cursor.isReading, s.connection.link with
  | true, some link => ((), s.withEngine (Engine.finish ⟨s.storage, link⟩))
  | _, _ => ((), s)

end Session

namespace Stream

/-- The next item of what a statement gives: the record of a row, or an error that ends the
iterator. -/
def advance (stream : Stream) (rows : Run (List Cell)) (reading : Bool) :
    StateM Session (Option (Except Error Record) × Cursor) := do
  match rows.items with
  | [] =>
    Session.leaveCursor (.running rows reading)
    return (rows.fault.map fun fault => .error (.ofFault fault), .done)
  | cells :: rest =>
    match Session.materialize stream.mapping stream.prepared.names cells with
    | .ok r => return (some (.ok r), .running { rows with items := rest } reading)
    | .error e =>
      Session.leaveCursor (.running rows reading)
      return (some (.error e), .done)

/-- Asks for the next item; the first time the statement is started. -/
def next (stream : Stream) : Cursor → StateM Session (Option (Except Error Record) × Cursor)
  | .fresh => fun s =>
    match s.connection.link with
    | none => ((none, .fresh), s)
    | some link =>
      let (rows, reading, e) := Engine.start ⟨s.storage, link⟩ stream.prepared
      stream.advance rows reading (s.withEngine e)
  | .running rest reading => stream.advance rest reading
  | .done => return (none, .done)

end Stream

/-- Asks an iterator over the rows of a query for the next item. Rows read ahead are handed out once
over all iterators. -/
def QueryRows.next : QueryRows × Cursor →
    StateM Session (Option (Except Error Record) × QueryRows × Cursor)
  | (.ahead [], cursor) => return (none, .ahead [], cursor)
  | (.ahead (r :: rest), cursor) => return (some (.ok r), .ahead rest, cursor)
  | (.stream s, cursor) => do
    let (item, cursor) ← s.next cursor
    return (item, .stream s, cursor)

namespace Session

/-- Asks a new iterator over a stream for at most `n` items. -/
def pull (stream : Stream) (n : Nat) : StateM Session Pass := do
  let (items, ended, cursor) ← Pass.gather stream.next n .fresh
  return { items, ended, cursor }

/-- Drops the iterator of a pass. -/
def leave (pass : Pass) : StateM Session Unit := leaveCursor pass.cursor

def queryRows (q : Query) : SessionAction QueryRows := do
  let c ← .ofExcept (q.command "*")
  if q.state.deferred then return .stream (← openStream q.mapping.record c)
  else return .ahead (← records q.mapping.record c)

/-- Asks a new iterator over the rows of a query for at most `n` items, and drops it. -/
def iterate (rows : QueryRows) (n : Nat) : StateM Session (Pass × QueryRows) := do
  let (items, ended, rows, cursor) ← Pass.gather QueryRows.next n (rows, .fresh)
  let pass : Pass := { items, ended, cursor }
  leave pass
  return (pass, rows)

end Session

end RecordMapper
