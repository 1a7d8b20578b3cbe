import RecordMapper.Query.State
import RecordMapper.Schema.Statement

/-!
# Commands

A command is the text of a statement with the values to bind, each by position or by name. A query
becomes one `select`, or one `delete` when it has a condition and no window.
-/

namespace RecordMapper

/-- A value to bind; the index is known once the command runs. -/
structure Binding where
  name : Option String := none
  value : HostValue
  index : Nat := 0

structure Command where
  text : String
  bindings : List Binding := []

namespace Command

def positional (text : String) (values : List HostValue) : Command :=
  ⟨text, values.map fun v => { value := v }⟩

/-- The command and the values of its bindings, one a line. -/
def display (c : Command) : String :=
  c.text ++ String.join (c.bindings.map fun b =>
    "\n  " ++ toString b.index ++ " = " ++ b.value.diagnostic)

def diagnostic (c : Command) : String :=
  let binding (b : Binding) : String :=
    namedParts "Binding"
      [("name", diagnosticOption diagnosticText b.name), ("value", b.value.diagnostic),
        ("index", toString b.index)]
  namedParts "Command"
    [("text", diagnosticText c.text),
      ("bindings", listed "[" (c.bindings.map binding) "]")]

end Command

namespace SortTerm

def text (t : SortTerm) : String :=
  quoteIdentifier t.column ++ (if t.ascending then "" else " desc")

end SortTerm

namespace QueryState

def orderText (q : QueryState) : String :=
  match q.orderings with
  | some (t :: ts) => " order by " ++ ", ".intercalate ((t :: ts).map SortTerm.text)
  | _ => ""

/-- The window part of a statement. An offset alone keeps all rows after it. -/
def windowText (q : QueryState) : String :=
  match q.limit, q.offset with
  | some limit, some offset => " limit " ++ toString limit ++ " offset " ++ toString offset
  | some limit, none => " limit " ++ toString limit
  | none, some offset => " limit -1 offset " ++ toString offset
  | none, none => ""

end QueryState

namespace Query

def condition (q : Query) : Except Error (String × List HostValue) :=
  match q.state.predicate with
  | none => .ok ("", [])
  | some predicate => do
    let (c, arguments) ← q.mapping.compile predicate []
    return (" where " ++ c.text, arguments)

/-- The statement that selects the given list from the rows of the query. -/
def command (q : Query) (selection : String) : Except Error Command :=
  if q.state.joined then .error (.expression .join)
  else do
    let (condition, arguments) ← q.condition
    return .positional
      ("select " ++ selection ++ " from " ++ quoteIdentifier q.mapping.table ++ condition
        ++ q.state.orderText ++ q.state.windowText) arguments

/-- The statement that deletes the rows of the query. A window or a missing condition is refused. -/
def deleteCommand (q : Query) : Except Error Command :=
  if q.state.limit.isSome || q.state.offset.isSome then .error (.expression .windowedDelete)
  else
    match q.state.predicate with
    | none => .error (.expression .unconditionalDelete)
    | some predicate => do
      let (c, arguments) ← q.mapping.compile predicate []
      return .positional
        ("delete from " ++ quoteIdentifier q.mapping.table ++ " where " ++ c.text) arguments

end Query

end RecordMapper
