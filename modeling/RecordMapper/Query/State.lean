import RecordMapper.Expression.Compile
import RecordMapper.Expression.Diagnostic

/-!
# Queries

What a query over one record type has gathered so far: a condition, orderings, a window and how its
rows are handed out. Steps come in any order; filters join by `and`, orderings append, the last
limit and the last offset win.
-/

namespace RecordMapper

structure SortTerm where
  column : String
  ascending : Bool
  deriving DecidableEq, Repr, Inhabited

structure QueryState where
  predicate : Option Expression := none
  orderings : Option (List SortTerm) := none
  limit : Option Nat := none
  offset : Option Nat := none
  /-- Rows are read as they are asked for. -/
  deferred : Bool := false
  joined : Bool := false

instance : Inhabited QueryState := ⟨{}⟩

/-- A query over the records of a mapping. -/
structure Query where
  mapping : Mapping
  state : QueryState := {}

/-- The steps that build a query. -/
inductive QueryStep
  | filter (predicate : Expression)
  | order (selector : Expression) (ascending : Bool)
  | take (n : Nat)
  | skip (n : Nat)
  | nextTake
  | deferred

namespace QueryState

def maxCount : Nat := twoTo 64 - 1

def filter (q : QueryState) (predicate : Expression) : QueryState :=
  { q with predicate := some <|
      match q.predicate with
      | some existing => .binary .and existing predicate
      | none => predicate }

def take (q : QueryState) (n : Nat) : QueryState := { q with limit := some n }

def skip (q : QueryState) (n : Nat) : QueryState := { q with offset := some n }

/-- Moves the window by its own length; without a limit it stays. -/
def nextTake (q : QueryState) : QueryState :=
  match q.limit with
  | none => q
  | some limit =>
    { q with offset := some <|
        match q.offset with
        | some offset => min (offset + limit) maxCount
        | none => limit }

def order (q : QueryState) (column : String) (ascending : Bool) : QueryState :=
  { q with orderings := some (q.orderings.getD [] ++ [⟨column, ascending⟩]) }

end QueryState

namespace Query

/-- Applies a step; an ordering has to name a column. -/
def step (q : Query) : QueryStep → Except Error Query
  | .filter predicate => .ok { q with state := q.state.filter predicate }
  | .order selector ascending => do
    return { q with state := q.state.order (← q.mapping.orderingColumn selector) ascending }
  | .take n => .ok { q with state := q.state.take n }
  | .skip n => .ok { q with state := q.state.skip n }
  | .nextTake => .ok { q with state := q.state.nextTake }
  | .deferred => .ok { q with state := { q.state with deferred := true } }

/-- The query as one side of a join, which no statement expresses. -/
def join (q : Query) : Query := { q with state := { q.state with joined := true } }

end Query

/-! ## Diagnostics -/

def SortTerm.diagnostic (t : SortTerm) : String :=
  namedParts "Ordering"
    [("column_name", diagnosticText t.column), ("ascending", diagnosticBool t.ascending)]

def QueryState.diagnostic (q : QueryState) : String :=
  namedParts "QueryState"
    [("predicate", diagnosticOption Expression.diagnostic q.predicate),
      ("orderings",
        diagnosticOption (fun ts => listed "[" (ts.map SortTerm.diagnostic) "]") q.orderings),
      ("limit", diagnosticOption toString q.limit),
      ("offset", diagnosticOption toString q.offset),
      ("join", "None"),
      ("deferred", diagnosticBool q.deferred)]

def Query.diagnostic (q : Query) : String :=
  namedParts "TableQuery"
    [("table", diagnosticText q.mapping.table), ("state", q.state.diagnostic)]

end RecordMapper
