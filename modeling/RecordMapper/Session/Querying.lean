import RecordMapper.Session.Basic

/-!
# Running queries

What can be asked of a query: its records, their number, single records, or the removal of its rows.
-/

namespace RecordMapper

namespace Session

def table (d : Declaration) : SessionAction Query := do return { mapping := ← mapping d }

def toList (q : Query) : SessionAction (List Record) := do
  records q.mapping.record (← .ofExcept (q.command "*"))

def countType : FieldType := ⟨.plain .int64, false⟩

/-- The number that the query counts; the window is cut from that one number. -/
def count (q : Query) : SessionAction Value := do
  scalar (← .ofExcept (q.command "count(*)")) countType

def countWhere (q : Query) (predicate : Expression) : SessionAction Value :=
  count { q with state := q.state.filter predicate }

def firstOrNone (q : Query) : SessionAction (Option Record) := do
  return (← toList { q with state := q.state.take 1 }).head?

def firstOrNoneWhere (q : Query) (predicate : Expression) : SessionAction (Option Record) :=
  firstOrNone { q with state := q.state.filter predicate }

def first (q : Query) : SessionAction Record := do
  match ← firstOrNone q with
  | some r => return r
  | none => throw (.lookup (.emptyQuery q.mapping.table))

def firstWhere (q : Query) (predicate : Expression) : SessionAction Record :=
  first { q with state := q.state.filter predicate }

/-- The record at a place, counted from the start of the rows and not of the window. -/
def elementAt (q : Query) (i : Nat) : SessionAction Record :=
  first { q with state := (q.state.skip i).take 1 }

/-- Removes the rows of the query and gives their number. -/
def deleteRows (q : Query) : SessionAction Int := do
  execute (← .ofExcept q.deleteCommand)

def deleteRowsWhere (q : Query) (predicate : Expression) : SessionAction Int :=
  deleteRows { q with state := q.state.filter predicate }

end Session

end RecordMapper
