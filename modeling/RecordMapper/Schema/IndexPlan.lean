import RecordMapper.Schema.Mapping

/-!
# Index plans

The index declarations of a mapping grouped by name. A declaration without a name belongs to the
index `<table>_<column>`; all declarations of one index agree on uniqueness; the columns of an index
stand by declared order, and in the order of the mapping where that ties.
-/

namespace RecordMapper

structure IndexPlan where
  name : String
  unique : Bool
  /-- The declared order and the name of each column. -/
  members : List (Int × String)
  deriving DecidableEq, Repr, Inhabited

namespace IndexPlan

/-- One column's membership in one index. -/
structure Entry where
  index : String
  unique : Bool
  order : Int
  column : String
  deriving DecidableEq, Repr, Inhabited

/-- The memberships that a mapping declares, with the names of their indices. -/
def entries (m : Mapping) : List Entry :=
  m.columns.flatMap fun c => c.indices.map fun membership =>
    { index := membership.name.getD (m.table ++ "_" ++ c.name)
      unique := membership.unique
      order := membership.order
      column := c.name }

def add (plans : List IndexPlan) (e : Entry) : Except SchemaFault (List IndexPlan) :=
  match plans with
  | [] => .ok [⟨e.index, e.unique, [(e.order, e.column)]⟩]
  | p :: rest =>
    if p.name = e.index then
      if p.unique = e.unique then .ok ({ p with members := p.members ++ [(e.order, e.column)] } :: rest)
      else .error (.mixedUniqueness e.index)
    else (add rest e).map (p :: ·)

/-- The plan with its columns in declared order. -/
def sorted (p : IndexPlan) : IndexPlan :=
  { p with members := p.members.mergeSort fun a b => decide (a.1 ≤ b.1) }

/-- The plans of a mapping in the order in which their indices are first declared. -/
def ofMapping (m : Mapping) : Except SchemaFault (List IndexPlan) :=
  ((entries m).foldlM add []).map fun plans => plans.map sorted

end IndexPlan

end RecordMapper
