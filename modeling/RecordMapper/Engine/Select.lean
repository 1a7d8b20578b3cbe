import RecordMapper.Engine.Aggregate
import RecordMapper.Engine.KeptTable

/-!
# Selecting rows

A select over one table: the rows on which the condition is true, sorted by the orderings with equal
rows left in their order, then the window that `offset` and `limit` cut out. With a function of
whole columns in the results there is one row, and the window is cut from that.

1. `Run` holds items until a fault ends them, since rows found before a fault are still given.
2. `SelectPlan.of` resolves the names of a select.
3. `SelectPlan.run` gives the rows.
-/

namespace RecordMapper

/-- Items until a fault may end them. -/
structure Run (α : Type) where
  items : List α
  fault : Option EngineFault := none

namespace Run

variable {α β : Type}

instance : Inhabited (Run α) := ⟨⟨[], none⟩⟩

/-- The outcomes of a function on each item until the first fault. -/
def traverse (f : α → Except EngineFault β) : List α → Run β
  | [] => ⟨[], none⟩
  | a :: r =>
    match f a with
    | .ok b => let rest := traverse f r; ⟨b :: rest.items, rest.fault⟩
    | .error fault => ⟨[], some fault⟩

/-- The items that pass a test until the first fault. -/
def select (test : α → Except EngineFault Bool) : List α → Run α
  | [] => ⟨[], none⟩
  | a :: r =>
    match test a with
    | .ok true => let rest := select test r; ⟨a :: rest.items, rest.fault⟩
    | .ok false => select test r
    | .error fault => ⟨[], some fault⟩

/-- What a function makes of the items; its own fault comes first. -/
def andThen (x : Run α) (f : α → Except EngineFault β) : Run β :=
  let y := traverse f x.items
  ⟨y.items, y.fault.or x.fault⟩

/-- The items as a whole, if nothing ended them. -/
def whole (x : Run α) : Except EngineFault (List α) :=
  match x.fault with
  | none => .ok x.items
  | some fault => .error fault

/-- All items or none. -/
def ofWhole : Except EngineFault (List α) → Run α
  | .ok items => ⟨items, none⟩
  | .error fault => ⟨[], some fault⟩

/-- The items of a window; a fault behind its end is never met. -/
def window (offset : Nat) (limit : Option Nat) (x : Run α) : Run α :=
  let rest := x.items.drop offset
  match limit with
  | none => ⟨rest, x.fault⟩
  | some n => ⟨rest.take n, if n ≤ rest.length then none else x.fault⟩

end Run

structure OrderKey where
  formula : Formula
  collation : Collation
  descending : Bool

namespace OrderKey

/-- Compares two lists of key cells, term by term. -/
def order : List OrderKey → List Cell → List Cell → Ordering
  | k :: ks, x :: xs, y :: ys =>
    let o := Cell.order k.collation x y
    (if k.descending then o.swap else o).then (order ks xs ys)
  | _, _, _ => .eq

end OrderKey

structure SelectPlan where
  names : List String
  results : List Formula
  collations : List Collation
  aggregates : List Aggregate
  condition : Option Formula
  orderings : List OrderKey
  distinct : Bool
  limit : Option Formula
  offset : Option Formula

/-- A result column: its name and what is computed. -/
structure ResultColumn where
  name : String
  operand : Operand
  otherName : Option String

namespace SelectPlan

/-! ## Resolving -/

def starColumns (t : Table) : List ResultColumn :=
  t.columns.zipIdx.map fun (c, i) => ⟨c.name, Resolver.columnOperand t i, none⟩

def resultName (n : Naming) (a : Sql.Scalar) (spelling : String) : String :=
  match a, n.table with
  | .column _ name _ _, some t =>
    match t.columnPlace? name with
    | some i => (t.columns[i]?.map StoredColumn.name).getD name
    | none =>
      if Resolver.rowidNames.contains (foldCase name) && !t.withoutRowid then
        match t.rowidColumn with
        | some i => (t.columns[i]?.map StoredColumn.name).getD name
        | none => "rowid"
      else spelling
  | _, _ => spelling

def resultColumns (n : Naming) : Sql.Selection → Resolver (List ResultColumn)
  | .all none =>
    match n.table with
    | some t => pure (starColumns t)
    | none => Resolver.refuse .noSource
  | .all (some q) =>
    match n.table with
    | some t =>
      if sameFolded q (n.otherName.getD t.name) then pure (starColumns t)
      else Resolver.refuse (.noTable q)
    | none => Resolver.refuse (.noTable q)
  | .scalar a otherName spelling => do
    let o ← Resolver.operand n a
    return [⟨otherName.getD (resultName n a spelling), o, otherName⟩]

/-- The operand of an ordering term: a result by its place or alias, or an expression. -/
def orderOperand (n : Naming) (columns : List ResultColumn) (position : Nat) (a : Sql.Scalar) :
    Resolver Operand :=
  match a with
  | .literal (.integer i) =>
    match (if i.toInt ≤ 0 then none else columns[i.toInt.toNat - 1]?) with
    | some c => pure c.operand
    | none => Resolver.refuse (.ordinalRange (ordinal position) columns.length)
  | .column none name _ _ =>
    match columns.find? fun c => c.otherName.any fun otherName => sameFolded otherName name with
    | some c => pure c.operand
    | none => Resolver.operand n a
  | a => Resolver.operand n a
where
  /-- The ordinal numeral of a position, counted from zero. -/
  ordinal (i : Nat) : String :=
    let k := i + 1
    let ending :=
      if 11 ≤ k % 100 ∧ k % 100 ≤ 13 then "th"
      else if k % 10 = 1 then "st"
      else if k % 10 = 2 then "nd"
      else if k % 10 = 3 then "rd"
      else "th"
    toString k ++ ending

def orderKey (n : Naming) (columns : List ResultColumn) (t : Sql.OrderTerm) (position : Nat) :
    Resolver OrderKey := do
  let o ← orderOperand n columns position t.scalar
  return ⟨o.formula, (o.collation.map Prod.fst).getD .binary, t.descending⟩

def sourceTable (d : Database) : Option Sql.Source → Except LocatedFault (Option Table)
  | none => .ok none
  | some s =>
    match d.readable? s.table with
    | some t => .ok (some t)
    | none => .error ⟨.noTable s.table, none⟩

def of (d : Database) (parameters : Sql.Parameters) (s : Sql.Select) :
    Except LocatedFault SelectPlan := do
  let table ← sourceTable d s.source
  let bare : Naming := { parameters }
  let limit ← s.limit.mapM bare.formula
  let offset ← s.offset.mapM bare.formula
  let naming : Naming :=
    { table, otherName := s.source.bind fun q => q.otherName, parameters, aggregates := true }
  let resolve : Resolver (List ResultColumn × Option Formula × List OrderKey) := do
    let columns ← s.selections.mapM (resultColumns naming)
    let columns := columns.flatten
    let results := columns.filterMap fun c => c.otherName.map fun name => (name, c.operand)
    let behind := { naming with results }
    let condition ← s.condition.mapM (Resolver.formula { behind with aggregates := false })
    let orderings ← s.orderings.zipIdx.mapM fun (t, i) => orderKey behind columns t i
    return (columns, condition, orderings)
  let ((columns, condition, orderings), aggregates) ← resolve.run []
  return {
    names := columns.map ResultColumn.name
    results := columns.map fun c => c.operand.formula
    collations := columns.map fun c => (c.operand.collation.map Prod.fst).getD .binary
    aggregates, condition, orderings, distinct := s.distinct, limit, offset }

/-! ## Running -/

/-- A row as a formula sees it. -/
def scopeOf (s : Scope) (r : Row) : Scope :=
  { s with fields := r.cells, rowid := Cell.ofInt r.id }

def holds (condition : Option Formula) (s : Scope) (r : Row) : Except EngineFault Bool :=
  match condition with
  | none => .ok true
  | some f => do return (← f.eval (scopeOf s r)).truth == some true

def values (formulas : List Formula) (s : Scope) (r : Row) : Except EngineFault (List Cell) :=
  Formula.evalEach (scopeOf s r) formulas

def sameResults (collations : List Collation) (xs ys : List Cell) : Bool :=
  (collations.zip (xs.zip ys)).all fun (c, x, y) => Cell.same c x y

def unrepeated (collations : List Collation) (rows : List (List Cell)) : List (List Cell) :=
  (rows.foldl (fun kept r =>
    if kept.any (sameResults collations r) then kept else r :: kept) []).reverse

/-- Sorts rows by their keys; equal rows keep their order. -/
def sorted (orderings : List OrderKey) (rows : List (List Cell × List Cell)) : List (List Cell) :=
  (rows.mergeSort fun a b => OrderKey.order orderings a.1 b.1 != .gt).map Prod.snd

def keyed (p : SelectPlan) (s : Scope) (r : Row) : Except EngineFault (List Cell × List Cell) := do
  let keys ← values (p.orderings.map OrderKey.formula) s r
  return (keys, ← values p.results s r)

/-- The row that stands for all rows beside functions of whole columns: the row of the extreme when
the only such function is one, else the last. -/
def standing (p : SelectPlan) (s : Scope) (rows : List Row) : Row :=
  let last := (rows.getLast?).getD ⟨0, []⟩
  match p.aggregates with
  | [a] =>
    if a.name = "max" ∨ a.name = "min" then
      let wanted : Ordering := if a.name = "max" then .gt else .lt
      let cell (r : Row) : Cell :=
        match values a.arguments s r with
        | .ok (c :: _) => c
        | _ => .null
      match rows.filter fun r => !(cell r).isNull with
      | [] => last
      | r :: rest =>
        rest.foldl (fun best x =>
          if Cell.order a.collation (cell x) (cell best) == wanted then x else best) r
    else last
  | _ => last

/-- The single row of results with functions of whole columns. -/
def aggregated (p : SelectPlan) (s : Scope) (rows : List Row) :
    Except EngineFault (List (List Cell)) := do
  let outcomes ← p.aggregates.mapM fun a => do
    a.outcome (← (Run.traverse (values a.arguments s) rows).whole)
  let r := standing p s rows
  let scope := if rows.isEmpty then { s with rowid := .null } else scopeOf s r
  return [← Formula.evalEach { scope with aggregates := outcomes } p.results]

/-- A bound of the window as an integer. -/
def bound (s : Scope) (f : Formula) : Except EngineFault Int := do
  match Cell.stored .numeric (← f.eval s) with
  | .integer i => return i.toInt
  | _ => throw .mismatch

/-- The window: no limit when it is negative, no offset when there is nothing to give. -/
def windowOf (p : SelectPlan) (s : Scope) : Except EngineFault (Nat × Option Nat) := do
  let limit ← p.limit.mapM (bound s)
  if limit = some 0 then return (0, some 0)
  let offset ← p.offset.mapM (bound s)
  return ((offset.getD 0).toNat, limit.bind fun n => if n < 0 then none else some n.toNat)

/-- The rows of results, given the rows of the table in the order in which they are visited. -/
def run (p : SelectPlan) (s : Scope) (visited : List Row) : Run (List Cell) :=
  match p.windowOf s with
  | .error fault => ⟨[], some fault⟩
  | .ok (offset, limit) =>
    if limit = some 0 then ⟨[], none⟩
    else
      let passing := Run.select (holds p.condition s) visited
      if !p.aggregates.isEmpty then
        (Run.ofWhole (do p.aggregated s (← passing.whole))).window offset limit
      else if p.orderings.isEmpty then
        if p.distinct then
          let found := passing.andThen (values p.results s)
          Run.window offset limit { found with items := unrepeated p.collations found.items }
        else (passing.window offset limit).andThen (values p.results s)
      else
        let found := do
          let rows := sorted p.orderings (← (passing.andThen (p.keyed s)).whole)
          return if p.distinct then unrepeated p.collations rows else rows
        (Run.ofWhole found).window offset limit

end SelectPlan

end RecordMapper
