import RecordMapper.Engine.Table

/-!
# Names in formulas

The names of an expression become places in a row of one table. A quoted name that no column has is
a text. An operand's affinity and collation come from its column or cast; of two operands the left
one decides first.
-/

namespace RecordMapper

open Sql (Scalar Operator Negation)

/-- A resolved operand with what it brings to a comparison. -/
structure Operand where
  formula : Formula
  affinity : Option Affinity := none
  /-- The collation, and whether it was stated. -/
  collation : Option (Collation × Bool) := none

instance : Inhabited Operand := ⟨⟨default, none, none⟩⟩

/-- What names may mean: the columns of a table, and the parameters of the statement. -/
structure Naming where
  table : Option Table := none
  otherName : Option String := none
  parameters : Sql.Parameters := {}
  /-- Whether functions of whole columns may stand here. -/
  aggregates : Bool := false
  /-- Names of results, which stand behind those of columns. -/
  results : List (String × Operand) := []

instance : Inhabited Naming := ⟨{}⟩

/-- A function of a whole column: its name, whether equal values count once, and its arguments. -/
structure Aggregate where
  name : String
  distinct : Bool
  arguments : List Formula
  collation : Collation

instance : Inhabited Aggregate := ⟨⟨"", false, [], .binary⟩⟩

/-- Resolution gathers the aggregates that it meets. -/
abbrev Resolver := StateT (List Aggregate) (Except LocatedFault)

namespace Resolver

def refuse {α : Type} (fault : EngineFault) (offset : Option Nat := none) : Resolver α :=
  fun _ => .error ⟨fault, offset⟩

def commonAffinity (a b : Option Affinity) : Option Affinity :=
  match a, b with
  | some x, some y => if x.isNumeric || y.isNumeric then some .numeric else some .blob
  | some x, none => some x
  | none, some y => some y
  | none, none => none

/-- The collation of a comparison: a stated one first, the left operand before the right. -/
def commonCollation (a b : Option (Collation × Bool)) : Collation :=
  match a, b with
  | some (c, true), _ => c
  | _, some (c, true) => c
  | some (c, false), _ => c
  | none, some (c, _) => c
  | none, none => .binary

def matching (a b : Operand) : Matching :=
  ⟨commonAffinity a.affinity b.affinity, commonCollation a.collation b.collation⟩

/-- Other names of the row number. -/
def rowidNames : List String := ["rowid", "oid", "_rowid_"]

def columnOperand (t : Table) (i : Nat) : Operand :=
  match t.columns[i]? with
  | some c =>
    { formula := if t.rowidColumn = some i then .rowid else .field i
      affinity := some c.affinity
      collation := some (c.collation, false) }
  | none => default

/-- What a name means. -/
def column (n : Naming) (table : Option String) (name : String) (quoted : Bool) (offset : Nat) :
    Resolver Operand :=
  let shown := match table with
    | some t => t ++ "." ++ name
    | none => name
  let result? := if table.isNone then n.results.find? fun (r, _) => sameFolded r name else none
  let unknown : Resolver Operand :=
    if let some (_, o) := result? then pure o
    else if quoted && table.isNone then pure { formula := .constant (.text name) }
    else if table.isNone && foldCase name == "true" then pure { formula := .constant (.integer 1) }
    else if table.isNone && foldCase name == "false" then pure { formula := .constant (.integer 0) }
    else refuse (.noColumn shown) (some offset)
  match n.table with
  | none => unknown
  | some t =>
    let known := match table with
      | some q => sameFolded q (n.otherName.getD t.name)
      | none => true
    if !known then unknown
    else
      match t.columnPlace? name with
      | some i => pure (columnOperand t i)
      | none =>
        if rowidNames.contains (foldCase name) && !t.withoutRowid && !quoted then
          pure { formula := .rowid, affinity := some .integer }
        else unknown

def binary (op : Operator) (a b : Operand) : Operand :=
  let m := matching a b
  let x := a.formula
  let y := b.formula
  let formula : Formula :=
    match op with
    | .or => .or x y
    | .and => .and x y
    | .eq => .compare .eq m x y
    | .ne => .compare .ne m x y
    | .lt => .compare .lt m x y
    | .le => .compare .le m x y
    | .gt => .compare .gt m x y
    | .ge => .compare .ge m x y
    | .is => .is false m x y
    | .isNot => .is true m x y
    | .bitAnd => .arithmetic .bitAnd x y
    | .bitOr => .arithmetic .bitOr x y
    | .shiftLeft => .arithmetic .shiftLeft x y
    | .shiftRight => .arithmetic .shiftRight x y
    | .add => .arithmetic .add x y
    | .sub => .arithmetic .sub x y
    | .mul => .arithmetic .mul x y
    | .div => .arithmetic .div x y
    | .rem => .arithmetic .rem x y
    | .concat => .concat x y
  { formula }

def note (a : Aggregate) : Resolver Operand := fun noted =>
  .ok ({ formula := .aggregate noted.length }, noted ++ [a])

def call (n : Naming) (name : String) (distinct star : Bool) (arguments : List Operand)
    (offset : Nat) : Resolver Operand :=
  let count := arguments.length
  let collation := ((arguments.findSome? fun a => a.collation).map Prod.fst).getD .binary
  if Function.isAggregate name count && (star → foldCase name = "count") then
    if n.aggregates then
      note ⟨foldCase name, distinct, arguments.map Operand.formula, collation⟩
    else refuse (.misusedAggregate name) (some offset)
  else if star then
    match Function.admits name 0 with
    | none => refuse (.noFunction name) (some offset)
    | some _ => refuse (.argumentCount name) (some offset)
  else
    match Function.admits name count with
    | none => refuse (.noFunction name) (some offset)
    | some false => refuse (.argumentCount name) (some offset)
    | some true => pure { formula := .call name collation (arguments.map Operand.formula) }

mutual

/-- The operand of an expression. Two things are refused that an engine may evaluate: a row value,
also where it is compared with another, and a table after `in`, also if there is one. -/
def operand (n : Naming) : Scalar → Resolver Operand
  | .literal v => pure { formula := .constant v }
  | .parameter place => pure { formula := .parameter (n.parameters.indexAt place) }
  | .column table name quoted offset => column n table name quoted offset
  | .row _ offset => refuse .misusedRow (some offset)
  | .negate op a => do
    let a ← operand n a
    match op with
    | .minus => return { formula := .minus a.formula }
    | .plus => return { a with affinity := none }
    | .not => return { formula := .not a.formula }
    | .complement => return { formula := .complement a.formula }
  | .binary op a b => do
    let a ← operand n a
    let b ← operand n b
    return binary op a b
  | .collate a name => do
    let a ← operand n a
    match Collation.named? name with
    | some c => return { a with collation := some (c, true) }
    | none => refuse (.noCollation name)
  | .like negated a pattern none => do
    let a ← operand n a
    let p ← operand n pattern
    return { formula := .like negated a.formula p.formula none }
  | .like negated a pattern (some escape) => do
    let a ← operand n a
    let p ← operand n pattern
    let e ← operand n escape
    return { formula := .like negated a.formula p.formula (some e.formula) }
  | .isNull negated a => do
    return { formula := .isNull negated (← operand n a).formula }
  | .between negated a low high => do
    let a ← operand n a
    let low ← operand n low
    let high ← operand n high
    let inside : Formula :=
      .and (.compare .ge (matching a low) a.formula low.formula)
        (.compare .le (matching a high) a.formula high.formula)
    return { formula := if negated then .not inside else inside }
  | .inList negated a items => do
    let a ← operand n a
    let items ← operands n items
    let m : Matching := ⟨a.affinity, (a.collation.map Prod.fst).getD .binary⟩
    return { formula := .inList negated m a.formula (items.map Operand.formula) }
  | .inTable _ a table => do
    let _ ← operand n a
    refuse (.noTable table)
  | .call name distinct star arguments offset => do
    let inner := if Function.isAggregate name arguments.length then { n with aggregates := false }
      else n
    let arguments ← operands inner arguments
    call n name distinct star arguments offset
  | .cast a type => do
    let a ← operand n a
    let affinity := Affinity.ofType type
    return { formula := .cast affinity a.formula, affinity := some affinity }
  | .cases none tests otherwise => do
    let (tests, results) ← branchOperands n tests
    let otherwise ← fallback n otherwise
    let tests := tests.map Operand.formula
    let results := results.map Operand.formula
    return { formula := .cases tests results otherwise }
  | .cases (some subject) tests otherwise => do
    let subject ← operand n subject
    let (tests, results) ← branchOperands n tests
    let otherwise ← fallback n otherwise
    let tests := tests.map (fun t => (binary .eq subject t).formula)
    let results := results.map Operand.formula
    return { formula := .cases tests results otherwise }

def operands (n : Naming) : List Scalar → Resolver (List Operand)
  | [] => pure []
  | a :: r => do
    let a ← operand n a
    let r ← operands n r
    return a :: r

def branchOperands (n : Naming) : List (Scalar × Scalar) → Resolver (List Operand × List Operand)
  | [] => pure ([], [])
  | (test, result) :: r => do
    let test ← operand n test
    let result ← operand n result
    let (tests, results) ← branchOperands n r
    return (test :: tests, result :: results)

def fallback (n : Naming) : Option Scalar → Resolver Formula
  | none => pure (.constant .null)
  | some a => do return (← operand n a).formula

end

def formula (n : Naming) (a : Scalar) : Resolver Formula := do return (← operand n a).formula

end Resolver

/-- The formula of an expression in which no aggregate may stand. -/
def Naming.formula (n : Naming) (a : Scalar) : Except LocatedFault Formula :=
  (Resolver.formula { n with aggregates := false } a).run' []

end RecordMapper
