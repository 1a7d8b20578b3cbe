import RecordMapper.Engine.Select

/-!
# Access paths

In which order a select meets the rows of its table. It follows, in this order of preference,

1. the table itself, when the condition fixes the row number;
2. an index on columns that the condition fixes;
3. an index that starts with the first ordering, from its end when that ordering descends;
4. an index whose first column the condition bounds;
5. an index that holds every column in use and is narrower than the table;
6. the table itself.

Equal entries of an index keep the order of the table.
-/

namespace RecordMapper

namespace Formula

mutual

/-- The fields of a row that a formula reads; `none` is the row number. -/
def reads : Formula → List (Option Nat)
  | constant _ | parameter _ | aggregate _ => []
  | field i => [some i]
  | rowid => [none]
  | minus a | not a | complement a | isNull _ a | cast _ a => a.reads
  | and a b | or a b | concat a b => a.reads ++ b.reads
  | compare _ _ a b | is _ _ a b | arithmetic _ a b => a.reads ++ b.reads
  | like _ a pattern none => a.reads ++ pattern.reads
  | like _ a pattern (some escape) => a.reads ++ pattern.reads ++ escape.reads
  | inList _ _ a items => a.reads ++ readsEach items
  | call _ _ arguments => readsEach arguments
  | cases tests results otherwise => readsEach tests ++ readsEach results ++ otherwise.reads

def readsEach : List Formula → List (Option Nat)
  | [] => []
  | f :: r => f.reads ++ readsEach r

end

def place? : Formula → Option (Option Nat)
  | field i => some (some i)
  | rowid => some none
  | _ => none

/-- The formulas that all have to be true for a condition to be true. -/
def conjuncts : Formula → List Formula
  | and a b => a.conjuncts ++ b.conjuncts
  | f => [f]

end Formula

/-- What a condition says about one field, compared with what is the same on every row. -/
structure Restriction where
  place : Option Nat
  /-- Whether the field has one of some given values, or else lies on one side of a value. -/
  fixed : Bool
  /-- How it is compared; a test for null has no such thing. -/
  matching : Option Matching
  deriving DecidableEq, Repr

namespace Restriction

def ofComparison (fixed : Bool) (m : Matching) (a b : Formula) : Option Restriction :=
  match a.place?, b.place? with
  | some p, none => if b.reads.isEmpty then some ⟨p, fixed, some m⟩ else none
  | none, some p => if a.reads.isEmpty then some ⟨p, fixed, some m⟩ else none
  | _, _ => none

def ofTerm : Formula → Option Restriction
  | .compare op m a b => if op = .ne then none else ofComparison (op = .eq) m a b
  | .is false m a b => ofComparison true m a b
  | .isNull false a => a.place?.map fun p => ⟨p, true, none⟩
  | .inList false m a items =>
    if items.isEmpty || !(Formula.readsEach items).isEmpty then none
    else a.place?.map fun p => ⟨p, true, some m⟩
  | .or a b =>
    match ofTerm a, ofTerm b with
    | some x, some y => if x = y ∧ x.fixed then some x else none
    | _, _ => none
  | _ => none

/-- Whether an index term of a column with this affinity can serve the restriction. -/
def suits (r : Restriction) (affinity : Affinity) (term : IndexTerm) : Bool :=
  term.column.isSome && r.place == term.column && r.matching.all fun m =>
    m.collation == term.collation &&
      match m.affinity with
      | none | some .blob => true
      | some .text => affinity == .text
      | some _ => affinity.isNumeric

end Restriction

/-! ## Widths -/

/-- The logarithm of a size in tenths, to the base two, as its four leading bits tell it. -/
def magnitude (n : Nat) : Nat :=
  if n < 2 then 0
  else
    let k := n.log2
    let leading := if k < 3 then n <<< (3 - k) else n >>> (k - 3)
    10 * k + [0, 2, 3, 5, 6, 7, 8, 9].getD (leading - 8) 0

/-- The estimated width of a column: a number counts one, texts and bytes count by the length that
their type states. -/
def StoredColumn.width (c : StoredColumn) : Nat :=
  if c.affinity.isNumeric || c.type.isEmpty then 1
  else if c.type = "TEXT" ∨ c.type = "BLOB" then 5
  else
    let cs := c.type.toList.map Char.toUpper
    let stated := Affinity.hasPart cs "CHAR".toList || Affinity.hasPart cs "BLOB(".toList
    let digits := (cs.dropWhile fun x => !x.isDigit).takeWhile Char.isDigit
    if stated then min 255 (((readInt? (String.ofList digits)).getD 0).toNat / 4 + 1) else 5

/-- The estimated width of a row of the table. -/
def Table.width (t : Table) : Nat :=
  let columns := t.columns.foldr (fun c n => c.width + n) 0
  magnitude (4 * (if t.rowidColumn.isSome || t.withoutRowid then columns else columns + 1))

/-- The estimated width of an entry of an index. -/
def Table.indexWidth (t : Table) (ix : Index) : Nat :=
  let width (i : Nat) : Nat := ((t.columns[i]?.map StoredColumn.width).getD 1)
  let terms := ix.terms.foldr (fun term n => (term.column.map width).getD 1 + n) 0
  let key := if t.withoutRowid then t.key.foldr (fun i n => width i + n) 0 else 1
  magnitude (4 * (terms + key))

/-! ## Paths -/

/-- An index that is followed, from its end or not. -/
structure AccessPath where
  index : Index
  backward : Bool := false

namespace AccessPath

def served (t : Table) (restrictions : List Restriction) (term : IndexTerm) : Bool :=
  let affinity := ((term.column.bind (t.columns[·]?)).map StoredColumn.affinity).getD .blob
  restrictions.any fun r => r.suits affinity term

/-- How many of its first terms an index has fixed. -/
def fixedTerms (t : Table) (restrictions : List Restriction) (ix : Index) : Nat :=
  (ix.terms.takeWhile (served t (restrictions.filter Restriction.fixed))).length

def leads (k : OrderKey) (term : IndexTerm) : Bool :=
  term.column.isSome && k.formula.place? == some term.column && k.collation == term.collation

/-- The index with the greatest count, if that is positive; of equals the first. -/
def greatest? (count : Index → Nat) (indices : List Index) : Option Index :=
  indices.foldl (fun best ix =>
    if ((best.map count).getD 0) < count ix then some ix else best) none

/-- The fields that a select reads. -/
def inUse (p : SelectPlan) : List (Option Nat) :=
  Formula.readsEach (p.results ++ p.condition.toList ++ p.orderings.map OrderKey.formula)
    ++ Formula.readsEach (p.aggregates.flatMap Aggregate.arguments)

def covers (t : Table) (fields : List (Option Nat)) (ix : Index) : Bool :=
  fields.all fun
    | none => true
    | some i => ix.terms.any (fun term => term.column == some i) ||
                  (t.withoutRowid && t.key.contains i)

def of? (t : Table) (indices : List Index) (p : SelectPlan) : Option AccessPath :=
  let restrictions := (p.condition.toList.flatMap Formula.conjuncts).filterMap Restriction.ofTerm
  if restrictions.any fun r => r.place.isNone && r.fixed then none
  else if let some ix := greatest? (fixedTerms t restrictions) indices then
    let next := ix.terms[fixedTerms t restrictions ix]?
    some ⟨ix, p.orderings.head?.any fun k => k.descending && next.any (leads k)⟩
  else
    let leading (k : OrderKey) : Option AccessPath :=
      (indices.find? fun ix => ix.terms.head?.any (leads k)).map fun ix => ⟨ix, k.descending⟩
    let bounds (ix : Index) : Nat :=
      (restrictions.filter fun r => ix.terms.head?.any (served t [r])).length
    let narrow (ix : Index) : Nat :=
      if covers t (inUse p) ix then t.width - t.indexWidth ix else 0
    ((p.orderings.head?.bind leading)
      <|> ((greatest? bounds indices).map fun ix => ⟨ix, false⟩)
      <|> ((greatest? narrow indices).map fun ix => ⟨ix, false⟩))

end AccessPath

def Index.order (ix : Index) (a b : Row) : Ordering :=
  ((ix.key a.cells).zip (ix.key b.cells)).foldr (fun ((c, x), (_, y)) rest =>
    (Cell.order c x y).then rest) .eq

def SelectPlan.visited (p : SelectPlan) (d : Database) (t : Table) : List Row :=
  match AccessPath.of? t (d.indicesOf t.name) p with
  | none => t.scan
  | some path =>
    let rows := t.scan.mergeSort fun a b => path.index.order a b != .gt
    if path.backward then rows.reverse else rows

end RecordMapper
