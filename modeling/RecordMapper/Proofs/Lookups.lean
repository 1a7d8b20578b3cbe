import RecordMapper.Proofs.Answering
import RecordMapper.Proofs.FilledRecords
import RecordMapper.Proofs.KeyedTables
import RecordMapper.Proofs.Queries

/-!
# Lookups

A lookup by key gives the record of a row that shows the key.

1. `Sql.Part.compared`: a condition that compares two phrases is read as their comparison.
2. `Session.Views.lookup_apply`: a lookup gives the first of the rows whose key is the one
   asked for.
3. `Table.shows_iff`: cells of a column are compared as they are.
4. `Mapping.Sound.materialize_eq`: the record of a row that has a cell for each column.
-/

namespace RecordMapper

/-! ## The text of a lookup -/

namespace Sql

open Lexeme RecordMapper.Sql.Parser

theorem anyScalar_binary {l : Lexeme} {op : Operator} {p : Nat} {la lb r : List Lexeme}
    {a b : Scalar} (hop : binaryOperator? l = some (op, p)) (ha : ∀ fuel, 8 * la.length ≤ fuel →
      operand fuel (la ++ l :: (lb ++ r)) = .ok (a, l :: (lb ++ r)))
    (hb : ∀ fuel, 8 * lb.length ≤ fuel → operand fuel (lb ++ r) = .ok (b, r)) (hr : Halts r) :
    anyScalar (la ++ l :: (lb ++ r)) = .ok (.binary op a b, r) := by
  show scalar (8 * ((la ++ l :: (lb ++ r)).length + 1)) 0 _ = _
  obtain ⟨fuel, hfuel⟩ : ∃ n, 8 * ((la ++ l :: (lb ++ r)).length + 1) = n + 4 :=
    ⟨8 * ((la ++ l :: (lb ++ r)).length + 1) - 4, by omega⟩
  have hlen : 8 * (la.length + lb.length + r.length + 2) = fuel + 4 := by
    rw [← hfuel, List.length_append, List.length_cons, List.length_append]
    omega
  rw [hfuel, scalar_step (ha (fuel + 3) (by omega)),
    operators_step hop (Nat.zero_le _) (scalar_halt (hb (fuel + 1) (by omega)) hr)]
  exact operators_halt hr

section Comparisons

variable {text text' : String} {own own' : List Cell} {b b' : Scalar}

/-- A condition of two phrases with a sign between them. -/
theorem Part.compared (ha : Phrase text own b) (hb : Phrase text' own' b') :
    Part (clause "where" anyScalar) (" where " ++ (text ++ (" = " ++ text'))) (own ++ own')
      ["where", "order", "limit"] ["order", "limit"]
      fun ps cells a => ∃ x, a = some x ∧ Filled ps cells x (.binary .eq b b') := by
  refine ⟨?_, fun o => ?_⟩
  · rw [String.toList_append]
    exact pause_space _
  have hs : Sign " = " fun o => [⟨.symbol "=", "=", o + 1⟩] := Sign.symbol (s := "=") (by decide)
  obtain ⟨la, a, hla, hreada, ha⟩ := ha.reads (o + Bytes.lengthOf " where ".toList)
  obtain ⟨lb, a', hlb, hreadb, hb⟩ := hb.reads (o + Bytes.lengthOf " where ".toList +
    Bytes.lengthOf text.toList + Bytes.lengthOf " = ".toList)
  have hlex := hla.join hs hlb
  have hword : Cut Anything o " where ".toList [⟨.word "where", "where", o + 1⟩] :=
    .spaced (s := "where") fun _ => .word_blank (by decide)
  have hcut := hword.andThen (hlex.cut.weaken fun _ hr => Pause.ends hr)
  rw [← String.toList_append] at hcut
  refine ⟨_, some (.binary .eq a a'), hcut, hlex.marks, fun r hr =>
    ⟨before_cons (w := "where") (by decide) _ _, ?_⟩, fun ps cells h => ?_⟩
  · have hhalts : Halts r := hr.halts (by decide)
    generalize o + Bytes.lengthOf " where ".toList + Bytes.lengthOf text.toList + 1 = place
    have hop : binaryOperator? ⟨.symbol "=", "=", place⟩ = some (.eq, 4) := rfl
    have hread : anyScalar (la ++ ⟨.symbol "=", "=", place⟩ :: (lb ++ r)) =
        .ok (.binary .eq a a', r) :=
      anyScalar_binary hop (fun fuel hf => hreada fuel _ hf (closes_of_operator hop))
        (fun fuel hf => hreadb fuel _ hf hhalts.closes) hhalts
    have hall : (la ++ ([⟨.symbol "=", "=", place⟩] ++ lb)) ++ r =
        la ++ ⟨.symbol "=", "=", place⟩ :: (lb ++ r) := by
      simp only [List.append_assoc, List.cons_append, List.nil_append]
    rw [← hall] at hread
    exact clause_cons (by decide) hread
  · obtain ⟨h₁, h₂⟩ := Bound.join hla hs h
    exact ⟨_, rfl, (ha ps cells h₁).binary .eq (hb ps cells h₂)⟩

end Comparisons

end Sql

namespace Mapping

theorem findStatement_eq {m : Mapping} {key : Column} (h : m.key? = some key) :
    m.findStatement = Sql.queryText {} "*" m.table
      (" where " ++ (quoteIdentifier key.name ++ (" = " ++ "?"))) := by
  unfold findStatement Sql.queryText
  rw [h]
  simp only [String.append_assoc]
  rfl

theorem noZero_findStatement {m : Mapping} {key : Column} (h : m.key? = some key) :
    NoZero m.findStatement ↔ NoZero m.table ∧ NoZero key.name := by
  have hwhere : NoZero " where " := by decide
  have hequal : NoZero " = " := by decide
  rw [findStatement_eq h, Sql.noZero_queryText]
  simp only [noZero_append, noZero_quoteIdentifier, hwhere, hequal]
  refine ⟨fun hz => ⟨hz.2.1, hz.2.2.1.2.1⟩, fun hz => ⟨by decide, hz.1, ?_, ?_⟩⟩
  · exact ⟨trivial, hz.2, trivial, by decide⟩
  · exact List.forall_mem_nil _

end Mapping

/-! ## Running a lookup -/

namespace Table

variable (t : Table) {i : Nat}

def compareWith (i : Nat) (x : Cell) (r : Row) : Cell :=
  Comparison.eq.apply (Resolver.matching (Resolver.columnOperand t i) { formula := .constant x })
    (t.cell i r) x

def shows (i : Nat) (x : Cell) (r : Row) : Bool := (t.compareWith i x r).truth == some true

theorem eval_compareWith {name : String} (hi : t.columnPlace? name = some i) (x : Cell) (s : Scope)
    (r : Row) :
    (Resolver.binary .eq (t.operandOf name) { formula := .constant x }).formula.eval
      (SelectPlan.scopeOf s r) = .ok (t.compareWith i x r) := by
  have hplace : t.operandOf name = Resolver.columnOperand t i := by
    unfold operandOf
    rw [hi]
  have hcell := t.eval_columnOperand (s := s) (r := r) (List.findIdx?_eq_some_iff_findIdx_eq.mp hi).1
  rw [hplace]
  show ((Resolver.columnOperand t i).formula.eval _ >>= fun y => _) = _
  rw [hcell]
  rfl

/-- The formula of the comparison of a column with a cell. -/
theorem resolves_compared (name : String) (x : Cell) :
    t.Resolves (some (.binary .eq (.column none name true 0) (.literal x)))
      (some (Resolver.binary .eq (t.operandOf name) { formula := .constant x }).formula) := by
  intro noted
  have hoperand : Resolver.operand (.over t) (.binary .eq (.column none name true 0) (.literal x)) noted =
      .ok (Resolver.binary .eq (t.operandOf name) { formula := .constant x }, noted) := by
    have hcolumn : Resolver.operand (.over t) (.column none name true 0) noted =
        .ok (t.operandOf name, noted) := congrFun (Resolver.column_quoted rfl rfl name 0) noted
    rw [Resolver.operand]
    exact Resolver.bind_ok hcolumn
  rw [Option.mapM_some, map_eq_pure_bind]
  exact Resolver.bind_ok (Resolver.bind_ok hoperand)

/-- The comparison of a column with a cell is true on the rows that show the cell. -/
theorem holds_compareWith {name : String} (hi : t.columnPlace? name = some i) (x : Cell) (s : Scope)
    (r : Row) :
    SelectPlan.holds (some (Resolver.binary .eq (t.operandOf name) { formula := .constant x }).formula) s r =
      .ok (t.shows i x r) := by
  unfold SelectPlan.holds
  simp only [t.eval_compareWith hi x s r, bind, Except.bind, pure, Except.pure]
  rfl

end Table

namespace Session

open RecordMapper.Action

variable {s : Session} {link : Link} {m : Mapping} {t : Table}

theorem bind_pure_apply {α β : Type} (x : SessionAction α) (f : α → β) (s : Session) :
    ((x >>= fun a => pure (f a)) s).1 = (x s).1.map f := by
  rcases hx : x s with ⟨e | a, u⟩
  · rw [bind_error hx]
    rfl
  · rw [bind_ok hx]
    rfl

/-- A lookup gives the record of the first row whose key is the one asked for. -/
theorem Views.lookup_apply (h : s.Views link m t) {key : Column} (hkey : m.key? = some key)
    (hz : NoZero m.table ∧ NoZero key.name) {i : Nat}
    (hi : t.columnPlace? key.name = some i) {k : Value} {x : Cell}
    (hx : k.toCell s.connection.settings.ticks = .ok x) (hbound : x.bound = x) :
    ∃ sorted : List Row, sorted.Perm (t.rows.filter (t.shows i x)) ∧ (find m.record k s).1 =
      (sorted.mapM fun r => materialize m t.names (t.read r)).map List.head? := by
  obtain ⟨known, hknown, hsame⟩ := h.known
  have hpart := Sql.Part.compared (Sql.Phrase.column key.name) (Sql.Phrase.parameter x)
  obtain ⟨a, orderings, ps, hread, hcount, ⟨y, rfl, hfilled⟩, horders⟩ :=
    Sql.readsAs_query {} m.table (.star _) hpart
  rw [← Mapping.findStatement_eq hkey] at hread
  obtain ⟨f, hf, halike⟩ :=
    SelectPlan.condition_forth hsame (.some hfilled) (t.resolves_compared key.name x) []
  obtain ⟨hl, hoffset⟩ := SelectPlan.formula_windowScalars none none ps
  have hplan := SelectPlan.of_rows hknown hl hoffset hf horders
  rw [Table.plan_eq hsame] at hplan
  have hstored : Stored s.connection.settings.ticks [.scalar k] ([] ++ [x]) := by
    refine .cons ?_ .nil
    show (k.toCell _).map Cell.bound = _
    rw [hx]
    exact congrArg Except.ok hbound
  obtain ⟨p, u, v, hready, hnames, hstep⟩ :=
    h.select_apply (hread.read ((Mapping.noZero_findStatement hkey).mpr hz)) rfl hplan hstored
      (Nat.le_of_eq hcount.symm)
  have hholds : ∀ r ∈ t.rows, SelectPlan.holds f { link.scope with parameters := [] ++ [x] } r =
      .ok (t.shows i x r) := fun r _ => (halike link.scope r).trans (t.holds_compareWith hi x _ r)
  have hcounts : Counts none := nofun
  have hwindow : (t.plan f [] none none).windowOf
      { link.scope with parameters := [] ++ [x] } = .ok (0, none) :=
    SelectPlan.windowOf_formulas hcounts hcounts rfl rfl _
  obtain ⟨sorted, hperm, -, hrun⟩ :=
    collect_run (m := m) hwindow (SelectPlan.visited_perm _ _ _) hholds
  refine ⟨sorted, hperm, ?_⟩
  unfold find
  rw [Action.bind_ok h.mapping_apply, hkey]
  simp only [Option.isSome_some, if_true]
  rw [bind_pure_apply]
  unfold records
  rw [Action.bind_ok h.mapping_apply, Action.bind_ok hready]
  unfold finishRecords
  rw [Action.bind_ok hstep, ofExcept_apply, hnames]
  exact congrArg _ hrun

end Session

/-! ## Rows that show a cell -/

namespace Cell

theorem same_integer (co : Collation) {a b : Int64} (h : same co (integer a) (integer b) = true) :
    a = b := by
  have hsigned : ∀ i : Int,
      BinaryView.signed (decide (i < 0)) i.natAbs * (twoTo (0 - 0 : Int).toNat : Nat) = i := by
    intro i
    show BinaryView.signed _ _ * (1 : Int) = i
    unfold BinaryView.signed
    by_cases hi : i < 0
    · rw [decide_eq_true hi, if_pos rfl]
      omega
    · rw [decide_eq_false hi, if_neg Bool.false_ne_true]
      omega
  have hviews : BinaryView.order (.ofInt a.toInt) (.ofInt b.toInt) = .eq := by
    have horder := beq_iff_eq.mp h
    unfold order at horder
    exact (compareLex_eq_eq.mp (compareLex_eq_eq.mp horder).2).1
  have hcompare : compare _ _ = Ordering.eq := hviews
  rw [hsigned, hsigned, compare_eq_iff_eq] at hcompare
  exact Int64.toInt_inj.mp hcompare

end Cell

namespace Table

variable {t : Table} {i : Nat} {c : StoredColumn} {x : Cell} {r : Row}

/-- Cells of a column are compared as they are. -/
theorem shows_iff (hc : t.columns[i]? = some c) (hx : x.Settled c.affinity)
    (hr : (t.cell i r).Settled c.affinity) (hnull : x ≠ .null) : t.shows i x r = true ↔
      t.cell i r ≠ .null ∧ Cell.same (t.collationAt i) (t.cell i r) x = true := by
  have hnotnull : ∀ {y : Cell}, y ≠ .null → y.isNull = false := by
    intro y hy
    cases y <;> first | rfl | exact absurd rfl hy
  have hmatching : Resolver.matching (Resolver.columnOperand t i) { formula := .constant x } =
      ⟨some c.affinity, t.collationAt i⟩ := by
    unfold Resolver.matching Resolver.columnOperand collationAt
    rw [hc]
    rfl
  unfold shows compareWith Comparison.apply
  rw [hmatching]
  by_cases hn : t.cell i r = .null
  · rw [hn]
    exact ⟨nofun, fun h => absurd rfl h.1⟩
  · rw [hnotnull hn, hnotnull hnull]
    simp only [Bool.or_self, Bool.false_eq_true, if_false, Cell.comparable_settled hr hx]
    have hholds : Comparison.eq.holds (Cell.order (t.collationAt i) (t.cell i r) x) =
        Cell.same (t.collationAt i) (t.cell i r) x := rfl
    rw [hholds, and_iff_right hn]
    cases Cell.same (t.collationAt i) (t.cell i r) x <;> decide

end Table

/-! ## Records of rows -/

namespace Mapping

variable {m : Mapping} {c : Column} {v : Column → Value} {cells : List Cell}

/-- A column of the result with the name of a column is for this column. -/
theorem Sound.resultColumn (h : m.Sound) (hc : c ∈ m.columns) : m.resultColumn c.name = some c := by
  have hfind : m.findColumn c.name = some c := by
    unfold findColumn
    cases hf : m.columns.find? (fun b => b.name == c.name) with
    | none =>
      have := List.find?_eq_none.mp hf c hc
      simp at this
    | some b =>
      have hname := List.find?_some hf
      have hb := List.mem_of_find?_eq_some hf
      rw [beq_iff_eq] at hname
      rw [h.eq_of_sameFolded hb hc (by rw [hname]; exact sameFolded_refl _)]
  unfold Mapping.resultColumn
  rw [hfind]
  rfl

/-- What a cell of a result makes of a record. -/
def readInto (m : Mapping) (cells : List Cell) (r : Record) (x : String × Nat) :
    Except Error Record :=
  match m.resultColumn x.1 with
  | none => .ok r
  | some c => do
    let value ← ((← Session.cellAt cells x.2).read c.dataType).mapError Error.type
    m.assign c r value

theorem materialize_eq_foldlM (m : Mapping) (names : List String) (cells : List Cell) :
    Session.materialize m names cells = names.zipIdx.foldlM (m.readInto cells) m.record.blank :=
      (rfl)

theorem Sound.readInto_eq (h : m.Sound) (hc : c ∈ m.columns) {r : Record}
    (hr : r.typeName = m.typeName) {i : Nat} {x : Cell} {w : Value} (hx : cells[i]? = some x)
    (hw : (do c.type.take (← x.read c.dataType)) = .ok w) :
    m.readInto cells r (c.name, i) = .ok (r.fill c w) := by
  obtain ⟨value, hvalue, htake⟩ := ok_of_bind hw
  have hcell : Session.cellAt cells i = .ok x := by
    unfold Session.cellAt
    rw [hx]
  unfold readInto
  simp only [h.resultColumn hc, hcell, hvalue, bind, Except.bind, Except.mapError]
  unfold assign
  rw [if_pos hr, htake]
  rfl

theorem Sound.foldlM_readInto (h : m.Sound) {cs : List Column} {start : Nat} {r : Record}
    (hr : r.typeName = m.typeName) (hcells : ∀ {i : Nat} {c : Column}, cs[i]? = some c →
      c ∈ m.columns ∧
      ∃ x, cells[start + i]? = some x ∧ (do c.type.take (← x.read c.dataType)) = .ok (v c)) :
    ((cs.map Column.name).zipIdx start).foldlM (m.readInto cells) r = .ok (r.fillAll cs v) := by
  induction cs generalizing start r with
  | nil => rfl
  | cons c rest ih =>
    obtain ⟨hc, x, hx, hw⟩ := hcells (i := 0) rfl
    rw [Nat.add_zero] at hx
    rw [List.map_cons, List.zipIdx_cons, List.foldlM_cons, h.readInto_eq hc hr hx hw]
    refine ih (r := r.fill c (v c)) hr fun {i c'} hc' => ?_
    obtain ⟨hmem, x, hx, hw⟩ := hcells (i := i + 1) hc'
    exact ⟨hmem, x, by rwa [show start + 1 + i = start + (i + 1) by omega], hw⟩

/-- The record of a row that has a cell for each column. -/
theorem Sound.materialize_eq (h : m.Sound)
    (hcells : ∀ {i : Nat} {c : Column}, m.columns[i]? = some c →
    ∃ x, cells[i]? = some x ∧ (do c.type.take (← x.read c.dataType)) = .ok (v c)) :
    Session.materialize m (m.columns.map Column.name) cells =
      .ok (m.record.blank.fillAll m.columns v) := by
  rw [materialize_eq_foldlM]
  refine h.foldlM_readInto rfl fun {i c} hc => ?_
  obtain ⟨x, hx, hw⟩ := hcells hc
  exact ⟨List.mem_of_getElem? hc, x, by rwa [Nat.zero_add], hw⟩

end Mapping

end RecordMapper
