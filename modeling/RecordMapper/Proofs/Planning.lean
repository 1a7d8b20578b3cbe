import RecordMapper.Engine.Access
import RecordMapper.Proofs.Resolving
import RecordMapper.Query.State

/-!
# Plans of selects over all columns

1. `SelectPlan.of_rows`: a select of all columns of a table is resolved to its plan.
2. `Table.run_plan`: the plan gives the window of the sorted rows on which its condition is true.
3. `SelectPlan.visited_perm`: whatever index is followed, each row is visited once.
-/

namespace RecordMapper

open Sql (Scalar)

/-! ## Selects of all columns -/

def Sql.Select.rows (table : String) (condition : Option Scalar) (orderings : List Sql.OrderTerm)
    (limit offset : Option Scalar) : Sql.Select :=
  { selections := [.all none], source := some ⟨table, none⟩, condition, orderings, limit, offset }

def Table.orderKey (t : Table) (k : SortTerm) : OrderKey :=
  ⟨(t.operandOf k.column).formula, ((t.operandOf k.column).collation.map Prod.fst).getD .binary,
    !k.ascending⟩

/-- The plan of a select of all columns. -/
def Table.plan (t : Table) (condition : Option Formula) (orderings : List SortTerm)
    (limit offset : Option Formula) : SelectPlan where
  names := t.names
  results := t.columns.zipIdx.map fun (_, i) => (Resolver.columnOperand t i).formula
  collations := t.columns.zipIdx.map fun (_, i) =>
    ((Resolver.columnOperand t i).collation.map Prod.fst).getD .binary
  aggregates := []
  condition
  orderings := orderings.map t.orderKey
  distinct := false
  limit
  offset

namespace SelectPlan

/-- An ordering term that names a column. -/
def Orders (t : Sql.OrderTerm) (k : SortTerm) : Prop :=
  ∃ offset, t = ⟨.column none k.column true offset, !k.ascending⟩

section OrderKeys

variable {n : Naming} {t : Table} {terms : List Sql.OrderTerm} {ks : List SortTerm}

theorem orderKey_eq {columns : List ResultColumn} (hn : n.table = some t) (hr : n.results = [])
    (hc : ∀ c ∈ columns, c.otherName = none) {term : Sql.OrderTerm} {k : SortTerm}
    (h : Orders term k) (position : Nat) :
    orderKey n columns term position = pure (t.orderKey k) := by
  obtain ⟨offset, rfl⟩ := h
  have hfind : columns.find? (fun c => c.otherName.any fun o => sameFolded o k.column) = none := by
    rw [List.find?_eq_none]
    intro c hmem
    rw [hc c hmem]
    exact Bool.false_ne_true
  unfold orderKey orderOperand
  simp only [hfind]
  rw [Resolver.operand, Resolver.column_quoted hn hr]
  rfl

theorem orderKeys_eq (columns : List ResultColumn) (hn : n.table = some t) (hr : n.results = [])
    (hc : ∀ c ∈ columns, c.otherName = none) (h : List.Forall₂ Orders terms ks) (start : Nat)
    (noted : List Aggregate) :
    ((terms.zipIdx start).mapM fun (term, i) => orderKey n columns term i) noted =
      .ok (ks.map t.orderKey, noted) := by
  induction h generalizing start with
  | nil => rfl
  | cons hk _ ih =>
    rw [List.zipIdx_cons, List.mapM_cons]
    exact (Resolver.bind_ok (congrFun (orderKey_eq hn hr hc hk start) noted)).trans
      (Resolver.bind_ok (ih (start + 1)))

theorem otherName_of_mem_starColumns {c : ResultColumn} (h : c ∈ starColumns t) :
    c.otherName = none := by
  obtain ⟨p, -, rfl⟩ := List.mem_map.mp h
  rfl

end OrderKeys

/-- A select of all columns of a table is resolved to the plan of its condition and orderings. -/
theorem of_rows {d : Database} {parameters : Sql.Parameters} {t : Table} {table : String}
    {condition : Option Scalar} {terms : List Sql.OrderTerm} {limit offset : Option Scalar}
    {f l o : Option Formula} {ks : List SortTerm} (ht : d.readable? table = some t)
    (hl : limit.mapM (Naming.formula { parameters }) = .ok l)
    (ho : offset.mapM (Naming.formula { parameters }) = .ok o)
    (hc : condition.mapM (Resolver.formula (.over t parameters)) [] = .ok (f, []))
    (hk : List.Forall₂ Orders terms ks) :
    SelectPlan.of d parameters (.rows table condition terms limit offset) =
      .ok (t.plan f ks l o) := by
  have hnone : (starColumns t).filterMap (fun c => c.otherName.map fun name => (name, c.operand)) =
      [] := by
    rw [List.filterMap_eq_nil_iff]
    intro c hc
    rw [otherName_of_mem_starColumns hc]
    rfl
  unfold SelectPlan.of Sql.Select.rows sourceTable
  simp only [ht, hl, ho, bind, Except.bind, StateT.run, StateT.bind, List.mapM_cons, List.mapM_nil,
    resultColumns, pure, Except.pure, Resolver.stateT_pure, List.flatten_cons, List.flatten_nil,
    List.append_nil, hnone, Option.bind]
  have hcondition : condition.mapM (Resolver.formula { table := some t, parameters }) [] =
      .ok (f, []) := hc
  have hkeys := orderKeys_eq (n := { table := some t, parameters, aggregates := true }) (t := t)
    (starColumns t) rfl rfl (fun _ => otherName_of_mem_starColumns) hk 0 []
  simp only [hcondition, hkeys]
  have hnames : (starColumns t).map ResultColumn.name = t.names := by
    unfold starColumns Table.names
    rw [List.map_map]
    show t.columns.zipIdx.map (StoredColumn.name ∘ Prod.fst) = _
    rw [← List.map_map, List.zipIdx_map_fst]
  rw [hnames]
  unfold Table.plan starColumns
  rw [List.map_map, List.map_map]
  rfl

end SelectPlan

/-! ## Running over rows -/

namespace Table

variable {t t' : Table} {s : Scope} {r : Row}

theorem plan_eq (h : t.SameColumns t') : t.plan = t'.plan := by
  funext f ks l o
  unfold plan orderKey names Table.operandOf Table.columnPlace? Resolver.columnOperand
  rw [h.columns, h.rowidColumn]

theorem eval_columnOperand {i : Nat} (h : i < t.columns.length) :
    (Resolver.columnOperand t i).formula.eval (SelectPlan.scopeOf s r) = .ok (t.cell i r) := by
  unfold Resolver.columnOperand cell
  rw [List.getElem?_eq_getElem h]
  by_cases hi : t.rowidColumn = some i
  · simp only [if_pos hi]
    rfl
  · simp only [if_neg hi]
    rfl

theorem eval_operandOf (name : String) :
    (t.operandOf name).formula.eval (SelectPlan.scopeOf s r) = .ok (t.sortCell name r) := by
  unfold operandOf sortCell
  cases h : t.columnPlace? name with
  | none => rfl
  | some i => exact eval_columnOperand (List.findIdx?_eq_some_iff_findIdx_eq.mp h).1

theorem collation_operandOf (name : String) :
    ((t.operandOf name).collation.map Prod.fst).getD .binary = t.sortCollation name := by
  unfold operandOf sortCollation
  cases t.columnPlace? name with
  | none => rfl
  | some i =>
    simp only [Resolver.columnOperand]
    cases h : t.columns[i]? with
    | none => rfl
    | some c => rfl

theorem evalEach_eq {α : Type} {g : α → Formula} {c : α → Cell} {scope : Scope} {l : List α}
    (h : ∀ a ∈ l, (g a).eval scope = .ok (c a)) :
    Formula.evalEach scope (l.map g) = .ok (l.map c) := by
  induction l with
  | nil => rfl
  | cons a l ih =>
    rw [List.map_cons, Formula.evalEach, h a List.mem_cons_self,
      ih fun b hb => h b (List.mem_cons_of_mem _ hb)]
    rfl

def compareBy (t : Table) (k : SortTerm) (a b : Row) : Ordering :=
  directed (!k.ascending) (Cell.order (t.sortCollation k.column) (t.sortCell k.column a)
    (t.sortCell k.column b))

/-- How rows compare under some terms of an ordering: the first that tells them apart decides. -/
def compareRows (t : Table) (ks : List SortTerm) : Row → Row → Ordering :=
  lexicographic (ks.map t.compareBy)

instance (ks : List SortTerm) : Std.TransCmp (t.compareRows ks) := by
  refine transCmp_lexicographic fun key hkey => ?_
  obtain ⟨k, -, rfl⟩ := List.mem_map.mp hkey
  have := transCmp_on (Cell.order (t.sortCollation k.column)) (t.sortCell k.column)
  exact transCmp_directed _ _

theorem order_keys (ks : List SortTerm) (a b : Row) :
    OrderKey.order (ks.map t.orderKey) (ks.map fun k => t.sortCell k.column a)
      (ks.map fun k => t.sortCell k.column b) = t.compareRows ks a b := by
  induction ks with
  | nil => rfl
  | cons k ks ih =>
    show Ordering.then _ (OrderKey.order _ _ _) = _
    rw [ih]
    unfold orderKey
    simp only [collation_operandOf]
    rfl

/-- The select of all columns gives the window of the sorted rows on which the condition is true. -/
theorem run_plan {f l o : Option Formula} {ks : List SortTerm} {offset : Nat} {limit : Option Nat}
    {test : Row → Bool} {visited : List Row}
    (hw : (t.plan f ks l o).windowOf s = .ok (offset, limit))
    (ht : ∀ r ∈ visited, SelectPlan.holds f s r = .ok (test r)) :
    (t.plan f ks l o).run s visited = ⟨(window offset limit
      ((visited.filter test).mergeSort fun a b => t.compareRows ks a b != .gt)).map t.read,
        none⟩ := by
  have hkeys : ∀ r ∈ visited, SelectPlan.values
      ((t.plan f ks l o).orderings.map OrderKey.formula) s r =
        .ok (ks.map fun k => t.sortCell k.column r) := by
    intro r _
    have heach : Formula.evalEach (SelectPlan.scopeOf s r)
        (ks.map fun k => (t.operandOf k.column).formula) =
          .ok (ks.map fun k => t.sortCell k.column r) :=
            evalEach_eq fun k _ => eval_operandOf k.column
    show SelectPlan.values ((ks.map t.orderKey).map OrderKey.formula) s r = _
    rw [List.map_map]
    exact heach
  have hresults : ∀ r ∈ visited, SelectPlan.values (t.plan f ks l o).results s r =
      .ok (t.read r) := by
    intro r _
    exact evalEach_eq fun p hp => eval_columnOperand (by
      have := List.snd_lt_add_of_mem_zipIdx hp
      omega)
  rw [SelectPlan.run_eq rfl rfl hw ht hkeys hresults]
  simp only [show (t.plan f ks l o).orderings = ks.map t.orderKey from rfl, order_keys]

end Table

theorem Table.scan_perm (t : Table) : t.scan.Perm t.rows := by
  unfold scan
  split
  · exact List.mergeSort_perm _ _
  · exact .refl _

/-- A select visits each row of its table once. -/
theorem SelectPlan.visited_perm (p : SelectPlan) (d : Database) (t : Table) :
    (p.visited d t).Perm t.rows := by
  unfold visited
  split
  · exact t.scan_perm
  · simp only
    split
    · exact (List.reverse_perm _).trans ((List.mergeSort_perm _ _).trans t.scan_perm)
    · exact (List.mergeSort_perm _ _).trans t.scan_perm

end RecordMapper
