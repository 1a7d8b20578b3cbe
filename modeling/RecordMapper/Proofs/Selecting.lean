import RecordMapper.Engine.Program
import RecordMapper.Proofs.CellOrder

/-!
# What a plan selects

1. `Table.cell`, `Table.read` and `Table.orderBy`: a row as the columns of its table show it, and
   how rows compare under orderings by columns.
2. `Run`: steps that meet no fault are filters and maps.
3. `SelectPlan.run_eq`: a plan on which nothing fails gives the window of the sorted rows that pass.
-/

namespace RecordMapper

open Std

/-! ## Windows -/

/-- The items from an offset on, at most as many as a limit. -/
def window {α : Type} (offset : Nat) (limit : Option Nat) (items : List α) : List α :=
  match limit with
  | none => items.drop offset
  | some n => (items.drop offset).take n

theorem window_map {α β : Type} (f : α → β) (offset : Nat) (limit : Option Nat) (items : List α) :
    window offset limit (items.map f) = (window offset limit items).map f := by
  cases limit with
  | none => exact (List.map_drop ..).symm
  | some n => rw [window, window, List.map_take, List.map_drop]

/-- A window of no items, whatever its offset. -/
theorem window_zero {α : Type} (offset : Nat) (items : List α) :
    window offset (some 0) items = [] := (rfl)

/-! ## Runs without a fault -/

namespace Run

variable {α β : Type}

theorem window_of_items (offset : Nat) (limit : Option Nat) (items : List α) :
    Run.window offset limit ⟨items, none⟩ = ⟨RecordMapper.window offset limit items, none⟩ := by
  cases limit with
  | none => rfl
  | some n =>
    unfold Run.window RecordMapper.window
    simp only [ite_self]

theorem traverse_eq {f : α → Except EngineFault β} {g : α → β} {l : List α}
    (h : ∀ a ∈ l, f a = .ok (g a)) : traverse f l = ⟨l.map g, none⟩ := by
  induction l with
  | nil => rfl
  | cons a r ih =>
    have hr := ih fun b hb => h b (List.mem_cons_of_mem _ hb)
    rw [traverse, h a List.mem_cons_self]
    simp only [hr, List.map_cons]

theorem select_eq {test : α → Except EngineFault Bool} {p : α → Bool} {l : List α}
    (h : ∀ a ∈ l, test a = .ok (p a)) : select test l = ⟨l.filter p, none⟩ := by
  induction l with
  | nil => rfl
  | cons a r ih =>
    have hr := ih fun b hb => h b (List.mem_cons_of_mem _ hb)
    rw [select, h a List.mem_cons_self]
    cases hp : p a with
    | true => simp only [hr, List.filter_cons_of_pos hp]
    | false => rw [List.filter_cons_of_neg (by rw [hp]; decide)]; exact hr

theorem andThen_eq {f : α → Except EngineFault β} {g : α → β} {l : List α}
    (h : ∀ a ∈ l, f a = .ok (g a)) : andThen ⟨l, none⟩ f = ⟨l.map g, none⟩ := by
  unfold andThen
  simp only [traverse_eq h]
  rfl

end Run

/-! ## Rows -/

namespace Table

/-- The cell that a column shows of a row. -/
def cell (t : Table) (i : Nat) (r : Row) : Cell :=
  if t.rowidColumn = some i then Cell.ofInt r.id else r.cells[i]?.getD .null

def read (t : Table) (r : Row) : List Cell := t.columns.zipIdx.map fun (_, i) => t.cell i r

def names (t : Table) : List String := t.columns.map StoredColumn.name

/-- The cell by which a row is ordered: that of the column of the name. A name that no column has is
the same text for every row. -/
def sortCell (t : Table) (name : String) (r : Row) : Cell :=
  match t.columnPlace? name with
  | some i => t.cell i r
  | none => .text name

def sortCollation (t : Table) (name : String) : Collation :=
  match t.columnPlace? name with
  | some i => (t.columns[i]?.map StoredColumn.collation).getD .binary
  | none => .binary

end Table

/-- An ordering by a list of keys: the first that tells two rows apart decides. -/
def lexicographic (keys : List (Row → Row → Ordering)) (a b : Row) : Ordering :=
  keys.foldr (fun key rest => (key a b).then rest) .eq

theorem transCmp_lexicographic {keys : List (Row → Row → Ordering)}
    (h : ∀ key ∈ keys, TransCmp key) : TransCmp (lexicographic keys) := by
  induction keys with
  | nil => exact { eq_swap := rfl, isLE_trans := fun _ _ => rfl }
  | cons key r ih =>
    have := h key List.mem_cons_self
    have := ih fun k hk => h k (List.mem_cons_of_mem _ hk)
    exact inferInstanceAs (TransCmp (compareLex key (lexicographic r)))

/-- A comparison in the other direction where it descends. -/
def directed (descending : Bool) (o : Ordering) : Ordering := if descending then o.swap else o

theorem transCmp_directed {α : Type} (cmp : α → α → Ordering) [TransCmp cmp] (descending : Bool) :
    TransCmp fun a b => directed descending (cmp a b) := by
  cases descending with
  | false => exact inferInstanceAs (TransCmp cmp)
  | true =>
    have h : (fun a b => directed true (cmp a b)) = fun a b => cmp b a :=
      funext fun a => funext fun b => OrientedCmp.eq_swap.symm
    rw [h]
    infer_instance

/-- What is sorted by a lawful comparison is sorted. -/
theorem pairwise_mergeSort_of_transCmp {α : Type} (cmp : α → α → Ordering) [TransCmp cmp]
    (l : List α) : (l.mergeSort fun a b => cmp a b != .gt).Pairwise fun a b => cmp a b ≠ .gt := by
  have hle : ∀ a b, (cmp a b != .gt) = true ↔ (cmp a b).isLE = true := fun a b => by
    cases cmp a b <;> decide
  have hswap : ∀ a b, cmp b a = (cmp a b).swap := fun a b => OrientedCmp.eq_swap
  have hsorted : (l.mergeSort fun a b => cmp a b != .gt).Pairwise fun a b =>
      (cmp a b != .gt) = true :=
    List.pairwise_mergeSort
      (fun a b c hab hbc => (hle a c).mpr (TransCmp.isLE_trans ((hle a b).mp hab) ((hle b c).mp hbc)))
      (fun a b => by
        rw [hswap a b]
        cases cmp a b <;> decide) l
  exact hsorted.imp fun h => bne_iff_ne.mp h

/-! ## Plans without a fault -/

namespace SelectPlan

variable {p : SelectPlan} {s : Scope} {visited : List Row} {offset : Nat} {limit : Option Nat}
  {test : Row → Bool} {keys results : Row → List Cell}

theorem mem_of_mem_window {α : Type} {a : α} {items : List α} (h : a ∈ window offset limit items) :
    a ∈ items := by
  cases limit with
  | none => exact List.mem_of_mem_drop h
  | some n => exact List.mem_of_mem_drop (List.mem_of_mem_take h)

theorem sorted_map (rows : List Row) :
    sorted p.orderings (rows.map fun r => (keys r, results r)) =
      (rows.mergeSort fun a b => OrderKey.order p.orderings (keys a) (keys b) != .gt).map results := by
  unfold sorted
  rw [← List.map_mergeSort (r := fun a b => OrderKey.order p.orderings (keys a) (keys b) != .gt)
    fun _ _ _ _ => rfl, List.map_map]
  rfl

/-- Where nothing fails, a plan without functions of whole columns gives the window of the rows that
pass, sorted by their keys. -/
theorem run_eq (ha : p.aggregates = []) (hd : p.distinct = false)
    (hw : p.windowOf s = .ok (offset, limit))
    (ht : ∀ r ∈ visited, holds p.condition s r = .ok (test r))
    (hk : ∀ r ∈ visited, values (p.orderings.map OrderKey.formula) s r = .ok (keys r))
    (hr : ∀ r ∈ visited, values p.results s r = .ok (results r)) :
    p.run s visited = ⟨(window offset limit ((visited.filter test).mergeSort fun a b =>
      OrderKey.order p.orderings (keys a) (keys b) != .gt)).map results, none⟩ := by
  unfold run
  simp only [hw, ha, List.isEmpty_nil, Bool.not_true, hd, Bool.false_eq_true, if_false]
  by_cases hzero : limit = some 0
  · rw [if_pos hzero, hzero, window_zero, List.map_nil]
  rw [if_neg hzero, Run.select_eq ht]
  by_cases ho : p.orderings = []
  · have hsort : ((visited.filter test).mergeSort fun a b =>
        OrderKey.order p.orderings (keys a) (keys b) != .gt) = visited.filter test := by
      rw [ho]
      exact List.mergeSort_of_pairwise (List.pairwise_of_forall fun _ _ => rfl)
    rw [hsort, ho, List.isEmpty_nil, if_pos rfl, Run.window_of_items, Run.andThen_eq]
    exact fun r h => hr r (List.mem_filter.mp (mem_of_mem_window h)).1
  · have hkeyed : ∀ r ∈ visited.filter test, p.keyed s r = .ok (keys r, results r) := fun r h => by
      unfold keyed
      rw [hk r (List.mem_filter.mp h).1, hr r (List.mem_filter.mp h).1]
      rfl
    rw [if_neg (by rwa [List.isEmpty_iff]), Run.andThen_eq hkeyed]
    show (Run.ofWhole (.ok (sorted p.orderings _))).window offset limit = _
    rw [sorted_map]
    exact (Run.window_of_items _ _ _).trans (by rw [window_map])

end SelectPlan

end RecordMapper
