import RecordMapper.Proofs.Queries

/-!
# Counting the rows of a query

A count is a select of one row that holds the number of the rows that pass. The window of the query
cuts from that one row and not from the rows that are counted.

1. `SelectPlan.of_count`: a select of the count is resolved to its plan.
2. `Table.run_countPlan`: the plan gives the window of the single number.
3. `Session.Views.count_agrees_iff`: a count tells the number of the records of its query just where
   the window of the query leaves all or none of the rows that pass.
-/

namespace RecordMapper

open Sql (Scalar)

/-! ## Reading the item -/

namespace Sql

open Lexeme RecordMapper.Sql.Parser

def countItem (spelling : String) : Selection :=
  .scalar (.call "count" false true [] 7) none spelling

def countLexemes : List Lexeme :=
  [⟨.word "count", "count", 7⟩, ⟨.symbol "(", "(", 12⟩, ⟨.symbol "*", "*", 13⟩,
    ⟨.symbol ")", ")", 14⟩]

theorem anyScalar_count {r : List Lexeme} (hr : Halts r) :
    anyScalar (countLexemes ++ r) = .ok (.call "count" false true [] 7, r) := by
  refine anyScalar_halt _ (fun fuel hf => ?_) hr
  obtain ⟨fuel, rfl⟩ : ∃ k, fuel = k + 2 := ⟨fuel - 2, by
    rw [show countLexemes.length = 4 from rfl] at hf
    omega⟩
  exact operand_call (by decide) (by decide) rfl rfl

theorem Chosen.count (text : String) :
    Chosen text "count(*)" countLexemes (countItem (slice text 7 15)) where
  cut := by
    have hword : Cut (Begins '(') 7 "count".toList
        [⟨.word "count", "count", 7⟩] := by
      refine (Cut.word (by decide)).weaken ?_
      rintro _ ⟨r, rfl⟩
      exact ⟨by rintro _ ⟨⟩; rfl, fun h => absurd (Option.some.inj h) (by decide)⟩
    have hsymbols := (Cut.symbol (o := 12) (s := "(") (by decide)).andThen
      ((Cut.symbol (o := 13) (s := "*") (by decide)).andThen (Cut.symbol (o := 14) (s := ")") (by decide)))
    exact (hword.append hsymbols fun _ _ => ⟨_, rfl⟩).weaken fun _ _ => trivial
  marks := rfl
  starts := ⟨_, _, rfl, rfl, rfl⟩
  reads o r := by
    have hfrom : Halting ⟨.word "from", "from", o⟩ := ⟨rfl, rfl, fun _ => rfl, rfl, rfl, rfl⟩
    have hscalar := anyScalar_count (halts_cons (r := r) hfrom)
    have htaken : (countLexemes ++ ⟨.word "from", "from", o⟩ :: r).take
        ((countLexemes ++ ⟨.word "from", "from", o⟩ :: r).length -
          (⟨.word "from", "from", o⟩ :: r : List Lexeme).length) = countLexemes := by
      rw [List.length_append, Nat.add_sub_cancel, List.take_left]
    have hspelled : spelled text anyScalar (countLexemes ++ ⟨.word "from", "from", o⟩ :: r) =
        .ok ((.call "count" false true [] 7, slice text 7 15), ⟨.word "from", "from", o⟩ :: r) := by
      unfold spelled
      rw [hscalar]
      simp only [bind, Except.bind, htaken]
      rfl
    show selection.single text _ = _
    unfold selection.single
    rw [bind_apply, hspelled]
    rfl

end Sql

/-! ## Plans -/

/-- The number of rows, as a function of whole columns. -/
def Aggregate.rows : Aggregate := ⟨"count", false, [], .binary⟩

def Table.countPlan (t : Table) (name : String) (condition : Option Formula)
    (orderings : List SortTerm) (limit offset : Option Formula) : SelectPlan where
  names := [name]
  results := [.aggregate 0]
  collations := [.binary]
  aggregates := [.rows]
  condition
  orderings := orderings.map t.orderKey
  distinct := false
  limit
  offset

namespace SelectPlan

/-- A select of the count is resolved to its plan. -/
theorem of_count (spelling : String) {d : Database} {parameters : Sql.Parameters} {t : Table}
    {table : String} {condition : Option Scalar} {terms : List Sql.OrderTerm}
    {limit offset : Option Scalar}
    {f l o : Option Formula} {ks : List SortTerm} (ht : d.readable? table = some t)
    (hl : limit.mapM (Naming.formula { parameters }) = .ok l)
    (ho : offset.mapM (Naming.formula { parameters }) = .ok o)
    (hc : condition.mapM (Resolver.formula (.over t parameters)) [.rows] = .ok (f, [.rows]))
    (hk : List.Forall₂ Orders terms ks) :
    SelectPlan.of d parameters { selections := [Sql.countItem spelling], source := some ⟨table, none⟩
                                 condition, orderings := terms, limit, offset } =
      .ok (t.countPlan (spelling) f ks l o) := by
  have hcolumns : ∀ n : Naming, n.aggregates = true → resultColumns n (Sql.countItem spelling) [] =
      .ok ([⟨spelling, { formula := .aggregate 0 }, none⟩], [.rows]) := by
    intro n hn
    have hcall : Resolver.operand n (.call "count" false true [] 7) [] =
        .ok ({ formula := .aggregate 0 }, [.rows]) := by
      show Resolver.call n "count" false true [] 7 [] = _
      unfold Resolver.call
      simp only [hn]
      rfl
    exact Resolver.bind_ok hcall
  unfold SelectPlan.of sourceTable
  simp only [ht, hl, ho, bind, Except.bind, StateT.run, StateT.bind, List.mapM_cons, List.mapM_nil,
    hcolumns, pure, Except.pure, Resolver.stateT_pure, List.flatten_cons, List.flatten_nil,
    List.append_nil, Option.bind]
  have hcondition : condition.mapM (Resolver.formula { table := some t, parameters }) [.rows] =
      .ok (f, [.rows]) := hc
  have hkeys := orderKeys_eq (n := { table := some t, parameters, aggregates := true }) (t := t)
    [⟨spelling, { formula := .aggregate 0 }, none⟩] rfl rfl (by simp) hk 0 [.rows]
  simp only [List.filterMap_cons_none, List.filterMap_nil, Option.map_none, hcondition, hkeys]
  rfl

end SelectPlan

namespace Table

variable {t : Table} {s : Scope} {name : String} {f l o : Option Formula} {ks : List SortTerm}
  {offset : Nat} {limit : Option Nat} {test : Row → Bool} {visited : List Row}

theorem countPlan_eq {t' : Table} (h : t.SameColumns t') : t.countPlan = t'.countPlan := by
  funext name f ks l o
  unfold countPlan orderKey Table.operandOf Table.columnPlace? Resolver.columnOperand
  rw [h.columns, h.rowidColumn]

/-- The count gives the window of the single number of the rows on which the condition is true. -/
theorem run_countPlan (hw : (t.countPlan name f ks l o).windowOf s = .ok (offset, limit))
    (ht : ∀ r ∈ visited, SelectPlan.holds f s r = .ok (test r)) :
    (t.countPlan name f ks l o).run s visited =
      ⟨window offset limit [[Cell.ofInt (visited.filter test).length]], none⟩ := by
  have haggregated : (t.countPlan name f ks l o).aggregated s (visited.filter test) =
      .ok [[Cell.ofInt (visited.filter test).length]] := by
    have hrows : Run.traverse (SelectPlan.values Aggregate.rows.arguments s) (visited.filter test) =
        ⟨(visited.filter test).map fun _ => [], none⟩ := Run.traverse_eq fun _ _ => rfl
    have houtcome : Aggregate.rows.outcome ((visited.filter test).map fun _ => []) =
        .ok (Cell.ofInt (visited.filter test).length) := by
      unfold Aggregate.outcome
      rw [List.length_map]
      rfl
    unfold SelectPlan.aggregated
    show ([Aggregate.rows].mapM _ >>= _) = _
    rw [List.mapM_cons, hrows]
    show (((Aggregate.rows.outcome _) >>= _) >>= _) = _
    rw [houtcome]
    rfl
  unfold SelectPlan.run
  simp only [hw]
  by_cases hzero : limit = some 0
  · rw [if_pos hzero, hzero, window_zero]
  · rw [if_neg hzero, show (t.countPlan name f ks l o).condition = f from rfl, Run.select_eq ht]
    show (Run.ofWhole ((t.countPlan name f ks l o).aggregated s (visited.filter test))).window
      offset limit = _
    rw [haggregated]
    exact Run.window_of_items _ _ _

end Table


/-! ## Counts of a session -/

namespace Session

open SelectPlan (windowFormulas)

variable {s : Session} {link : Link} {m : Mapping} {t : Table} {q : Query} {test : Row → Bool}

/-- A count is the integer of the first row; without a row it is zero. -/
theorem finishScalar_count {p : Prepared} {u v : Session} {items : List (List Cell)} {n : Int64}
    (h : step p u = (.ok ⟨items, none⟩, v)) (hn : items = [] ∧ n = 0 ∨ items = [[.integer n]]) :
    (finishScalar p countType u).1 = .ok (.int n) := by
  unfold finishScalar
  rw [Action.bind_ok h]
  rcases hn with ⟨rfl, rfl⟩ | rfl
  · rfl
  · have htake : countType.take (.int n) = .ok (.int n) := by
      have hlow := n.le_toInt
      have hhigh := n.toInt_lt
      refine if_pos ⟨?_, ?_⟩
      · exact hlow
      · show n.toInt ≤ 9223372036854775807
        omega
    show (Except.mapError _ (countType.take (.int n))) = _
    rw [htake]
    rfl

section

variable {known : Table} {text : String} {arguments : List HostValue} {own : List Cell}
  {good : Sql.Parameters → List Cell → Option Scalar → Prop}

theorem Views.count_run (h : s.Views link q.mapping t) (hj : q.state.joined = false)
    (hz : q.Unbroken)
    (hknown : (Engine.definitions ⟨s.storage, link⟩).readable? q.mapping.table = some known)
    (hsame : known.SameColumns t) (hc : q.Conditioned s.connection.settings.ticks known t link.scope
      test text arguments own good) : ∃ spelling f visited p u v, visited.Perm t.rows ∧
      (∀ r ∈ t.rows, SelectPlan.holds f { link.scope with parameters := own } r = .ok (test r)) ∧
      count q s = finishScalar p countType u ∧
      step p u = (.ok ((t.countPlan spelling f (q.state.orderings.getD [])
          (windowFormulas q.state.limit q.state.offset).1
          (windowFormulas q.state.limit q.state.offset).2).run
        { link.scope with parameters := own } visited), v) := by
  obtain ⟨a, orderings, ps, hread, hcount, hgood, horders⟩ :=
    Sql.readsAs_query q.state q.mapping.table (.count _) hc.part
  obtain ⟨f, hf, hholds⟩ := hc.resolves ps a hgood [.rows]
  obtain ⟨hl, ho⟩ := SelectPlan.formula_windowScalars q.state.limit q.state.offset ps
  have hplan := SelectPlan.of_count (Sql.Parser.slice
    (Sql.queryText q.state "count(*)" q.mapping.table text) 7 15) hknown hl ho hf horders
  rw [Table.countPlan_eq hsame] at hplan
  have hwhole : NoZero (Sql.queryText q.state "count(*)" q.mapping.table text) :=
    (Sql.noZero_queryText ..).mpr ⟨by decide, (Query.unbroken_iff hj hc.condition).mp hz⟩
  obtain ⟨p, u, v, hready, -, hstep⟩ :=
    h.select_apply (hread.read hwhole) rfl hplan hc.stored (Nat.le_of_eq hcount.symm)
  refine ⟨_, f, _, p, u, v, SelectPlan.visited_perm _ _ _, hholds, ?_, hstep⟩
  unfold count
  rw [Action.bind_ok ((congrArg (Action.ofExcept · s)
    (Query.command_apply hj hc.condition "count(*)")).trans (ofExcept_apply _ s))]
  exact Action.bind_ok hready

end

theorem length_window {α : Type} (offset : Nat) (limit : Option Nat) (items : List α) :
    (window offset limit items).length = limit.elim (items.length - offset)
      (fun n => min n (items.length - offset)) := by
  cases limit with
  | none => exact List.length_drop
  | some n => exact List.length_take.trans (congrArg _ List.length_drop)

theorem window_single {α : Type} (offset : Nat) (limit : Option Nat) (a : α) :
    window offset limit [a] = if limit = some 0 ∨ 0 < offset then [] else [a] := by
  rcases offset with _ | offset
  · rcases limit with _ | _ | limit
    · rfl
    · rfl
    · have hkept : ¬(some (limit + 1) = some 0 ∨ 0 < 0) := by simp
      rw [if_neg hkept]
      exact congrArg (a :: ·) List.take_nil
  · rw [if_pos (.inr (Nat.succ_pos offset))]
    rcases limit with _ | limit
    · exact List.drop_eq_nil_of_le (by simp)
    · rw [window, List.drop_eq_nil_of_le (by simp), List.take_nil]

/-- What a count gives: the number of the rows that pass, unless the window drops that one
number. -/
theorem Views.count_apply (h : s.Views link m t) (hm : q.mapping = m) (hj : q.state.joined = false)
    (ht : m.Tests s.connection.settings.ticks t link.scope q.state.predicate test)
    (hn : (t.rows.filter test).length < 2 ^ 63) {records : List Record}
    (hlist : (toList q s).1 = .ok records) : ∃ (offset : Nat) (limit : Option Nat) (n : Int64),
      (Counts q.state.limit → Counts q.state.offset →
        limit = q.state.limit ∧ (limit ≠ some 0 → offset = q.state.offset.getD 0)) ∧
      records.length = (window offset limit (t.rows.filter test)).length ∧
      (count q s).1 = .ok (.int n) ∧
      n.toInt = if limit = some 0 ∨ 0 < offset then 0 else ((t.rows.filter test).length : Int) := by
  have hsifts := h.sifts_of_tests hm ht
  subst hm
  have hz := h.unbroken hj hsifts hlist
  obtain ⟨known, text, arguments, own, good, hknown, hsame, hc⟩ := hsifts
  obtain ⟨f, visited, hv, hf, htoList⟩ := h.toList_run hj hz hknown hsame hc
  obtain ⟨spelling, f', visited', p, u, v, hv', hf', hcount, hstep⟩ :=
    h.count_run hj hz hknown hsame hc
  rw [htoList] at hlist
  cases hw : (t.plan f (q.state.orderings.getD []) (windowFormulas q.state.limit q.state.offset).1
      (windowFormulas q.state.limit q.state.offset).2).windowOf { link.scope with parameters :=
        own } with
  | error fault =>
    unfold SelectPlan.run at hlist
    rw [hw] at hlist
    cases hlist
  | ok w =>
    obtain ⟨offset, limit⟩ := w
    obtain ⟨sorted, hperm, -, hrun⟩ := collect_run (m := q.mapping) hw hv hf
    rw [hrun] at hlist
    have hpass : ∀ r ∈ visited', SelectPlan.holds f' { link.scope with parameters := own } r =
        .ok (test r) := fun r hr => hf' r (hv'.mem_iff.mp hr)
    rw [Table.run_countPlan hw hpass] at hstep
    have hlength : (visited'.filter test).length = (t.rows.filter test).length :=
      (hv'.filter test).length_eq
    rw [hlength] at hstep
    have hfits : FitsInt64 ((t.rows.filter test).length : Int) := by
      unfold FitsInt64 minInt64 maxInt64
      omega
    have hcell : Cell.ofInt (t.rows.filter test).length =
        .integer (Int64.ofInt (t.rows.filter test).length) := by
      unfold Cell.ofInt int64?
      rw [if_pos hfits]
    have hwindow : Counts q.state.limit → Counts q.state.offset →
        limit = q.state.limit ∧ (limit ≠ some 0 → offset = q.state.offset.getD 0) := by
      intro hl ho
      have hgiven := hw.symm.trans (SelectPlan.windowOf_formulas hl ho rfl rfl _)
      cases hgiven
      exact ⟨rfl, fun hne => if_neg hne⟩
    have hrecords : records.length = (window offset limit (t.rows.filter test)).length := by
      rw [← (mapM_eq_ok_iff.mp hlist).length_eq, length_window, length_window, hperm.length_eq]
    rw [hcell] at hstep
    by_cases hzero : limit = some 0 ∨ 0 < offset
    · refine ⟨offset, limit, 0, hwindow, hrecords, ?_, (if_pos hzero).symm⟩
      rw [hcount]
      exact finishScalar_count hstep (.inl ⟨(window_single ..).trans (if_pos hzero), rfl⟩)
    · refine ⟨offset, limit, Int64.ofInt (t.rows.filter test).length, hwindow, hrecords, ?_, ?_⟩
      · rw [hcount]
        exact finishScalar_count hstep (.inr ((window_single ..).trans (if_neg hzero)))
      · rw [if_neg hzero]
        exact toInt_of_int64? (if_pos hfits)

/-- **When a count agrees with the records.** The count of a query whose records can be had tells
their number if and only if the window of the query leaves all or none of the rows that pass: the
window cuts from the one row of the count, and drops it or leaves the number of all rows that pass.
A count under one more condition is the count of the query with that filter. -/
theorem Views.count_agrees_iff (h : s.Views link m t) (hm : q.mapping = m)
    (hj : q.state.joined = false)
    (ht : m.Tests s.connection.settings.ticks t link.scope q.state.predicate test)
    (hn : (t.rows.filter test).length < 2 ^ 63) {records : List Record}
    (hlist : (toList q s).1 = .ok records) : ∃ n : Int64, (count q s).1 = .ok (.int n) ∧
      (∀ q₀ e, q = { q₀ with state := q₀.state.filter e } → (countWhere q₀ e s).1 = .ok (.int n)) ∧
      (n.toInt = records.length ↔
        records = [] ∨ records.length = (t.rows.filter test).length) ∧
      (Counts q.state.limit → Counts q.state.offset → n.toInt =
        if q.state.limit = some 0 ∨ 0 < q.state.offset.getD 0 then 0
        else ((t.rows.filter test).length : Int)) := by
  obtain ⟨offset, limit, n, hwindow, hrecords, hcount, hvalue⟩ := h.count_apply hm hj ht hn hlist
  refine ⟨n, hcount, ?_, ?_, fun hl ho => ?_⟩
  · rintro q₀ e rfl
    exact hcount
  · rw [← List.length_eq_zero_iff, hvalue, hrecords, length_window]
    rcases limit with _ | limit
    · simp only [reduceCtorEq, false_or, Option.elim_none]
      split <;> omega
    · simp only [Option.some_inj, Option.elim_some]
      split <;> omega
  · obtain ⟨rfl, hoffset⟩ := hwindow hl ho
    rw [hvalue]
    by_cases hzero : q.state.limit = some 0
    · rw [if_pos (.inl hzero), if_pos (.inl hzero)]
    · rw [hoffset hzero]

/-- Two notes are counted where the window leaves one of them. -/
theorem count_agrees_iff_notebook :
    let rows : List Row := [⟨1, [.null, .text "a"]⟩, ⟨2, [.null, .text "b"]⟩]
    let s := notebook rows
    let q : Query := { mapping := notes, state := { limit := some 1 } }
    ∃ n : Int64, (toList q s).1 = .ok [⟨"Note", [.int 1, .text "a"]⟩] ∧
      (count q s).1 = .ok (.int n) ∧ n.toInt = 2 := by
  intro rows s q
  have hlist : (toList q s).1 = .ok [⟨"Note", [.int 1, .text "a"]⟩] :=
    ok_of_toOption (by decide +kernel)
  have hall : notes.Tests true (noteTable rows) (Link.scope { id := 0 }) q.state.predicate
      fun _ => true :=
    fun _ _ => rfl
  obtain ⟨n, hcount, -, -, hvalue⟩ :=
    (views_notebook rows).count_agrees_iff rfl rfl hall (by decide) hlist
  exact ⟨n, hlist, hcount, hvalue (by decide) (by decide)⟩

/-- A count does not always tell the number of the records. -/
theorem not_always_count_agrees : ¬ ∀ {s : Session} {link : Link} {m : Mapping}
    {t : Table} {q : Query} {records : List Record}, s.Views link m t → q.mapping = m →
    q.state.joined = false →
      (toList q s).1 = .ok records → (count q s).1 = .ok (.int (Int64.ofInt records.length)) := by
  intro hall
  let s := notebook [⟨1, [.null, .text "a"]⟩, ⟨2, [.null, .text "b"]⟩]
  let q : Query := { mapping := notes, state := { limit := some 1 } }
  have hlist : (toList q s).1 = .ok [⟨"Note", [.int 1, .text "a"]⟩] :=
    ok_of_toOption (by decide +kernel)
  have hcount : (count q s).1 = .ok (.int 2) := ok_of_toOption (by decide +kernel)
  exact absurd ((hall (views_notebook _) rfl rfl hlist).symm.trans hcount) (by decide +kernel)

end Session

end RecordMapper
