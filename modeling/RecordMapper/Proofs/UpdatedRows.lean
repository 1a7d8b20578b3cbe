import RecordMapper.Proofs.ConsistentTables
import RecordMapper.Proofs.Deleting
import RecordMapper.Proofs.UpdateTexts

/-!
# Rows that are updated

An update by key, from its statement to the table.

1. `UpdatePlan.overwrite`: cells with some values in their columns.
2. `UpdatePlan.Sets`: what an update of parameters is resolved to, over a table that has the
   columns. A row on which its condition is true gets the given values (`UpdatePlan.Sets.draft_eq`).
3. `Engine.run_update` and `Session.executeText_update`: where the condition is true on at most one
   row, an update that is carried out has exchanged this row. One that fails has changed no row.
-/

namespace RecordMapper

open Sql (Scalar Parameters)

/-- A step follows one that comes to its end. -/
theorem bind_of_ok {ε α β : Type} {x : Except ε α} {a : α} (h : x = .ok a) {f : α → Except ε β} :
    (x >>= f) = f a := by
  rw [h]
  rfl

/-- The partner of the last of some things comes last. -/
theorem forall₂_concat {α β : Type} {R : α → β → Prop} {as : List α} {a : α} {bs : List β}
    (h : List.Forall₂ R (as ++ [a]) bs) : ∃ cs c, List.Forall₂ R as cs ∧ R a c ∧
    bs = cs ++ [c] := by
  induction as generalizing bs with
  | nil =>
    obtain _ | ⟨ha, h⟩ := h
    cases h
    exact ⟨[], _, .nil, ha, rfl⟩
  | cons x rest ih =>
    obtain _ | ⟨hx, h⟩ := h
    obtain ⟨cs, c, hcs, hc, rfl⟩ := ih h
    exact ⟨_ :: cs, c, .cons hx hcs, hc, rfl⟩

/-- Rows that keep to the constraints have numbers of their own. -/
theorem Database.Consistent.numbered {d : Database} {t : Table} (h : d.Consistent t) :
    t.Numbered := by
  intro a ha b hb hid
  have hsymm : Std.Symm fun a b : Row => a.id ≠ b.id := ⟨fun _ _ h => h.symm⟩
  by_contra hne
  exact (h.ascending.imp fun hlt => ne_of_lt hlt).forall ha hb hne hid

/-! ## Plans -/

namespace Outcome

theorem endsTransaction_steps {α : Type} {before : Database} {mode : Sql.Conflict}
    {step : Outcome → α → Except EngineFault Outcome} (hm : mode ≠ .rollback)
    (hstep : ∀ o a p, step o a = .ok p → p.endsTransaction = o.endsTransaction) {o : Outcome}
    (ho : o.endsTransaction = false) (as : List α) :
    (steps before mode step o as).endsTransaction = false := by
  induction as generalizing o with
  | nil => exact ho
  | cons a rest ih =>
    rw [steps]
    cases hx : step o a with
    | ok p => exact ih ((hstep o a p hx).trans ho)
    | error fault =>
      dsimp only
      split
      · exact ih ho
      · unfold failed
        split
        · exact ho
        · exact decide_eq_false hm

end Outcome

namespace UpdatePlan

variable {d d' : Database} {t known : Table} {ps : Parameters} {names : List String}
  {marks : List Nat} {values : List Cell} {p : UpdatePlan} {r : Row} {s : Scope}

theorem endsTransaction_run (hm : p.mode ≠ .rollback) (d : Database) (s : Scope)
    (visited : List Row) :
    (p.run d s visited).endsTransaction = false := by
  have hstep : ∀ o id q, p.step s o id = .ok q → q.endsTransaction = o.endsTransaction := by
    intro o id q h
    unfold step at h
    split at h
    · split at h
      · cases h
        rfl
      · obtain ⟨draft, -, h⟩ := ok_of_bind h
        obtain ⟨x, -, h⟩ := ok_of_bind h
        cases h
        rfl
    · cases h
  unfold run
  split
  · rfl
  · exact Outcome.endsTransaction_steps hm hstep rfl _

/-- The column that a name means in a setting; the row number is none. -/
def target (t : Table) (name : String) : Option Nat :=
  (t.columnPlace? name).filter fun i => t.rowidColumn != some i

/-- A plan that sets the columns of some names to the values at some marks. -/
structure Sets (p : UpdatePlan) (t : Table) (names : List String) (ps : Parameters)
    (marks : List Nat) :
    Prop where
  mode : p.mode = .abort
  table : p.table = t.name
  settings : p.settings =
    List.zipWith (fun name mark => (target t name, .parameter (ps.indexAt mark))) names marks

theorem sets_of {table : String} {a : Option Scalar} (ht : d.table? table = some known)
    (hbare : known.bare = t.bare) (hnames : ∀ name ∈ names, (t.columnPlace? name).isSome)
    (h : UpdatePlan.of d ps .abort table (Sql.settingsAt names marks) a = .ok p) :
    p.Sets t names ps marks ∧
      ∃ noted, a.mapM (Resolver.formula (.over known ps)) [] = .ok (p.condition, noted) := by
  have hplace : known.columnPlace? = t.columnPlace? := by
    funext name
    unfold Table.columnPlace?
    rw [(Table.sameColumns_of_bare hbare).columns]
  have hrowid := (Table.sameColumns_of_bare hbare).rowidColumn
  have hname : known.name = t.name := show known.bare.name = t.bare.name by rw [hbare]
  obtain ⟨known', hknown, h₁⟩ := ok_of_bind h
  obtain rfl := Option.some.inj ((Database.tableFor_ok hknown).symm.trans ht)
  obtain ⟨settings, hsettings, h₂⟩ := ok_of_bind h₁
  obtain ⟨condition, hcondition, h₃⟩ := ok_of_bind h₂
  cases h₃
  refine ⟨⟨rfl, hname, ?_⟩, SelectPlan.condition_of_formula hcondition⟩
  show settings = _
  clear h h₁ h₂ hcondition
  revert hsettings
  unfold Sql.settingsAt
  induction names generalizing marks settings with
  | nil =>
    rintro ⟨⟩
    rfl
  | cons name rest ih =>
    cases marks with
    | nil =>
      rintro ⟨⟩
      rfl
    | cons mark marks =>
      intro hsettings
      rw [List.zipWith_cons_cons, List.mapM_cons] at hsettings
      obtain ⟨first, hfirst, hsettings⟩ := ok_of_bind hsettings
      obtain ⟨others, hothers, hsettings⟩ := ok_of_bind hsettings
      cases hsettings
      obtain ⟨f, hf, hfirst⟩ := ok_of_bind hfirst
      cases hf
      obtain ⟨i, hi⟩ := Option.isSome_iff_exists.mp (hnames name List.mem_cons_self)
      have htarget : target t name = if t.rowidColumn = some i then none else some i := by
        unfold target
        rw [hi, Option.filter_some]
        by_cases hr : t.rowidColumn = some i
        · rw [if_pos hr, hr, bne_self_eq_false, if_neg Bool.false_ne_true]
        · rw [if_neg hr, if_pos (bne_iff_ne.mpr hr)]
      rw [hplace, hi, hrowid] at hfirst
      cases hfirst
      rw [List.zipWith_cons_cons, htarget,
        ih (fun name hn => hnames name (List.mem_cons_of_mem _ hn)) others hothers]

/-! ### The row of a plan -/

/-- The columns of some names, each with its value. -/
def assigned (t : Table) (names : List String) (values : List Cell) : List (Option Nat × Cell) :=
  List.zipWith (fun name v => (target t name, v)) names values

/-- Cells with a value in a column, in the class that the column prefers; the row number has
no cell. -/
def put (t : Table) (cells : List Cell) (place : Option Nat) (v : Cell) : List Cell :=
  match place with
  | some i => cells.set i (v.stored ((t.columns[i]?.map StoredColumn.affinity).getD .blob))
  | none => cells

/-- Cells with some values in their columns. -/
def overwrite (t : Table) (cells : List Cell) (assigned : List (Option Nat × Cell)) : List Cell :=
  assigned.foldl (fun cells x => put t cells x.1 x.2) cells

section Cells

variable {cells : List Cell} {i : Nat}

theorem length_put (t : Table) (cells : List Cell) (place : Option Nat) (v : Cell) :
    (put t cells place v).length = cells.length := by
  cases place with
  | none => rfl
  | some i => exact List.length_set ..

theorem getElem?_put {s : StoredColumn} (hs : t.columns[i]? = some s) (hi : i < cells.length)
    (place : Option Nat) (v : Cell) :
    (put t cells place v)[i]? =
      if place = some i then some (v.stored s.affinity) else cells[i]? := by
  cases place with
  | none => exact (if_neg nofun).symm
  | some j =>
    by_cases hj : j = i
    · subst hj
      rw [if_pos rfl, put, List.getElem?_set_self hi, hs]
      rfl
    · rw [if_neg fun h => hj (Option.some.inj h), put, List.getElem?_set_ne hj]

theorem length_overwrite (t : Table) (cells : List Cell) (assigned : List (Option Nat × Cell)) :
    (overwrite t cells assigned).length = cells.length := by
  unfold overwrite
  induction assigned generalizing cells with
  | nil => rfl
  | cons x rest ih => exact (ih _).trans (length_put ..)

/-- A column has what was assigned to it, or what it had before. -/
theorem getElem?_overwrite {s : StoredColumn} (hs : t.columns[i]? = some s) (hi : i < cells.length)
    (assigned : List (Option Nat × Cell)) :
    (∀ v, (some i, v) ∉ assigned) ∧ (overwrite t cells assigned)[i]? = cells[i]? ∨
      ∃ v, (some i, v) ∈ assigned ∧
      (overwrite t cells assigned)[i]? = some (v.stored s.affinity) := by
  unfold overwrite
  induction assigned generalizing cells with
  | nil => exact .inl ⟨fun _ => List.not_mem_nil, rfl⟩
  | cons x rest ih =>
    obtain ⟨place, w⟩ := x
    have hput := getElem?_put hs hi place w
    rw [List.foldl_cons]
    have hlen : i < (put t cells place w).length := by rwa [length_put]
    rcases ih hlen with ⟨hno, hsame⟩ | ⟨v, hv, hlast⟩
    · rw [hsame, hput]
      by_cases hplace : place = some i
      · rw [if_pos hplace]
        exact .inr ⟨w, hplace ▸ List.mem_cons_self, rfl⟩
      · rw [if_neg hplace]
        refine .inl ⟨fun v hv => ?_, rfl⟩
        rcases List.mem_cons.mp hv with hfirst | hv
        · exact hplace (Prod.mk.inj hfirst).1.symm
        · exact hno v hv
    · exact .inr ⟨v, List.mem_cons_of_mem _ hv, hlast⟩

end Cells

/-- The values of the settings are those that are bound to their marks. -/
theorem Sets.mapM_eval (h : p.Sets t names ps marks) (hb : Sql.Bound ps s.parameters marks values) :
    (p.settings.mapM fun (i, f) => do return (i, ← f.eval s)) = Except.ok (assigned t names values) := by
  rw [h.settings]
  unfold assigned
  clear h
  induction hb generalizing names with
  | nil =>
    rw [List.zipWith_nil_right, List.zipWith_nil_right]
    rfl
  | @cons mark v marks values hv _ ih =>
    cases names with
    | nil => rfl
    | cons name rest =>
      have heval : (Formula.parameter (ps.indexAt mark)).eval s = .ok v := by
        rw [Formula.eval, hv]
      rw [List.zipWith_cons_cons, List.mapM_cons, List.zipWith_cons_cons]
      show Except.bind (Except.bind ((Formula.parameter (ps.indexAt mark)).eval s) _) _ = _
      rw [heval]
      show Except.bind (List.mapM _ _) _ = _
      rw [ih]
      rfl

/-- Where the values for the row number are that of a row, the row keeps its number and gets the
others. -/
theorem Sets.draft_eq (h : p.Sets t names ps marks) (hb : Sql.Bound ps s.parameters marks values)
    (hid : ∀ x ∈ assigned t names values, x.1 = none →
      ∃ n : Int64, x.2.stored .numeric = .integer n ∧ n.toInt = r.id) :
    p.draft t s r = .ok {
      cells := overwrite t r.cells (assigned t names values), id := some r.id, old := some r
      checked := p.settings.filterMap Prod.fst } := by
  have hvalues : (p.settings.mapM fun (i, f) => do return (i, ← f.eval (SelectPlan.scopeOf s r))) =
      Except.ok (assigned t names values) := h.mapM_eval (s := SelectPlan.scopeOf s r) hb
  generalize assigned t names values = assignments at hid hvalues
  unfold draft
  refine (bind_of_ok hvalues).trans ?_
  clear hvalues
  refine bind_of_ok (a := r.id) ?_
  generalize overwrite t r.cells assignments = cells
  induction assignments with
  | nil => rfl
  | cons x rest ih =>
    obtain ⟨i, v⟩ := x
    have hrest := ih fun x hx => hid x (List.mem_cons_of_mem _ hx)
    rw [List.foldlM_cons]
    cases i with
    | some i => exact hrest
    | none =>
      obtain ⟨n, hn, hnid⟩ := hid _ List.mem_cons_self rfl
      simp only [hn, hnid]
      exact hrest

/-! ### Running -/

/-- A plan whose condition is true on at most one row stores what it makes of this row, or there is
a fault. -/
theorem Sets.run_eq (h : p.Sets t names ps marks) (ht : d.table? t.name = some t)
    (hids : t.Numbered) {visited : List Row} (hv : visited.Perm t.rows) {test : Row → Bool}
    (htest : ∀ r ∈ t.rows, SelectPlan.holds p.condition s r = .ok (test r))
    (hone : (t.rows.filter test).length ≤ 1) (hf : (p.run d s visited).fault = none) :
    (t.rows.filter test = [] ∧ p.run d s visited = { database := d }) ∨
      ∃ r draft d' id, t.rows.filter test = [r] ∧ p.draft t s r = .ok draft ∧
        d.store t .abort draft = .ok (d', id) ∧
        p.run d s visited = { database := d', count := 1 } := by
  have hperm := hv.filter test
  have hrun : p.run d s visited = Outcome.steps d p.mode (p.step s) { database := d }
      ((visited.filter test).map Row.id) := by
    unfold run Run.whole
    rw [Run.select_eq fun r hr => htest r (hv.mem_iff.mp hr)]
  rw [hrun] at hf ⊢
  rcases hrows : t.rows.filter test with _ | ⟨r, _ | ⟨r', rest⟩⟩
  · rw [hrows] at hperm
    rw [hperm.eq_nil]
    exact .inl ⟨rfl, rfl⟩
  · rw [hrows] at hperm
    rw [List.perm_singleton.mp hperm, List.map_singleton] at hf ⊢
    refine .inr ?_
    have hmem : r ∈ t.rows := List.mem_of_mem_filter (hrows ▸ List.mem_singleton_self r)
    have hrow : t.row? r.id = some r := by
      unfold Table.row?
      cases hx : t.rows.find? fun o => o.id == r.id with
      | none => exact absurd (beq_self_eq_true _) (List.find?_eq_none.mp hx r hmem)
      | some o =>
        have hid := List.find?_some hx
        rw [beq_iff_eq] at hid
        rw [hids o (List.mem_of_find?_eq_some hx) r hmem hid]
    have hpassed : ∀ fault, Database.passedOver p.mode fault = false :=
      Database.passedOver_eq_false (by rw [h.mode]; decide)
    simp only [Outcome.steps, hpassed, Bool.false_eq_true, if_false] at hf ⊢
    cases hx : p.step s { database := d } r.id with
    | error fault =>
      rw [hx] at hf
      exact absurd ((Outcome.fault_failed ..).symm.trans hf) (Option.some_ne_none fault)
    | ok o =>
      unfold step at hx
      simp only [h.table, ht, hrow] at hx
      obtain ⟨draft, hdraft, hx⟩ := ok_of_bind hx
      obtain ⟨⟨d', id⟩, hstore, hx⟩ := ok_of_bind hx
      cases hx
      exact ⟨r, draft, d', id, rfl, hdraft, h.mode ▸ hstore, rfl⟩
  · rw [hrows] at hone
    simp at hone

end UpdatePlan

/-! ## Running on the engine -/

namespace Engine

variable {e r : Engine} {t : Table} {table : String} {names : List String} {places : List Nat}
  {values : List Cell}

theorem stores_update {settings : List (String × Scalar)} {a : Option Scalar} :
    (Sql.Statement.update .abort table settings a).Stores := ⟨.abort, rfl, nofun, nofun⟩

theorem of_update {d : Database} {ps : Parameters} {settings : List (String × Scalar)}
    {a : Option Scalar} {program : Program}
    (h : Program.of d ps (.update .abort table settings a) = .ok program) :
    ∃ plan, UpdatePlan.of d ps .abort table settings a = .ok plan ∧ program = .update plan := by
  obtain ⟨plan, hplan, h⟩ := ok_of_bind h
  cases h
  exact ⟨plan, hplan, rfl⟩

/-- What an update by a condition is entered with: a plan that sets its columns, on the rows
of a test. -/
theorem sets_of_enter (hc : e.Current) {p : Prepared} {program : Program} {w : Engine}
    {a b : Scalar} (hx : e.enter p (.update .abort table (Sql.settingsAt names places) (some a)) =
      .ok (program, w))
    (ht : e.content.table? table = some t) (hnames : ∀ name ∈ names, (t.columnPlace? name).isSome)
    (hfilled : Sql.Filled p.parameters p.bindings a b) {g : Option Formula}
    (hg : t.Resolves (some b) g) {test : Row → Bool}
    (htest : ∀ s r, SelectPlan.holds g s r = .ok (test r)) :
    ∃ plan : UpdatePlan, program = .update plan ∧ plan.Sets t names p.parameters places ∧
      (∀ r, SelectPlan.holds plan.condition (w.scope p) r = .ok (test r)) ∧ Alike e w ∧
      ∃ k, w.link.known = some k ∧ k.bare = e.content.bare := by
  obtain ⟨d, hbare, hof, halike, -, ⟨k, hk, hinformed⟩, -⟩ := enter_bare hc (fun h => by
    obtain ⟨plan, -, rfl⟩ := of_update h
    exact Need.noConfusion) hx
  obtain ⟨plan, hplan, rfl⟩ := of_update hof
  -- the definitions that the plan is resolved over are those of the content
  obtain ⟨known, hknown, hknownbare⟩ := Database.table?_of_bare hbare.symm ht
  obtain ⟨hsets, noted, hcondition⟩ := UpdatePlan.sets_of hknown hknownbare hnames hplan
  obtain ⟨f, hf, hholdalike⟩ :=
    SelectPlan.condition_forth (Table.sameColumns_of_bare hknownbare) (.some hfilled) hg []
  obtain ⟨rfl, -⟩ := Prod.mk.inj (Except.ok.inj (hcondition.symm.trans hf))
  exact ⟨plan, rfl, hsets, fun r => (hholdalike w.link.scope r).trans (htest _ r), halike, k, hk,
    hinformed.trans (congrArg Database.bare halike.content)⟩

/-- What an update over a table leaves of an engine that carries it out, where its condition is true
on at most one row: this row has the given values, or there is none. -/
structure Updated (e : Engine) (t : Table) (names : List String) (values : List Cell)
    (test : Row → Bool) (r : Engine) : Prop where
  keeps : Keeps e r
  informed : ∃ k, r.link.known = some k ∧ k.bare = e.content.bare
  left : (t.rows.filter test = [] ∧ r.content = e.content ∧ r.link.changes = 0) ∨
    ∃ old row draft, t.rows.filter test = [old] ∧ row.id = old.id ∧
      draft.cells = UpdatePlan.overwrite t old.cells (UpdatePlan.assigned t names values) ∧
      e.content.Exchanges t .abort draft old row r.content ∧ r.link.changes = 1

/-- An update of columns of a table exchanges the row on which its condition is true, if it is
carried out. -/
theorem run_update (hs : e.Sane) (hc : e.Current) {p : Prepared} {a b : Scalar}
    (hp : p.statement = some (.update .abort table (Sql.settingsAt names places) (some a)))
    (ht : e.content.table? table = some t) (hids : t.Numbered)
    (hnames : ∀ name ∈ names, (t.columnPlace? name).isSome)
    (hb : Sql.Bound p.parameters p.bindings places values)
    (hfilled : Sql.Filled p.parameters p.bindings a b) {g : Option Formula}
    (hg : t.Resolves (some b) g) {test : Row → Bool}
    (htest : ∀ s r, SelectPlan.holds g s r = .ok (test r)) (hone : (t.rows.filter test).length ≤ 1)
    (hnumber : ∀ r ∈ t.rows, test r = true → ∀ x ∈ UpdatePlan.assigned t names values, x.1 = none →
      ∃ n : Int64, x.2.stored .numeric = .integer n ∧ n.toInt = r.id)
    (hrun : e.run p = (⟨[], none⟩, r)) : e.Updated t names values test r := by
  cases hx : e.enter p (.update .abort table (Sql.settingsAt names places) (some a)) with
  | error fault =>
    cases (run_error hp hx).symm.trans hrun
  | ok x =>
    obtain ⟨program, w⟩ := x
    obtain ⟨plan, rfl, hsets, hholds, halike, k, hk, hinformed⟩ :=
      sets_of_enter hc hx ht hnames hfilled hg htest
    have hprogram := (enter_stores stores_update hx).1
    rw [run_changes hp hx hprogram] at hrun
    obtain ⟨hfault, hr⟩ := Prod.mk.inj hrun
    have hchanged : w.changed (.update plan) ((Program.update plan).change w.content (w.scope p)) =
        (none, r) := Prod.ext (congrArg Run.fault hfault) hr
    have hwhole := hprogram.whole w.content (w.scope p)
    rw [halike.content] at hchanged hwhole
    have hname : e.content.table? t.name = some t := Database.table?_name ht
    have hchange : (Program.update plan).change e.content (w.scope p) =
        plan.run e.content (w.scope p) t.scan := by
      show plan.run _ _ (((e.content.table? plan.table).map Table.scan).getD []) = _
      rw [hsets.table, hname]
      rfl
    rw [hchange] at hchanged hwhole
    have hkeeps := leaves_changed hs halike (.update plan) hwhole
    rw [hchanged] at hkeeps
    have hkeeps : Keeps e r := by
      cases hkeeps with
      | done h => exact h
    obtain ⟨hcontent, hcount, -, hknows⟩ := counted_changed rfl hchanged
    have hinformed : ∃ k, r.link.known = some k ∧ k.bare = e.content.bare :=
      ⟨k, hknows.trans hk, hinformed⟩
    refine ⟨hkeeps, hinformed, ?_⟩
    rcases hsets.run_eq (s := w.scope p) hname hids t.scan_perm (fun r _ => hholds r) hone
      (fault_changed hchanged) with
      ⟨hnone, hout⟩ | ⟨old, draft, d', id, hold, hdraft, hstore, hout⟩
    · rw [hout] at hcontent hcount
      exact .inl ⟨hnone, hcontent, hcount⟩
    · rw [hout] at hcontent hcount
      obtain ⟨hmem, htrue⟩ := List.mem_filter.mp (hold ▸ List.mem_singleton_self old)
      rw [hsets.draft_eq hb (hnumber old hmem htrue)] at hdraft
      obtain rfl := Except.ok.inj hdraft
      have habort : Sql.Conflict.abort ≠ .replace := nofun
      obtain ⟨row, hid, hexchanges⟩ := Database.exchanges_of_store rfl rfl habort hstore
      have hcontent : r.content = d' := hcontent
      rw [hcontent]
      exact .inr ⟨old, row, _, hold, hid, rfl, hexchanges, hcount⟩

theorem run_update_fault (hs : e.Sane) (hc : e.Current) {p : Prepared}
    {settings : List (String × Scalar)} {a : Option Scalar}
    (hp : p.statement = some (.update .abort table settings a)) {run : Run (List Cell)}
    (hrun : e.run p = (run, r)) {fault : EngineFault} (hf : run.fault = some fault) :
    Keeps e r ∧ r.content = e.content := by
  cases hx : e.enter p (.update .abort table settings a) with
  | error fault =>
    obtain ⟨-, rfl⟩ := Prod.mk.inj ((run_error hp hx).symm.trans hrun)
    exact ⟨⟨⟨rfl, rfl, fun _ => rfl⟩, ⟨hs.clean, hs.bare⟩, id⟩, rfl⟩
  | ok x =>
    obtain ⟨program, w⟩ := x
    obtain ⟨hprogram, halike⟩ := enter_stores stores_update hx
    obtain ⟨d, -, hof, -⟩ := enter_bare hc (fun h => by
      obtain ⟨plan, -, rfl⟩ := of_update h
      nofun) hx
    obtain ⟨plan, -, rfl⟩ := of_update hof
    rw [run_changes hp hx hprogram] at hrun
    obtain ⟨rfl, rfl⟩ := Prod.mk.inj hrun
    have hwhole := hprogram.whole w.content (w.scope p)
    have hends : ((Program.update plan).change w.content (w.scope p)).endsTransaction = false := by
      cases hprogram with
      | update hm => exact UpdatePlan.endsTransaction_run hm.2 _ _ _
    rw [halike.content] at hwhole hends hf ⊢
    exact ⟨keeps_changed hs halike.same halike.alone (.update plan) hends,
      content_changed hs halike hwhole hends (Prod.ext hf rfl)⟩

end Engine

/-! ## Running on a session -/

namespace Session

open RecordMapper.Action

variable {alone : Bool} {s t : Session} {text name : String} {names : List String}
  {values : List Value}

/-- An update that fails changes no row, and stays in the transaction. -/
theorem executeText_update_error (hs : s.Usable alone) (hc : s.Current)
    {settings : List (String × Scalar)} {a : Option Scalar} {ps : Parameters}
    (hread : Sql.ReadsAs text (some (.update .abort name settings a), ps)) {e : Error}
    (h : executeText text values s = (.error e, t)) :
    Stays alone s t ∧ t.nesting.rows = s.nesting.rows := by
  have hstores : Sql.Stores text := fun st parameters hst => by
    obtain ⟨hsame, -⟩ := Prod.mk.inj (hread.of_ok hst).2
    obtain rfl := Option.some.inj hsame
    exact Engine.stores_update
  obtain ⟨hu, hn, -⟩ := ready_stores hstores hs (values.map .scalar)
  rcases hx : ready (.positional text (values.map .scalar)) s with ⟨f | q, u⟩
  · rw [hx] at hu hn
    obtain ⟨-, rfl⟩ := Prod.mk.inj ((show executeText text values s = (.error f, u) from bind_error hx).symm.trans h)
    exact ⟨hu, congrArg Nesting.rows hn⟩
  · obtain ⟨link, fault, r, hran, hexec⟩ := ran_of_ready hs hc hread Engine.stores_update hx
    obtain ⟨he, rfl⟩ := Prod.mk.inj (hexec.symm.trans h)
    cases fault with
    | none => cases he
    | some fault =>
      obtain ⟨hkeeps, hcontent⟩ :=
        Engine.run_update_fault hran.sane hran.current hran.statement hran.run rfl
      exact ⟨hran.steady.toStays.trans (stays_of_keeps hran.isOpen hran.sane hran.lone u.log hkeeps),
        hcontent.trans hran.content⟩

/-- What the execution of an update leaves of a session, where its condition is true on at most
one row. -/
structure Updates (alone : Bool) (s : Session) (table : Table) (names : List String)
    (cells : List Cell) (test : Row → Bool) (n : Int) (t : Session) : Prop where
  steady : Steady alone s t
  left : (table.rows.filter test = [] ∧ t.nesting.rows = s.nesting.rows ∧ n = 0) ∨
    ∃ old row draft, table.rows.filter test = [old] ∧ row.id = old.id ∧
      draft.cells = UpdatePlan.overwrite table old.cells (UpdatePlan.assigned table names cells) ∧
      s.nesting.rows.Exchanges table .abort draft old row t.nesting.rows ∧ n = 1

/-- The update of a mapping that is carried out has exchanged the row whose key is the last
value. -/
theorem executeText_update (hs : s.Usable alone) (hc : s.Current)
    (hd : s.nesting.rows.Sound) {m : Mapping} {key : Column} {table : Table} {i : Nat}
    (hne : m.updateColumns ≠ []) (ht : s.nesting.rows.table? m.table = some table)
    (hids : table.Numbered) (hnames : ∀ c ∈ m.updateColumns, (table.columnPlace? c.name).isSome)
    (hi : table.columnPlace? key.name = some i) {v : Value}
    (hvalues : values.length = m.updateColumns.length)
    (hone : ∀ x, Stored s.connection.settings.ticks [.scalar v] [x] →
      (table.rows.filter (table.shows i x)).length ≤ 1)
    (hnumber : ∀ cells x, Stored s.connection.settings.ticks (values.map .scalar) cells →
      Stored s.connection.settings.ticks [.scalar v] [x] →
      ∀ r ∈ table.rows, table.shows i x r = true →
        ∀ y ∈ UpdatePlan.assigned table (m.updateColumns.map Column.name) cells, y.1 = none →
          ∃ n : Int64, y.2.stored .numeric = .integer n ∧ n.toInt = r.id) {n : Int}
    (h : executeText (m.updateStatement key) (values ++ [v]) s = (.ok n, t)) :
    ∃ cells x, Stored s.connection.settings.ticks (values.map .scalar) cells ∧
      Stored s.connection.settings.ticks [.scalar v] [x] ∧
      Updates alone s table (m.updateColumns.map Column.name) cells (table.shows i x) n t := by
  obtain ⟨p, u, hready, -⟩ := of_bind_ok h
  obtain ⟨-, hstored, -, -⟩ := of_ready_steady hs hc hready
  rw [List.map_append] at hstored
  obtain ⟨cells, x, hcells, hlast, hbindings⟩ := forall₂_concat hstored
  have hlast : Stored s.connection.settings.ticks [.scalar v] [x] := .cons hlast .nil
  have hlen : cells.length = m.updateColumns.length := by
    rw [← hcells.length_eq, List.length_map, hvalues]
  obtain ⟨places, a, ps, hplaces, hfilled, hread⟩ := Mapping.readsAs_updateStatement hne key hlen x
  obtain ⟨link, fault, r, hran, hexec⟩ := ran_of_ready hs hc hread Engine.stores_update hready
  rw [← hbindings, ← hran.parameters] at hplaces hfilled
  have hnames' : ∀ name ∈ m.updateColumns.map Column.name, (table.columnPlace? name).isSome :=
    List.forall_mem_map.mpr hnames
  obtain ⟨hn, rfl⟩ := Prod.mk.inj (hexec.symm.trans h)
  cases fault with
  | some fault => cases hn
  | none =>
    obtain ⟨hkeeps, ⟨k, hk, hbare⟩, hleft⟩ :=
      Engine.run_update hran.sane hran.current hran.statement
      (hran.content.symm ▸ ht) hids hnames' hplaces hfilled (table.resolves_compared key.name x)
      (table.holds_compareWith hi x) (hone x hlast) (hnumber cells x hcells hlast) hran.run
    rw [hran.content] at hbare hleft
    have hsame : r.content.bare = s.nesting.rows.bare := by
      rcases hleft with ⟨-, hsame, -⟩ | ⟨old, row, draft, -, -, -, hexchanges, -⟩
      · rw [hsame]
      · rw [hexchanges.left]
        exact hd.bare_setTable (List.mem_of_find?_eq_some ht)
    obtain ⟨hsteady, hrows⟩ := hran.steady_withEngine hkeeps fun k' hk' _ => by
      obtain rfl := Option.some.inj (hk'.symm.trans hk)
      exact hbare.trans hsame.symm
    have hn : n = r.link.changes := (Except.ok.inj hn).symm
    refine ⟨cells, x, hcells, hlast, hsteady, ?_⟩
    rw [hrows]
    rcases hleft with ⟨hnone, hsame, hzero⟩ | ⟨old, row, draft, hold, hid, hcells, hexchanges, hone⟩
    · exact .inl ⟨hnone, hsame, hn.trans hzero⟩
    · exact .inr ⟨old, row, draft, hold, hid, hcells, hexchanges, hn.trans hone⟩

end Session

end RecordMapper
