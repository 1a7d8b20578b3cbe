import RecordMapper.Proofs.UpdatedRows

/-!
# Missing values

Where the engine reports a column that has to have a value and has none.

1. `Draft.Misses`: a row that is to be stored has null in such a column. Storing a row reports no
   other violation with this code (`Database.misses_of_store`).
2. `InsertPlan.Single.misses_of_run` and `UpdatePlan.Sets.misses_of_run`: what a statement of
   parameters was about to store when it ended with the code.
3. `Engine.fault_of_run` and `Session.fault_of_executeText`: a text that is executed gets the code
   from the run of its statement, and from nothing before or after.
-/

namespace RecordMapper

open Sql (Scalar Parameters)

/-! ## Rows to be stored -/

/-- A row that is to be stored has null in a column that wants a value, which is the fault. -/
structure Draft.Misses (draft : Draft) (t : Table) (fault : EngineFault) (i : Nat)
    (c : StoredColumn) :
    Prop where
  checked : i ∈ draft.checked
  column : t.columns[i]? = some c
  wanted : c.notNull = true
  numbered : t.rowidColumn ≠ some i
  null : draft.cells[i]?.getD .null = .null
  fault : fault = .notNull (t.name ++ "." ++ c.name)

namespace Database

variable {d : Database} {t : Table} {mode : Sql.Conflict} {draft : Draft} {fault : EngineFault}

theorem fault_of_fillNulls (hf : ∀ c ∈ t.columns, c.fallback = none) {checked : List Nat}
    {cells : List Cell} (h : fillNulls t mode checked cells = .error fault) :
    ∃ i ∈ checked, ∃ c, t.columns[i]? = some c ∧ c.notNull = true ∧ t.rowidColumn ≠ some i ∧
      cells[i]?.getD .null = .null ∧ fault = .notNull (t.columnLabel i) := by
  unfold fillNulls at h
  induction checked with
  | nil => cases h
  | cons i rest ih =>
    rw [List.foldlM_cons] at h
    split at h
    · rename_i c hc
      split at h
      · rename_i hnull
        simp only [Bool.and_eq_true, bne_iff_ne] at hnull
        rw [hf c (List.mem_of_getElem? hc)] at h
        refine ⟨i, List.mem_cons_self, c, hc, hnull.1.1, hnull.1.2, Cell.isNull_iff.mp hnull.2, ?_⟩
        cases mode <;> (cases h; rfl)
      · obtain ⟨j, hj, hmissing⟩ := ih h
        exact ⟨j, List.mem_cons_of_mem i hj, hmissing⟩
    · obtain ⟨j, hj, hmissing⟩ := ih h
      exact ⟨j, List.mem_cons_of_mem i hj, hmissing⟩

theorem fault_of_nextId (h : d.nextId t = .error fault) : fault = .full := by
  unfold nextId at h
  extract_lets last floor at h
  split at h
  · cases h
  · split at h
    · cases h
      rfl
    · split at h
      · cases h
      · cases h
        rfl

theorem code_of_clashes {r x : Row} {old : Option Row} (h : (x, fault) ∈ d.clashes t r old) :
    fault.code ≠ 1299 := by
  unfold clashes at h
  extract_lets others byNumber numberFault byIndex at h
  rcases List.mem_append.mp h with h | h
  · obtain ⟨o, -, ho⟩ := List.mem_map.mp h
    obtain ⟨-, rfl⟩ := Prod.mk.inj ho
    unfold numberFault
    split <;> exact Nat.ne_of_beq_eq_false rfl
  · obtain ⟨ix, -, h⟩ := List.mem_flatMap.mp h
    obtain ⟨o, -, ho⟩ := List.mem_map.mp h
    obtain ⟨-, rfl⟩ := Prod.mk.inj ho
    unfold Index.violation
    extract_lets columns labels
    split
    · split <;> exact Nat.ne_of_beq_eq_false rfl
    · exact Nat.ne_of_beq_eq_false rfl

/-- Storing a row ends with the code of a missing value only where one is missing. -/
theorem misses_of_store (hf : ∀ c ∈ t.columns, c.fallback = none) (hchecks : t.checks = [])
    (h : d.store t mode draft = .error fault) (hcode : fault.code = 1299) :
    ∃ i c, draft.Misses t fault i c := by
  unfold store at h
  extract_lets finish at h
  obtain ⟨id, h⟩ : ∃ id, finish id = .error fault := by
    cases hid : draft.id with
    | some id =>
      rw [hid] at h
      exact ⟨id, h⟩
    | none =>
      rw [hid] at h
      rcases error_of_bind h with hnext | ⟨id, -, h⟩
      · rw [fault_of_nextId hnext] at hcode
        cases hcode
      · exact ⟨id, h⟩
  rcases error_of_bind h with hcells | ⟨cells, -, h⟩
  · obtain ⟨i, hi, c, hc, hwanted, hnumbered, hnull, hfault⟩ := fault_of_fillNulls hf hcells
    refine ⟨i, c, hi, hc, hwanted, hnumbered, hnull, hfault.trans ?_⟩
    unfold Table.columnLabel
    rw [hc]
    rfl
  extract_lets filled r found put at h
  have hchecked : failedCheck t r = .ok () := by
    unfold failedCheck
    rw [hchecks]
    rfl
  rcases error_of_bind h with hfailed | ⟨_, -, h⟩
  · rw [hchecked] at hfailed
    cases hfailed
  -- the first row that clashes is what else can be reported
  have hclashes : ∀ x ∈ found, x.2.code ≠ 1299 := fun x hx => code_of_clashes (x := x.1) hx
  clear_value found
  rcases found with _ | ⟨x, more⟩
  · cases h
  · by_cases hmode : mode = .replace
    · dsimp only at h
      rw [if_neg (not_not_intro hmode)] at h
      cases h
    · dsimp only at h
      rw [if_pos hmode] at h
      cases h
      exact absurd hcode (hclashes x List.mem_cons_self)

end Database

/-! ## Inserts -/

namespace InsertPlan

variable {d : Database} {t : Table} {ps : Parameters} {mode : Sql.Conflict} {names : List String}
  {marks : List Nat} {p : InsertPlan} {values : List Cell} {fault : EngineFault}

theorem fault_of_askedId {c : Cell} (h : askedId c = .error fault) : fault = .mismatch := by
  unfold askedId at h
  split at h
  · cases h
  · split at h
    · cases h
    · cases h
      rfl

theorem fault_of_draft (h : p.draft t values = .error fault) : fault = .mismatch := by
  unfold draft at h
  extract_lets cells at h
  split at h
  · rcases error_of_bind h with h | ⟨_, -, h⟩
    · exact fault_of_askedId h
    · cases h
  · rcases error_of_bind h with h | ⟨_, -, h⟩
    · exact fault_of_askedId h
    · cases h
  · cases h

/-- A plan of one row that ends with the code was about to store this row. -/
theorem Single.misses_of_run (h : p.Single mode t names ps marks) (hmode : mode ≠ .ignore)
    (ht : d.table? t.name = some t) (hfallback : ∀ c ∈ t.columns, c.fallback = none)
    (hchecks : t.checks = []) {s : Scope} (hb : Sql.Bound ps s.parameters marks values)
    (hf : (p.run d s).fault = some fault) (hcode : fault.code = 1299) :
    ∃ draft i c, p.draft t values = .ok draft ∧ draft.Misses t fault i c := by
  unfold run at hf
  rw [h.sourceRows_eq hb] at hf
  simp only [Outcome.steps, Database.passedOver_eq_false (h.mode ▸ hmode)] at hf
  cases hx : p.step { database := d } values with
  | ok o =>
    obtain ⟨_, _, _, _, -, -, -, rfl⟩ := of_step hx
    rw [hx] at hf
    cases hf
  | error fault' =>
    rw [hx] at hf
    simp only [Outcome.fault_failed, Bool.false_eq_true, if_false] at hf
    obtain rfl : fault' = fault := by
      split at hf
      · exact Option.some.inj hf
      · exact Option.some.inj ((Outcome.fault_failed ..).symm.trans hf)
    unfold step at hx
    simp only [h.table, ht] at hx
    rcases error_of_bind hx with hdraft | ⟨draft, hdraft, hx⟩
    · rw [fault_of_draft hdraft] at hcode
      cases hcode
    rcases error_of_bind hx with hstore | ⟨_, -, hx⟩
    · obtain ⟨i, c, hmisses⟩ := Database.misses_of_store hfallback hchecks hstore hcode
      exact ⟨draft, i, c, hdraft, hmisses⟩
    · cases hx

end InsertPlan

/-! ## Updates -/

/-- A fault of a statement comes from one of its steps; what every step keeps holds before
this one. -/
theorem Outcome.fault_of_steps {α : Type} {before : Database} {mode : Sql.Conflict}
    {step : Outcome → α → Except EngineFault Outcome} {P : Outcome → Prop}
    (hstep : ∀ o a o', P o → step o a = .ok o' → P o')
    (hnone : ∀ o, P o → o.fault = none) {o : Outcome} (ho : P o) {as : List α} {fault : EngineFault}
    (h : (steps before mode step o as).fault = some fault) :
    ∃ o a, P o ∧ step o a = .error fault := by
  induction as generalizing o with
  | nil =>
    rw [steps, hnone o ho] at h
    cases h
  | cons a rest ih =>
    rw [steps] at h
    cases hx : step o a with
    | ok o' =>
      rw [hx] at h
      exact ih (hstep o a o' ho hx) h
    | error fault' =>
      rw [hx] at h
      dsimp only at h
      split at h
      · exact ih ho h
      · rw [fault_failed] at h
        exact ⟨o, a, ho, hx.trans (congrArg Except.error (Option.some.inj h))⟩

/-- Every row of a table has a cell for every column. -/
def Table.Whole (t : Table) : Prop := ∀ r ∈ t.rows, r.cells.length = t.columns.length

theorem Table.exists_of_bare {t u : Table} (h : u.bare = t.bare) :
    ∃ rows, u = { t with rows := rows } := by
  cases t
  cases u
  cases h
  exact ⟨_, rfl⟩

/-- A database has a table, with whatever rows as long as they are whole. -/
def Database.HasWhole (d : Database) (t : Table) : Prop :=
  ∃ u : Table, u.bare = t.bare ∧ d.table? t.name = some u ∧ u.Whole

namespace UpdatePlan

variable {d : Database} {t : Table} {ps : Parameters} {names : List String} {marks : List Nat}
  {values : List Cell} {p : UpdatePlan} {r : Row} {s : Scope} {fault : EngineFault}

theorem Sets.of_draft (h : p.Sets t names ps marks) (hb : Sql.Bound ps s.parameters marks values)
    {draft : Draft} (hd : p.draft t s r = .ok draft) :
    draft.cells = overwrite t r.cells (assigned t names values) ∧
      draft.old = some r ∧ draft.checked = p.settings.filterMap Prod.fst := by
  have hvalues := h.mapM_eval (s := SelectPlan.scopeOf s r) hb
  unfold UpdatePlan.draft at hd
  obtain ⟨id, -, hd⟩ := ok_of_bind ((bind_of_ok hvalues).symm.trans hd)
  cases hd
  exact ⟨rfl, rfl, rfl⟩

theorem Sets.fault_of_draft (h : p.Sets t names ps marks)
    (hb : Sql.Bound ps s.parameters marks values) (hd : p.draft t s r = .error fault) :
    fault = .mismatch := by
  have hvalues := h.mapM_eval (s := SelectPlan.scopeOf s r) hb
  unfold UpdatePlan.draft at hd
  rcases error_of_bind ((bind_of_ok hvalues).symm.trans hd) with hd | ⟨id, -, hd⟩
  · clear hvalues
    generalize r.id = id at hd
    generalize assigned t names values = assignments at hd
    induction assignments generalizing id with
    | nil => cases hd
    | cons x rest ih =>
      obtain ⟨place, v⟩ := x
      rw [List.foldlM_cons] at hd
      rcases error_of_bind hd with hd | ⟨id', -, hd⟩
      · cases place with
        | some i => cases hd
        | none =>
          dsimp only at hd
          split at hd
          · cases hd
          · cases hd
            rfl
      · exact ih id' hd
  · cases hd

theorem Sets.of_mem_checked (h : p.Sets t names ps marks) {i : Nat}
    (hi : i ∈ p.settings.filterMap Prod.fst) :
    ∃ name ∈ names, target t name = some i := by
  obtain ⟨setting, hsetting, hplace⟩ := List.mem_filterMap.mp hi
  rw [h.settings] at hsetting
  obtain ⟨k, hk⟩ := List.getElem?_of_mem hsetting
  obtain ⟨name, mark, hname, -, rfl⟩ := List.getElem?_zipWith_eq_some.mp hk
  exact ⟨name, List.mem_of_getElem? hname, hplace⟩

/-- What a plan sets is a matter of the definition of its table. -/
theorem Sets.of_bare (h : p.Sets t names ps marks) {u : Table} (hu : u.bare = t.bare) :
    p.Sets u names ps marks := by
  have htarget : target u = target t := by
    funext name
    unfold target Table.columnPlace?
    rw [(Table.sameColumns_of_bare hu).columns, (Table.sameColumns_of_bare hu).rowidColumn]
  have hname : u.bare.name = t.bare.name := by rw [hu]
  exact ⟨h.mode, h.table.trans hname.symm, htarget ▸ h.settings⟩

theorem Sets.hasWhole_of_store (h : p.Sets t names ps marks)
    (hb : Sql.Bound ps s.parameters marks values) (hfallback : ∀ c ∈ t.columns, c.fallback = none)
    (ht : d.table? t.name = some t) (hwhole : t.Whole) (hr : r ∈ t.rows) {draft : Draft}
    (hdraft : p.draft t s r = .ok draft) {d' : Database} {id : Int}
    (hstore : d.store t p.mode draft = .ok (d', id)) : d'.HasWhole t := by
  obtain ⟨row, -, hplaces⟩ := Database.places_of_store hstore
  obtain ⟨cells, hfilled, hrow⟩ := hplaces.cells
  obtain ⟨sequences, -, hleft⟩ := hplaces.left
  rw [Database.fillNulls_eq hfallback hfilled, (h.of_draft hb hdraft).1] at hrow
  have hlength : row.cells.length = t.columns.length := by
    rw [hrow]
    split
    · rw [List.length_set, length_overwrite, hwhole r hr]
    · rw [length_overwrite, hwhole r hr]
  have hset := Database.table?_setTable (u := { t with rows := Table.place row (d.remaining t draft row) })
    ht rfl t.name
  rw [if_pos (sameFolded_refl _)] at hset
  refine ⟨{ t with rows := Table.place row (d.remaining t draft row) }, rfl, hleft ▸ hset,
    fun x hx => ?_⟩
  rcases Table.mem_place.mp hx with rfl | hx
  · exact hlength
  · exact hwhole x (List.mem_of_mem_filter hx)

/-- A plan that ends with the code was about to store a row in which a set column misses its
value. -/
theorem Sets.misses_of_run (h : p.Sets t names ps marks)
    (hb : Sql.Bound ps s.parameters marks values) (ht : d.table? t.name = some t)
    (hfallback : ∀ c ∈ t.columns, c.fallback = none) (hchecks : t.checks = []) (hwhole : t.Whole)
    {visited : List Row} {test : Row → Bool}
    (htest : ∀ r ∈ visited, SelectPlan.holds p.condition s r = .ok (test r))
    (hf : (p.run d s visited).fault = some fault) (hcode : fault.code = 1299) :
    ∃ (cells : List Cell) (draft : Draft) (i : Nat) (c : StoredColumn),
    cells.length = t.columns.length ∧
      draft.cells = overwrite t cells (assigned t names values) ∧
      draft.checked = p.settings.filterMap Prod.fst ∧ draft.Misses t fault i c := by
  unfold run Run.whole at hf
  rw [Run.select_eq htest] at hf
  have hdefinition : ∀ {u : Table}, u.bare = t.bare → p.Sets u names ps marks ∧
      (∀ c ∈ u.columns, c.fallback = none) := fun hu =>
    ⟨h.of_bare hu, (Table.sameColumns_of_bare hu).columns ▸ hfallback⟩
  have hstep : ∀ (o : Outcome) id o', o.fault = none ∧ o.database.HasWhole t →
    p.step s o id = .ok o' →
      o'.fault = none ∧ o'.database.HasWhole t := by
    rintro o id o' ⟨hnone, u, hu, hthere, hall⟩ hx
    obtain ⟨hsets, hfallback⟩ := hdefinition hu
    have hname : u.bare.name = t.bare.name := by rw [hu]
    change u.name = t.name at hname
    unfold step at hx
    rw [h.table, hthere] at hx
    dsimp only at hx
    split at hx
    · cases hx
      exact ⟨hnone, u, hu, hthere, hall⟩
    · rename_i r hr
      obtain ⟨draft, hdraft, hx⟩ := ok_of_bind hx
      obtain ⟨⟨d', id'⟩, hstore, hx⟩ := ok_of_bind hx
      cases hx
      obtain ⟨v, hv, hleft, hwhole⟩ := hsets.hasWhole_of_store hb hfallback (hname ▸ hthere) hall
        (List.mem_of_find?_eq_some hr) hdraft hstore
      exact ⟨hnone, v, hv.trans hu, hname ▸ hleft, hwhole⟩
  obtain ⟨o, id, ⟨-, u, hu, hthere, hall⟩, hx⟩ := Outcome.fault_of_steps hstep (fun o ho => ho.1)
    (o := { database := d }) ⟨rfl, t, rfl, ht, hwhole⟩ hf
  obtain ⟨hsets, hfallback⟩ := hdefinition hu
  unfold step at hx
  rw [h.table, hthere] at hx
  dsimp only at hx
  split at hx
  · cases hx
  · rename_i r hr
    rcases error_of_bind hx with hdraft | ⟨draft, hdraft, hx⟩
    · rw [hsets.fault_of_draft hb hdraft] at hcode
      cases hcode
    rcases error_of_bind hx with hstore | ⟨x, -, hx⟩
    · obtain ⟨hcells, -, hchecked⟩ := hsets.of_draft hb hdraft
      have hunchecked : u.bare.checks = t.bare.checks := by rw [hu]
      obtain ⟨i, c, hmisses⟩ :=
        Database.misses_of_store hfallback (hunchecked.trans hchecks) hstore hcode
      have hlength := hall r (List.mem_of_find?_eq_some hr)
      obtain ⟨rows, rfl⟩ := Table.exists_of_bare hu
      exact ⟨r.cells, draft, i, c, hlength, hcells, hchecked, hmisses.checked, hmisses.column,
        hmisses.wanted, hmisses.numbered, hmisses.null, hmisses.fault⟩
    · cases hx

end UpdatePlan

/-! ## Statements that are refused -/

theorem Database.code_of_tableFor {d : Database} {action name : String} {missing : EngineFault}
    (hm : missing.code = 1) {f : LocatedFault} (h : d.tableFor action name missing = .error f) :
    f.fault.code = 1 := by
  unfold tableFor at h
  split at h
  · cases h
  · cases h
    rfl
  · cases h
    exact hm

namespace InsertPlan

variable {d : Database} {ps : Parameters} {mode : Sql.Conflict} {table : String}
  {names : List String} {marks : List Nat} {f : LocatedFault}

theorem code_of {columns : Option (List String)} {source : Sql.InsertSource}
    {x : RowSource × Option Nat} (hx : resolveSource d ps source = .ok x)
    (h : of d ps mode table columns source = .error f) :
    f.fault.code = 1 := by
  unfold of at h
  rcases error_of_bind h with h | ⟨t, -, h⟩
  · exact Database.code_of_tableFor rfl h
  extract_lets counted at h
  have hcounted : ∀ wanted, counted wanted = .error f → f.fault.code = 1 := by
    intro wanted h
    rcases error_of_bind h with h | ⟨⟨source', count⟩, -, h⟩
    · rw [hx] at h
      cases h
    · dsimp only at h
      split at h
      · split at h
        · cases h
          dsimp only
          split <;> rfl
        · cases h
      · cases h
  cases columns with
  | none => exact hcounted _ h
  | some names =>
    rcases error_of_bind h with h | ⟨wanted, -, h⟩
    · obtain ⟨name, -, h⟩ := error_of_mapM h
      split at h
      · cases h
      · split at h
        · cases h
        · cases h
          rfl
    · exact hcounted wanted h

theorem code_of_insertRow (h : Program.of d ps (.insertRow mode table names marks) = .error f) :
    f.fault.code = 1 := by
  unfold Sql.Statement.insertRow at h
  split at h
  · rcases error_of_bind h with h | ⟨_, -, h⟩
    · exact code_of (show resolveSource d ps .defaults = .ok (.formulas [[]], none) from rfl) h
    · cases h
  · rcases error_of_bind h with h | ⟨_, -, h⟩
    · refine code_of (x := (.formulas [marks.map fun mark => .parameter (ps.indexAt mark)], some marks.length)) ?_ h
      simp only [resolveSource, List.mapM_cons, List.mapM_nil, formula_parameters, bind,
        Except.bind, pure, Except.pure, List.all_nil, if_true, List.length_map]
    · cases h

end InsertPlan

theorem UpdatePlan.code_of_update {d : Database} {ps : Parameters} {table key : String}
    {names : List String} {places : List Nat} {a : Scalar} {cells : List Cell} {x : Cell}
    {f : LocatedFault}
    (ha : Sql.Filled ps cells a (.binary .eq (.column none key true 0) (.literal x)))
    (h : Program.of d ps (.update .abort table (Sql.settingsAt names places) (some a)) = .error f) :
    f.fault.code = 1 := by
  rcases error_of_bind h with h | ⟨_, -, h⟩
  · unfold UpdatePlan.of at h
    rcases error_of_bind h with h | ⟨t, -, h⟩
    · exact Database.code_of_tableFor rfl h
    rcases error_of_bind h with h | ⟨settings, -, h⟩
    · obtain ⟨⟨name, value⟩, hsetting, h⟩ := error_of_mapM h
      obtain ⟨place, rfl⟩ : ∃ place, value = Scalar.parameter place := by
        obtain ⟨i, hi⟩ := List.getElem?_of_mem hsetting
        obtain ⟨_, place, -, -, hsame⟩ := List.getElem?_zipWith_eq_some.mp hi
        exact ⟨place, (Prod.mk.inj hsame).2.symm⟩
      rcases error_of_bind h with h | ⟨_, -, h⟩
      · cases h
      · split at h
        · cases h
        · split at h
          · cases h
          · cases h
            rfl
    rcases error_of_bind h with h | ⟨condition, -, h⟩
    · obtain ⟨_, hresolved, -⟩ := SelectPlan.condition_forth (t := t) ⟨rfl, rfl⟩ (.some ha)
        (t.resolves_compared key x) []
      rw [Option.mapM_some, map_eq_pure_bind] at hresolved
      obtain ⟨g, mid, hg, -⟩ := Resolver.of_bind_ok hresolved
      have hformula : Naming.formula (.over t ps) a = .ok g := congrArg (Except.map Prod.fst) hg
      rw [Option.mapM_some, show Naming.formula { table := some t, parameters := ps } a = .ok g from hformula] at h
      cases h
    · cases h
  · cases h

/-! ## Running on the engine -/

namespace Engine

variable {e r : Engine} {p : Prepared} {fault : EngineFault}

theorem code_of_acquireRead (h : e.acquireRead = .error fault) : fault.code ≠ 1299 := by
  unfold acquireRead at h
  split at h
  · cases h
  · split at h
    · cases h
    · cases h
      decide

theorem code_of_acquireWrite (h : e.acquireWrite = .error fault) : fault.code ≠ 1299 := by
  unfold acquireWrite at h
  split at h
  · cases h
    decide
  · split at h
    · cases h
    · split at h
      · rename_i hread
        cases h
        exact code_of_acquireRead hread
      · split at h
        · cases h
        · cases h
          decide

theorem code_of_refreshed (h : e.refreshed = .error fault) : fault.code ≠ 1299 := by
  rcases error_of_bind h with h | ⟨_, -, h⟩
  · exact code_of_acquireRead h
  · cases h

theorem code_of_informed {s : Sql.Statement} (h : e.informed s = .error fault) :
    fault.code ≠ 1299 := by
  unfold informed at h
  split at h
  · exact code_of_refreshed h
  · cases h

theorem code_of_renewed {ps : Parameters} {s : Sql.Statement} (h : e.renewed ps s = .error fault) :
    fault.code ≠ 1299 := by
  rcases error_of_bind h with h | ⟨q, -, h⟩
  · exact code_of_informed h
  · split at h
    · cases h
    · split at h
      · exact code_of_refreshed h
      · cases h

theorem code_of_enter {s : Sql.Statement}
    (hs : ∀ {d : Database} {f : LocatedFault}, Program.of d p.parameters s = .error f →
      f.fault.code = 1)
    (h : e.enter p s = .error fault) : fault.code ≠ 1299 := by
  have hresolve : ∀ {q : Engine}, (q.resolve p.parameters s).mapError LocatedFault.fault =
    .error fault →
      fault.code ≠ 1299 := by
    intro q h
    cases hq : q.resolve p.parameters s with
    | ok program =>
      rw [hq] at h
      cases h
    | error f =>
      rw [hq] at h
      cases h
      rw [hs hq]
      decide
  have hacquire : ∀ {q : Engine} {need : Need}, q.acquire need = .error fault →
      fault.code ≠ 1299 := by
    intro q need h
    cases need with
    | nothing => cases h
    | reading => exact code_of_acquireRead h
    | writing => exact code_of_acquireWrite h
  rcases error_of_bind h with h | ⟨_, -, h⟩
  · exact code_of_renewed h
  unfold engage at h
  rcases error_of_bind h with h | ⟨program, -, h⟩
  · exact hresolve h
  rcases error_of_bind h with h | ⟨w, -, h⟩
  · exact hacquire h
  split at h
  · cases h
  · split at h
    · cases h
    · rcases error_of_bind h with h | ⟨program', -, h⟩
      · exact hresolve h
      rcases error_of_bind h with h | ⟨_, -, h⟩
      · exact hacquire h
      · cases h

theorem fault_of_changed {program : Program} {o : Outcome}
    (h : (r.changed program o).1 = some fault) :
    o.fault = some fault ∨ fault = .busy := by
  unfold changed at h
  extract_lets dirty known first counted failing written at h
  cases hf : o.fault with
  | some fault' =>
    rw [hf] at h
    dsimp only at h
    split at h
    · exact .inl h
    · split at h <;> exact .inl h
  | none =>
    rw [hf] at h
    dsimp only at h
    split at h
    · cases h
    · have hbusy : ∀ {q : Engine} {x}, q.committed = (some fault, x) → fault = .busy := by
        intro q x h
        unfold committed at h
        split at h
        · exact (Option.some.inj (Prod.mk.inj h).1).symm
        · cases h
      split at h
      · cases h
      · rename_i hcommitted
        obtain rfl := Option.some.inj h
        exact .inr (hbusy hcommitted)

/-- A statement that stores rows gets the code of a missing value from the change that it makes. -/
theorem fault_of_run {s : Sql.Statement} (hp : p.statement = some s) (hs : s.Stores)
    (hof : ∀ {d : Database} {f : LocatedFault}, Program.of d p.parameters s = .error f →
      f.fault.code = 1)
    (h : e.run p = (⟨[], some fault⟩, r)) (hcode : fault.code = 1299) :
    ∃ program w, e.enter p s = .ok (program, w) ∧
      (program.change w.content (w.scope p)).fault = some fault := by
  cases hx : e.enter p s with
  | error fault' =>
    cases (run_error hp hx).symm.trans h
    exact absurd hcode (code_of_enter hof hx)
  | ok x =>
    obtain ⟨program, w⟩ := x
    rw [run_changes hp hx (enter_stores hs hx).1] at h
    rcases fault_of_changed (congrArg Run.fault (Prod.mk.inj h).1) with hf | rfl
    · exact ⟨program, w, rfl, hf⟩
    · cases hcode

variable {t : Table} {table : String} {names : List String} {marks : List Nat} {values : List Cell}

theorem misses_of_insertRow (hs : e.Sane) (hc : e.Current) {mode : Sql.Conflict}
    (hp : p.statement = some (.insertRow mode table names marks))
    (ht : e.content.table? table = some t) (hnames : ∀ name ∈ names, (t.columnPlace? name).isSome)
    (hlen : marks.length = names.length) (hm : mode.Undoes) (hignore : mode ≠ .ignore)
    (hb : Sql.Bound p.parameters p.bindings marks values)
    (hfallback : ∀ c ∈ t.columns, c.fallback = none) (hchecks : t.checks = [])
    (hrun : e.run p = (⟨[], some fault⟩, r)) (hcode : fault.code = 1299) :
    ∃ (draft : Draft) (i : Nat) (c : StoredColumn), draft.Misses t fault i c ∧
      draft.cells[i]? = some (((InsertPlan.given t names values i).getD .null).stored c.affinity) := by
  have hstores : (Sql.Statement.insertRow mode table names marks).Stores := stores_insertRow hm
  obtain ⟨program, w, hx, hf⟩ := fault_of_run hp hstores InsertPlan.code_of_insertRow hrun hcode
  obtain ⟨ha, -, -, hof, -⟩ := enter_content hc (fun h => InsertPlan.of_insertRow h)
    (fun h => by rw [(Program.stores_of hstores h).need]; exact Need.noConfusion) hs hx
  obtain ⟨plan, rfl, hplan⟩ := InsertPlan.single_of ht hnames hlen hof
  have hname : e.content.table? t.name = some t := Database.table?_name ht
  rw [ha.content] at hf
  obtain ⟨draft, i, c, hdraft, hmisses⟩ :=
    hplan.misses_of_run hignore hname hfallback hchecks (s := w.scope p) hb hf hcode
  have hcell := (hplan.cells_eq hdraft).2 hmisses.column
  rw [hfallback c (List.mem_of_getElem? hmisses.column)] at hcell
  exact ⟨draft, i, c, hmisses, hcell⟩

theorem misses_of_update (hc : e.Current) {places : List Nat} {a : Scalar} {key : String}
    {i : Nat} {x : Cell}
    (hp : p.statement = some (.update .abort table (Sql.settingsAt names places) (some a)))
    (ht : e.content.table? table = some t) (hnames : ∀ name ∈ names, (t.columnPlace? name).isSome)
    (hi : t.columnPlace? key = some i) (hb : Sql.Bound p.parameters p.bindings places values)
    (ha : Sql.Filled p.parameters p.bindings a (.binary .eq (.column none key true 0) (.literal x)))
    (hfallback : ∀ c ∈ t.columns, c.fallback = none) (hchecks : t.checks = []) (hwhole : t.Whole)
    (hrun : e.run p = (⟨[], some fault⟩, r)) (hcode : fault.code = 1299) :
    ∃ (cells : List Cell) (draft : Draft) (j : Nat) (c : StoredColumn),
    cells.length = t.columns.length ∧
      draft.cells = UpdatePlan.overwrite t cells (UpdatePlan.assigned t names values) ∧
      (∃ name ∈ names, UpdatePlan.target t name = some j) ∧ draft.Misses t fault j c := by
  obtain ⟨program, w, hx, hf⟩ :=
    fault_of_run hp stores_update (UpdatePlan.code_of_update ha) hrun hcode
  obtain ⟨plan, rfl, hsets, hholds, halike, -⟩ :=
    sets_of_enter hc hx ht hnames ha (t.resolves_compared key x)
    (t.holds_compareWith hi x)
  have hname : e.content.table? t.name = some t := Database.table?_name ht
  rw [halike.content] at hf
  obtain ⟨cells, draft, j, c, hlen, hcells, hchecked, hmisses⟩ :=
    hsets.misses_of_run (s := w.scope p) hb hname
    hfallback hchecks hwhole (fun r _ => hholds r) hf hcode
  exact ⟨cells, draft, j, c, hlen, hcells, hsets.of_mem_checked (hchecked ▸ hmisses.checked), hmisses⟩

end Engine

/-! ## Running on a session -/

namespace Error

variable {fault : EngineFault} {message : String} {record : Option (List ColumnReport)}

theorem of_ofFault (h : ofFault fault = .notNull message record) :
    fault.code = 1299 ∧ message = fault.message := by
  unfold ofFault at h
  split at h
  · rename_i hcode
    cases h
    exact ⟨hcode, rfl⟩
  · cases h

theorem of_ofLocated {text : String} {f : LocatedFault}
    (h : ofLocated text f = .notNull message record) :
    f.fault.code = 1299 := by
  unfold ofLocated at h
  split at h
  · split at h
    · cases h
    · exact (of_ofFault h).1
  · exact (of_ofFault h).1

end Error

theorem LocatedFault.code_ofSyntax (f : Sql.SyntaxFault) : (ofSyntax f).fault.code = 1 := by
  cases f with
  | near l =>
    unfold ofSyntax
    dsimp only
    split <;> rfl
  | parameterNumber l => rfl
  | incomplete => rfl

theorem Engine.code_of_prepare {e : Engine} {text : String} {s : Sql.Statement} {ps : Parameters}
    (hread : Sql.ReadsAs text (some s, ps))
    (hof : ∀ {d : Database} {f : LocatedFault}, Program.of d ps s = .error f → f.fault.code = 1)
    {f : LocatedFault} (h : (e.prepare text).1 = .error f) : f.fault.code ≠ 1299 := by
  have hresolve : ∀ {q : Engine} {f : LocatedFault}, q.resolve ps s = .error f →
      f.fault.code ≠ 1299 := by
    intro q f h
    rw [hof h]
    decide
  by_cases hz : NoZero text
  swap
  · obtain ⟨fault, hfault⟩ := hread.refused hz
    unfold prepare at h
    rw [hfault] at h
    cases h
    rw [LocatedFault.code_ofSyntax]
    decide
  unfold prepare at h
  rw [hread.read hz] at h
  dsimp only at h
  split at h
  · rename_i fault hfault
    cases h
    exact code_of_informed hfault
  · split at h
    · cases h
    · rename_i fault hfault
      split at h
      · cases h
        exact hresolve hfault
      · split at h
        · rename_i q _ _
          cases hq : q.resolve ps s with
          | ok program =>
            rw [hq] at h
            cases h
          | error f' =>
            rw [hq] at h
            cases h
            exact hresolve hq
        · cases h
          exact hresolve hfault

namespace Session

open RecordMapper.Action

theorem ne_notNull_of_bindEach {ticks : Bool} {values : List HostValue} {p : Prepared}
    {next : Nat} {e : Error} (h : (bindEach ticks p next (values.map fun v => { value := v })).1 =
      .error e) (message : String)
    (record : Option (List ColumnReport)) : e ≠ .notNull message record := by
  induction values generalizing p next with
  | nil => cases h
  | cons v rest ih =>
    rw [List.map_cons, bindEach] at h
    simp only [bindingIndex] at h
    cases hcell : v.toCell ticks with
    | error fault =>
      rw [hcell] at h
      cases h
      exact Error.noConfusion
    | ok cell =>
      rw [hcell] at h
      simp only [Except.mapError] at h
      cases hbind : p.bind next cell with
      | ok q =>
        rw [hbind] at h
        exact ih h
      | error fault =>
        rw [hbind] at h
        cases h
        unfold Prepared.bind at hbind
        split at hbind
        · cases hbind
          exact Error.noConfusion
        · split at hbind
          · cases hbind
            exact Error.noConfusion
          · cases hbind

variable {alone : Bool} {s t : Session} {text : String} {values : List Value}

/-- A text that is executed gets the error of a missing value from the run of its statement. -/
theorem fault_of_executeText (hs : s.Usable alone) (hc : s.Current) {st : Sql.Statement}
    {ps : Parameters} (hread : Sql.ReadsAs text (some st, ps)) (hst : st.Stores)
    (hof : ∀ {d : Database} {f : LocatedFault}, Program.of d ps st = .error f → f.fault.code = 1)
    {message : String} {record : Option (List ColumnReport)}
    (h : executeText text values s = (.error (.notNull message record), t)) :
    NoZero text ∧ ∃ p e fault r, p.statement = some st ∧ p.parameters = ps ∧
      Stored s.connection.settings.ticks (values.map .scalar) p.bindings ∧ e.Sane ∧ e.Current ∧
      e.content = s.nesting.rows ∧ Engine.run e p = (⟨[], some fault⟩, r) ∧ fault.code = 1299 ∧
      message = fault.message := by
  rcases hready : ready (.positional text (values.map .scalar)) s with ⟨f | p, u⟩
  · have hrefused : executeText text values s = (.error f, u) := bind_error hready
    obtain rfl := Except.error.inj (Prod.mk.inj (hrefused.symm.trans h)).1
    obtain ⟨link, hl, -⟩ := hs
    rcases hp : Engine.prepare ⟨s.storage, link⟩ text with ⟨x, e⟩
    have hprepare := prepare_apply hl hp
    cases x with
    | error fault =>
      have hfault : ready (.positional text (values.map .scalar)) s =
          (.error (.ofLocated text fault), _) :=
        bind_error hprepare
      exact absurd (Error.of_ofLocated (Except.error.inj (Prod.mk.inj (hfault.symm.trans hready)).1))
        (Engine.code_of_prepare hread hof (congrArg Prod.fst hp))
    | ok p =>
      rw [ready_apply (c := .positional text (values.map .scalar)) hprepare] at hready
      exact absurd rfl (ne_notNull_of_bindEach (Prod.mk.inj hready).1 message record)
  · obtain ⟨link, fault, r, hran, hexec⟩ := ran_of_ready hs hc hread hst hready
    obtain ⟨he, -⟩ := Prod.mk.inj (hexec.symm.trans h)
    cases fault with
    | none => cases he
    | some fault =>
      obtain ⟨hcode, hmessage⟩ := Error.of_ofFault (Except.error.inj he)
      exact ⟨(hread.of_ok (of_ready hready).1).1, p, _, fault, r, hran.statement, hran.parameters,
        hran.stored, hran.sane, hran.current, hran.content, hran.run, hcode, hmessage⟩

/-- An insert of one row that gets the error was about to store its values. -/
theorem misses_of_executeText_insertRow (hs : s.Usable alone) (hc : s.Current) {mode : Sql.Conflict}
    {name : String} {names : List String} {marks : List Nat} {ps : Parameters}
    (hread : Sql.ReadsAs text (some (.insertRow mode name names marks), ps))
    (hlen : marks.length = names.length)
    (hbound : ∀ cells : List Cell, cells.length = marks.length → Sql.Bound ps cells marks cells)
    {table : Table} (ht : s.nesting.rows.table? name = some table)
    (hnames : ∀ name ∈ names, (table.columnPlace? name).isSome) (hm : mode.Undoes)
    (hignore : mode ≠ .ignore) (hfallback : ∀ c ∈ table.columns, c.fallback = none)
    (hchecks : table.checks = []) (hvalues : values.length = names.length) {message : String}
    {record : Option (List ColumnReport)}
    (h : executeText text values s = (.error (.notNull message record), t)) :
    ∃ (cells : List Cell) (draft : Draft) (fault : EngineFault) (i : Nat) (c : StoredColumn),
      Stored s.connection.settings.ticks (values.map .scalar) cells ∧
      draft.Misses table fault i c ∧ message = fault.message ∧
      draft.cells[i]? = some (((InsertPlan.given table names cells i).getD .null).stored c.affinity) := by
  obtain ⟨-, p, e, fault, r, hstatement, rfl, hstored, hsane, hcurrent, hcontent, hrun,
    hcode, hmessage⟩ :=
    fault_of_executeText hs hc hread (Engine.stores_insertRow hm) InsertPlan.code_of_insertRow h
  have hcells : p.bindings.length = marks.length := by
    rw [← hstored.length_eq, List.length_map, hvalues, hlen]
  obtain ⟨draft, i, c, hmisses, hcell⟩ := Engine.misses_of_insertRow hsane hcurrent hstatement
    (hcontent.symm ▸ ht) hnames hlen hm hignore (hbound p.bindings hcells) hfallback
      hchecks hrun hcode
  exact ⟨p.bindings, draft, fault, i, c, hstored, hmisses, hmessage, hcell⟩

/-- The update of a mapping that gets the error was about to store its values. -/
theorem misses_of_executeText_update (hs : s.Usable alone) (hc : s.Current) {m : Mapping}
    {key : Column} {table : Table} {i : Nat} (hne : m.updateColumns ≠ [])
    (ht : s.nesting.rows.table? m.table = some table)
    (hnames : ∀ c ∈ m.updateColumns, (table.columnPlace? c.name).isSome)
    (hi : table.columnPlace? key.name = some i) (hfallback : ∀ c ∈ table.columns, c.fallback = none)
    (hchecks : table.checks = []) (hwhole : table.Whole) {v : Value}
    (hvalues : values.length = m.updateColumns.length) {message : String}
    {record : Option (List ColumnReport)}
    (h : executeText (m.updateStatement key) (values ++ [v]) s = (.error (.notNull message record), t)) :
    ∃ (own cells : List Cell) (draft : Draft) (fault : EngineFault) (j : Nat) (c : StoredColumn),
      Stored s.connection.settings.ticks (values.map .scalar) own ∧
      cells.length = table.columns.length ∧
      draft.cells = UpdatePlan.overwrite table cells
        (UpdatePlan.assigned table (m.updateColumns.map Column.name) own) ∧
      (∃ b ∈ m.updateColumns, UpdatePlan.target table b.name = some j) ∧
      draft.Misses table fault j c ∧
      message = fault.message := by
  -- what is refused is a matter of the text, so any values will do
  obtain ⟨places, a, ps, -, hanyone, hread⟩ := Mapping.readsAs_updateStatement hne key
    (List.length_replicate (n := m.updateColumns.length) (a := Cell.null)) .null
  obtain ⟨hz, p, e, fault, r, hstatement, rfl, hstored, hsane, hcurrent, hcontent, hrun,
    hcode, hmessage⟩ :=
    fault_of_executeText hs hc hread Engine.stores_update (UpdatePlan.code_of_update hanyone) h
  rw [List.map_append] at hstored
  obtain ⟨own, x, hown, -, hbindings⟩ := forall₂_concat hstored
  have hlen : own.length = m.updateColumns.length := by
    rw [← hown.length_eq, List.length_map, hvalues]
  obtain ⟨places', a', ps, hplaces, hfilled, hread'⟩ :=
    Mapping.readsAs_updateStatement hne key hlen x
  obtain ⟨hsame, rfl⟩ := Prod.mk.inj (hread'.of_ok (hread.read hz)).2
  obtain ⟨cells, draft, j, c, hlength, hcells, ⟨name, hname, htarget⟩, hmisses⟩ :=
    Engine.misses_of_update hcurrent
    (hstatement.trans hsame) (hcontent.symm ▸ ht)
    (List.forall_mem_map.mpr hnames) hi (hbindings ▸ hplaces)
    (hbindings ▸ hfilled) hfallback hchecks hwhole hrun hcode
  obtain ⟨b, hb, rfl⟩ := List.mem_map.mp hname
  exact ⟨own, cells, draft, fault, j, c, hown, hlength, hcells, ⟨b, hb, htarget⟩, hmisses, hmessage⟩

end Session

end RecordMapper
