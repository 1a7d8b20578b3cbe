import RecordMapper.Proofs.Migrating
import RecordMapper.Proofs.Remembering
import RecordMapper.Proofs.StoredRows

/-!
# Rows that are inserted

An insert of one row, from its text to the table.

1. `Sql.Statement.insertRow`: an insert of one row of parameters, for some columns or for none.
2. `InsertPlan.Single`: what it is resolved to, over a table that has the columns. The row that it
   stores has the values that are given for the columns.
3. `Engine.run_insertRow` and `Session.executeText_insertRow`: an insert that is carried out has put
   its row into the table, and what it leaves can be read.
-/

namespace RecordMapper

open Sql (Scalar Parameters)

/-! ## Statements of one row -/

namespace Sql

/-- An insert of parameters for some columns; without columns it is one of defaults. -/
def Statement.insertRow (mode : Conflict) (table : String) (names : List String)
    (marks : List Nat) :
    Statement :=
  if names.isEmpty then .insert mode table none .defaults
  else .insert mode table (some names) (.values [marks.map .parameter])

variable {mode : Conflict} {table : String} {names : List String} {marks : List Nat}

theorem Statement.insertRow_of_ne (h : names ≠ []) : Statement.insertRow mode table names marks =
    .insert mode table (some names) (.values [marks.map .parameter]) := by
  unfold insertRow
  rw [if_neg (by rwa [List.isEmpty_iff])]

end Sql

section Texts

open Sql Sql.Parser

namespace Mapping

variable (m : Mapping)

/-- Where nothing is bound, every column counts up. -/
theorem autoIncrement_of_unbound {m : Mapping} (h : m.boundColumns .plain = []) {c : Column}
    (hc : c ∈ m.columns) : c.autoIncrement = true := by
  have hnone : m.columns.filter (fun c => !c.autoIncrement) = [] := h
  simpa using List.filter_eq_nil_iff.mp hnone c hc

theorem insertStatement_defaults (h : m.boundColumns .plain = []) (hone : m.columns.length = 1) :
    (m.insertStatement .plain).toList = "insert".toList ++ spacedWords ["into"] ++
      ' ' :: (quoteIdentifier m.table).toList ++ spacedWords ["default", "values"] := by
  have hall : m.columns.all Column.autoIncrement = true :=
    List.all_eq_true.mpr fun c hc => autoIncrement_of_unbound h hc
  unfold insertStatement
  simp only [h, hone, hall, List.isEmpty_nil, beq_self_eq_true, Bool.and_self, if_true]
  simp [spacedWords, InsertMode.keyword]

theorem readsAs_defaults (h : m.boundColumns .plain = []) (hone : m.columns.length = 1) :
    ReadsAs (m.insertStatement .plain) (some (.insert .abort m.table none .defaults), {}) := by
  have hhead := (Cut.word_delimited (w := "insert") (by decide) 0).append
    (cut_wordsAt ["into"] _ (by decide)) fun rest h => delimited_spacedWords _ h
  have htable := hhead.append (Cut.spaced_quoted m.table _) fun rest _ => delimited_cons rfl _
  have hall := htable.append (cut_wordsAt ["default", "values"] _ (by decide)) fun rest h =>
    (delimited_spacedWords _ h).ends
  rw [← m.insertStatement_defaults h hone] at hall
  simp only [wordsAt, List.append_assoc, List.cons_append, List.nil_append] at hall
  refine hall.readsAs (s := .insert .abort m.table none .defaults) delimited_nil ?_
  have hor : ∀ o, isWord "or" (wordAt "into" o) = false := fun o => by
    rw [isWord_wordAt, show foldCase "into" = "into" by decide]
    rfl
  rw [statement_insert (conflict_none (hor _))]
  have hinto : ∀ o, isWord "into" (wordAt "into" o) = true := isWord_self (by decide)
  have hdefault : ∀ o, isWord "default" (wordAt "default" o) = true := isWord_self (by decide)
  have hvalues : ∀ o, isWord "values" (wordAt "values" o) = true := isWord_self (by decide)
  have hother : ∀ o w, w ≠ "default" → isWord w (wordAt "default" o) = false := by
    intro o w hw
    rw [isWord_wordAt, show foldCase "default" = "default" by decide]
    exact beq_false_of_ne hw.symm
  unfold insertInto
  rw [bind_apply, word_cons (hinto _), ok_bind, bind_apply, name_quotedName, ok_bind, bind_apply,
    ahead_cons, ok_bind]
  rw [show ∀ o, isSymbol "(" (wordAt "default" o) = false from fun _ => rfl]
  simp only [Bool.false_eq_true, if_false]
  rw [bind_apply, pure_apply, ok_bind, choice_cons, hother _ "values" (by decide),
    if_neg Bool.false_ne_true, choice_cons,
    hother _ "select" (by decide), if_neg Bool.false_ne_true,
    choice_cons, hdefault, if_pos rfl, bind_apply, word_cons (hvalues _)]
  rfl

/-- The text of an insert is read as an insert of one row, and what is bound to its marks are the
values in order. -/
theorem readsAs_insertRow {mode : InsertMode}
    (h : m.boundColumns mode = [] → mode = .plain ∧ m.columns.length = 1) :
    ∃ marks ps, ReadsAs (m.insertStatement mode) (some (.insertRow mode.conflict m.table
        ((m.boundColumns mode).map Column.name) marks), ps) ∧
      marks.length = (m.boundColumns mode).length ∧
      ∀ cells : List Cell, cells.length = marks.length → Bound ps cells marks cells := by
  by_cases hnone : m.boundColumns mode = []
  · obtain ⟨rfl, hone⟩ := h hnone
    refine ⟨[], {}, ?_, by rw [hnone]; rfl, fun cells hcells => ?_⟩
    · rw [hnone]
      exact m.readsAs_defaults hnone hone
    · rw [List.eq_nil_of_length_eq_zero hcells]
      exact .nil
  · obtain ⟨marks, ps, hread, hlen, -, hbound⟩ := m.readsAs_insertStatement hnone
    refine ⟨marks, ps, ?_, hlen, hbound⟩
    rwa [Statement.insertRow_of_ne (fun hn => hnone (List.map_eq_nil_iff.mp hn))]

end Mapping

end Texts

/-! ## Plans of one row -/

namespace InsertPlan

/-- A plan of one row, with values for the columns of some names. -/
structure Single (p : InsertPlan) (mode : Sql.Conflict) (t : Table) (names : List String)
    (ps : Parameters) (marks : List Nat) : Prop where
  mode : p.mode = mode
  table : p.table = t.name
  places : p.places = (List.range t.columns.length).map fun i =>
    (names.map t.columnPlace?).findIdx? (· == some i)
  numbered : p.rowidPlace = none
  source : p.source = .formulas [marks.map fun mark => .parameter (ps.indexAt mark)]

variable {d d' : Database} {t : Table} {ps : Parameters} {mode : Sql.Conflict} {table : String}
  {names : List String} {marks : List Nat}

theorem targets_eq (h : ∀ name ∈ names, (t.columnPlace? name).isSome) :
    targets t names = .ok (names.map t.columnPlace?) := by
  unfold targets
  induction names with
  | nil => rfl
  | cons name rest ih =>
    obtain ⟨i, hi⟩ := Option.isSome_iff_exists.mp (h name List.mem_cons_self)
    rw [List.mapM_cons, ih fun n hn => h n (List.mem_cons_of_mem _ hn), hi, List.map_cons, hi]
    rfl

theorem formula_parameters (ps : Parameters) (marks : List Nat) :
    (marks.map Scalar.parameter).mapM (Naming.formula { parameters := ps }) =
      .ok (marks.map fun mark => .parameter (ps.indexAt mark)) := by
  induction marks with
  | nil => rfl
  | cons mark rest ih =>
    rw [List.map_cons, List.mapM_cons, ih]
    rfl

/-- The names of a plan have to be columns of the table; then it is a plan of one row. -/
theorem single_of (ht : d.table? table = some t)
    (hnames : ∀ name ∈ names, (t.columnPlace? name).isSome) (hlen : marks.length = names.length)
    {program : Program} (h : Program.of d ps (.insertRow mode table names marks) = .ok program) :
    ∃ plan : InsertPlan, program = .insert plan ∧ plan.Single mode t names ps marks := by
  have hfor : d.tableFor "modified" table (.noTable table) = .ok t := by
    unfold Database.tableFor
    rw [ht]
  by_cases hempty : names = []
  · subst hempty
    obtain rfl : marks = [] := List.eq_nil_of_length_eq_zero hlen
    obtain ⟨plan, hplan, h⟩ := ok_of_bind h
    cases h
    unfold InsertPlan.of at hplan
    rw [hfor] at hplan
    cases hplan
    exact ⟨_, rfl, rfl, rfl, rfl, rfl, rfl⟩
  · rw [Sql.Statement.insertRow_of_ne hempty] at h
    obtain ⟨plan, hplan, h⟩ := ok_of_bind h
    cases h
    have hsource : resolveSource d ps (.values [marks.map .parameter]) =
        .ok (.formulas [marks.map fun mark => .parameter (ps.indexAt mark)],
          some marks.length) := by
      simp only [resolveSource, List.mapM_cons, List.mapM_nil, formula_parameters,
        bind, Except.bind, pure, Except.pure, List.all_nil, if_true, List.length_map]
    unfold InsertPlan.of at hplan
    rw [hfor] at hplan
    simp only [bind, Except.bind, targets_eq hnames, hsource] at hplan
    rw [if_neg (by rw [List.length_map]; exact not_not.mpr hlen)] at hplan
    cases hplan
    refine ⟨_, rfl, rfl, rfl, rfl, ?_, rfl⟩
    show (names.map t.columnPlace?).findIdx? (· == none) = none
    rw [List.findIdx?_eq_none_iff]
    intro x hx
    obtain ⟨name, hname, rfl⟩ := List.mem_map.mp hx
    exact beq_false_of_ne (Option.isSome_iff_ne_none.mp (hnames name hname))

/-- An insert of values means the same over databases with the same definitions. -/
theorem of_bare (d : Database) (ps : Parameters) (mode : Sql.Conflict) (table : String)
    (columns : Option (List String)) {source : Sql.InsertSource} (hs : ∀ s, source ≠ .select s) :
    of d.bare ps mode table columns source = of d ps mode table columns source := by
  unfold of
  rw [Database.tableFor_bare]
  cases d.tableFor "modified" table (.noTable table) with
  | error fault => rfl
  | ok t =>
    cases source with
    | defaults => rfl
    | values rows => rfl
    | select s => exact absurd rfl (hs s)

theorem of_insertRow (h : d.bare = d'.bare) :
    Program.of d ps (.insertRow mode table names marks) =
      Program.of d' ps (.insertRow mode table names marks) := by
  have hof : ∀ columns {source : Sql.InsertSource}, (∀ s, source ≠ .select s) →
      of d ps mode table columns source = of d' ps mode table columns source := by
    intro columns source hs
    rw [← of_bare d ps mode table columns hs, h, of_bare d' ps mode table columns hs]
  unfold Sql.Statement.insertRow
  split
  · exact congrArg (· >>= fun plan => pure (Program.insert plan)) (hof none nofun)
  · exact congrArg (· >>= fun plan => pure (Program.insert plan)) (hof (some names) nofun)

/-! ### The row of a plan -/

variable {p : InsertPlan} {values : List Cell}

/-- The value that an insert gives to a column, if it gives one. -/
def given (t : Table) (names : List String) (values : List Cell) (i : Nat) : Option Cell :=
  ((names.map t.columnPlace?).findIdx? (· == some i)).map fun k => values[k]?.getD .null

/-- The row number that an insert asks for, by the column that shows it. -/
def wantedId (t : Table) (names : List String) (values : List Cell) :
    Except EngineFault (Option Int) :=
  match t.rowidColumn with
  | some i => askedId ((given t names values i).getD .null)
  | none => .ok none

/-- The cell that an insert stores in a column, by the place of its value. -/
def wantedCell (values : List Cell) (c : StoredColumn) : Option Nat → Cell
  | some k => (values[k]?.getD .null).stored c.affinity
  | none => ((c.fallback.map Prod.fst).getD .null).stored c.affinity

/-- A row has the given values in the classes of their columns; columns without one have what stands
in for it. -/
structure Drafts (t : Table) (names : List String) (values : List Cell) (draft : Draft) : Prop where
  old : draft.old = none
  checked : draft.checked = List.range t.columns.length
  length : draft.cells.length = t.columns.length
  cells : ∀ {i : Nat} {c : StoredColumn}, t.columns[i]? = some c →
    draft.cells[i]? = some (((given t names values i).getD
      ((c.fallback.map Prod.fst).getD .null)).stored c.affinity)
  id : t.withoutRowid = false → wantedId t names values = .ok draft.id
  last : t.withoutRowid = true → draft.id = some ((t.lastId?.getD 0) + 1)

/-- The cells of a plan's row are its values in the classes of their columns. -/
theorem Single.cells_eq (h : p.Single mode t names ps marks) {draft : Draft}
    (hd : p.draft t values = .ok draft) :
    draft.cells = (t.columns.zip p.places).map (fun x => wantedCell values x.1 x.2) ∧
      ∀ {i : Nat} {c : StoredColumn}, t.columns[i]? = some c → draft.cells[i]? =
        some (((given t names values i).getD ((c.fallback.map Prod.fst).getD .null)).stored c.affinity) := by
  have hcells : draft.cells =
      (t.columns.zip p.places).map (fun x => wantedCell values x.1 x.2) := by
    unfold InsertPlan.draft at hd
    extract_lets cells at hd
    simp only [h.numbered] at hd
    cases hr : t.rowidColumn with
    | none =>
      rw [hr] at hd
      obtain ⟨asked, -, hd⟩ := ok_of_bind hd
      cases hd
      rfl
    | some i =>
      rw [hr] at hd
      obtain ⟨asked, -, hd⟩ := ok_of_bind hd
      cases hd
      rfl
  refine ⟨hcells, fun {i c} hc => ?_⟩
  have hi := (List.getElem?_eq_some_iff.mp hc).1
  have hplace : p.places[i]? = some ((names.map t.columnPlace?).findIdx? (· == some i)) := by
    rw [h.places, List.getElem?_map, List.getElem?_range hi]
    rfl
  have hzip : (t.columns.zip p.places)[i]? =
      some (c, (names.map t.columnPlace?).findIdx? (· == some i)) :=
        List.getElem?_zip_eq_some.mpr ⟨hc, hplace⟩
  rw [hcells, List.getElem?_map, hzip]
  unfold given
  cases (names.map t.columnPlace?).findIdx? (· == some i) with
  | none => rfl
  | some k => rfl

theorem Single.drafts (h : p.Single mode t names ps marks) {draft : Draft}
    (hd : p.draft t values = .ok draft) (hrowid : ∀ i, t.rowidColumn = some i →
      i < t.columns.length) :
    Drafts t names values draft := by
  obtain ⟨hcells, hcolumns⟩ := h.cells_eq hd
  have hlen : p.places.length = t.columns.length := by
    rw [h.places, List.length_map, List.length_range]
  have hgiven : ∀ i < t.columns.length, (p.places[i]?.join.bind fun k => values[k]?).getD .null =
      (given t names values i).getD .null := fun i hi => by
    rw [h.places, List.getElem?_map, List.getElem?_range hi, Option.map_some, Option.join_some]
    unfold given
    cases (names.map t.columnPlace?).findIdx? (· == some i) with
    | none => rfl
    | some k => rfl
  have hasked : ∃ asked, wantedId t names values = .ok asked ∧ draft.old = none ∧
      draft.checked = List.range t.columns.length ∧
      draft.id = if t.withoutRowid then some ((t.lastId?.getD 0) + 1) else asked := by
    unfold wantedId
    unfold InsertPlan.draft at hd
    simp only [h.numbered] at hd
    cases hr : t.rowidColumn with
    | none =>
      rw [hr] at hd
      obtain ⟨asked, hasked, hd⟩ := ok_of_bind hd
      cases hd
      exact ⟨asked, hasked, rfl, rfl, rfl⟩
    | some i =>
      rw [hr] at hd
      obtain ⟨asked, hasked, hd⟩ := ok_of_bind hd
      cases hd
      refine ⟨asked, ?_, rfl, rfl, rfl⟩
      rwa [hgiven i (hrowid i hr)] at hasked
  obtain ⟨asked, hasked, hold, hchecked, hid⟩ := hasked
  refine ⟨hold, hchecked, ?_, hcolumns, fun hw => ?_, fun hw => hid.trans (if_pos hw)⟩
  · rw [hcells, List.length_map, List.length_zip, hlen, Nat.min_self]
  · rw [hid, if_neg (by rw [hw]; exact Bool.false_ne_true)]
    exact hasked

/-- A step that succeeds has stored the row of its values. -/
theorem of_step {o o' : Outcome} (h : p.step o values = .ok o') : ∃ t draft d' id,
    o.database.table? p.table = some t ∧ p.draft t values = .ok draft ∧
      o.database.store t p.mode draft = .ok (d', id) ∧ o' = { o with
        database := d', count := o.count + 1
        lastRowid := if t.withoutRowid then o.lastRowid else some id } := by
  unfold step at h
  split at h
  · rename_i t ht
    obtain ⟨draft, hdraft, h⟩ := ok_of_bind h
    obtain ⟨⟨d', id⟩, hstore, h⟩ := ok_of_bind h
    exact ⟨t, draft, d', id, ht, hdraft, hstore, (Except.ok.inj h).symm⟩
  · cases h

/-- The row of a plan of one row is what is bound to its marks. -/
theorem Single.sourceRows_eq (h : p.Single mode t names ps marks) {s : Scope}
    (hb : Sql.Bound ps s.parameters marks values) (d : Database) :
    p.sourceRows d s = ⟨[values], none⟩ := by
  have heval : Formula.evalEach s (marks.map fun mark => .parameter (ps.indexAt mark)) =
      .ok values := by
    clear h
    induction hb with
    | nil => rfl
    | cons hmark _ ih =>
      rw [List.map_cons, Formula.evalEach, ih, Formula.eval, hmark]
      rfl
  unfold sourceRows
  rw [h.source]
  simp only [Run.traverse, heval]

end InsertPlan

/-- Faults are passed over only where rows may be left out. -/
theorem Database.passedOver_eq_false {mode : Sql.Conflict} (h : mode ≠ .ignore)
    (fault : EngineFault) :
    passedOver mode fault = false := by
  unfold passedOver
  split <;> simp [h]

theorem Outcome.fault_failed (o : Outcome) (before : Database) (mode : Sql.Conflict)
    (fault : EngineFault) :
    (o.failed before mode fault).fault = some fault := by
  unfold failed
  split <;> rfl

namespace InsertPlan

variable {d : Database} {t : Table} {ps : Parameters} {mode : Sql.Conflict} {names : List String}
  {marks : List Nat} {p : InsertPlan} {values : List Cell}

/-- A plan of one row stores it, or there is a fault. -/
theorem Single.run_eq (h : p.Single mode t names ps marks) (hmode : mode ≠ .ignore)
    (ht : d.table? t.name = some t) {s : Scope} (hb : Sql.Bound ps s.parameters marks values)
    (hf : (p.run d s).fault = none) : ∃ draft d' id, p.draft t values = .ok draft ∧
      d.store t mode draft = .ok (d', id) ∧ p.run d s = {
        database := d', count := 1, lastRowid := if t.withoutRowid then none else some id } := by
  unfold run at hf ⊢
  rw [h.sourceRows_eq hb] at hf ⊢
  simp only [Outcome.steps, Database.passedOver_eq_false (h.mode ▸ hmode)] at hf ⊢
  cases hx : p.step { database := d } values with
  | error fault =>
    rw [hx] at hf
    simp only [Outcome.fault_failed, Bool.false_eq_true, if_false] at hf
    split at hf
    · cases hf
    · rw [Outcome.fault_failed] at hf
      cases hf
  | ok o =>
    obtain ⟨t', draft, d', id, ht', hdraft, hstore, rfl⟩ := of_step hx
    rw [h.table, ht] at ht'
    obtain rfl := Option.some.inj ht'
    exact ⟨draft, d', id, hdraft, h.mode ▸ hstore, rfl⟩

end InsertPlan

namespace Database

/-- Where nothing stands in for a missing cell, the cells that are checked for null stay as
they are. -/
theorem fillNulls_eq {t : Table} (h : ∀ c ∈ t.columns, c.fallback = none) {mode : Sql.Conflict}
    {checked : List Nat} {cells filled : List Cell}
    (hf : fillNulls t mode checked cells = .ok filled) :
    filled = cells := by
  unfold fillNulls at hf
  induction checked with
  | nil => exact (Except.ok.inj hf).symm
  | cons i rest ih =>
    rw [List.foldlM_cons] at hf
    obtain ⟨next, hnext, hf⟩ := ok_of_bind hf
    have hsame : next = cells := by
      split at hnext
      · rename_i c hc
        split at hnext
        · rw [h c (List.mem_of_getElem? hc)] at hnext
          cases mode <;> cases hnext
        · exact (Except.ok.inj hnext).symm
      · exact (Except.ok.inj hnext).symm
    exact ih (hsame ▸ hf)

end Database

/-! ## Running on the engine -/

namespace Engine

variable {e r : Engine}

theorem lockOf_setLock (s : Storage) (id : Nat) {lock : Lock} (h : lock ≠ .none) :
    (s.setLock id lock).lockOf id = lock := by
  unfold Storage.setLock Storage.lockOf
  simp only [if_neg h, List.find?_cons, beq_self_eq_true]
  rfl

theorem lock_acquireWrite (h : e.acquireWrite = .ok r) : Lock.reserved.level ≤ r.lock.level := by
  unfold acquireWrite at h
  split at h
  · cases h
  · split at h
    · cases h
      assumption
    · split at h
      · cases h
      · split at h
        · cases h
          show Lock.reserved.level ≤ Lock.level (Storage.lockOf (Storage.setLock _ _ _) _)
          exact Nat.le_of_eq (congrArg Lock.level (lockOf_setLock _ _ (by decide)).symm)
        · cases h

theorem lock_engage {p : Prepared} {s : Sql.Statement} {program : Program}
    (h : e.engage p s = .ok (program, r)) (hn : ∀ {d : Database} {program : Program},
      Program.of d p.parameters s = .ok program → program.need = .writing) :
    Lock.reserved.level ≤ r.lock.level := by
  cases engages_of_engage h with
  | known hof hr =>
    rw [hn hof] at hr
    exact lock_acquireWrite hr
  | anew _ _ hof hr =>
    rw [hn hof] at hr
    exact lock_acquireWrite hr

theorem lock_enter {p : Prepared} {s : Sql.Statement} {program : Program}
    (h : e.enter p s = .ok (program, r)) (hn : ∀ {d : Database} {program : Program},
      Program.of d p.parameters s = .ok program → program.need = .writing) :
    Lock.reserved.level ≤ r.lock.level := by
  obtain ⟨q, -, h⟩ := ok_of_bind h
  exact lock_engage h hn

theorem acquireRead_of_lock (h : Lock.reserved.level ≤ e.lock.level) :
    ∃ r, e.acquireRead = .ok r := by
  refine ⟨e, if_pos (Nat.le_trans ?_ h)⟩
  decide

/-- A row that was stored may be read: in a transaction the link keeps its lock, and outside of one
nobody else held any when the change was committed. -/
theorem readable_changed {plan : InsertPlan} {d : Database} {id : Option Int}
    (hlock : Lock.reserved.level ≤ e.lock.level)
    (h : e.changed (.insert plan) { database := d, count := 1, lastRowid := id } = (none, r)) :
    r.content = d ∧ r.link.known = e.link.known ∧ r.link.changes = 1 ∧
      r.link.lastRowid = id.getD e.link.lastRowid ∧ ∃ q, r.acquireRead = .ok q := by
  obtain ⟨hcontent, hchanges, hlast, hknown⟩ := counted_changed rfl h
  refine ⟨hcontent, hknown, hchanges, hlast, ?_⟩
  unfold changed at h
  extract_lets dirty known l r₁ r₂ l₂ r₃ at h
  have hdirty : r₂.link.dirty = true := by
    show (e.link.dirty || decide (0 < 1) || _) = true
    rw [decide_eq_true Nat.zero_lt_one, Bool.or_true, Bool.true_or]
  simp only at h
  split at h
  · obtain rfl := (Prod.mk.inj h).2
    exact acquireRead_of_lock (e := r₂) hlock
  · rename_i hclosed
    unfold committed at h
    rw [hdirty, Bool.true_and] at h
    cases hothers : r₂.storage.othersBelow r₂.link.id .shared with
    | false =>
      rw [hothers] at h
      cases h
    | true =>
      rw [hothers] at h
      have hopening : ∀ q : Engine, q.link.opening = none → q.settled =
          q.withLock (if 0 < q.link.readers then .shared else .none) := fun q hq => by
        unfold settled inTransaction
        rw [hq]
        rfl
      simp only [Bool.not_true, Bool.false_eq_true, if_false, hopening] at h
      obtain rfl := (Prod.mk.inj h).2
      exact acquireRead_of_alone (alone_withLock.mpr hothers)

variable {t : Table} {mode : Sql.Conflict} {table : String} {names : List String} {marks : List Nat}
  {values : List Cell}

theorem stores_insertRow (hm : mode.Undoes) :
    (Sql.Statement.insertRow mode table names marks).Stores := by
  refine ⟨mode, ?_, hm⟩
  unfold Sql.Statement.insertRow
  split <;> rfl

/-- What an insert of one row leaves of an engine that carries it out. -/
structure Inserted (e : Engine) (t : Table) (mode : Sql.Conflict) (names : List String)
    (values : List Cell) (r : Engine) : Prop where
  keeps : Keeps e r
  store : ∃ draft id, InsertPlan.Drafts t names values draft ∧
    e.content.store t mode draft = .ok (r.content, id) ∧
    (t.withoutRowid = false → r.link.lastRowid = id)
  counted : r.link.changes = 1
  informed : ∃ k, r.link.known = some k ∧ k.bare = e.content.bare
  read : ∃ q, r.acquireRead = .ok q

/-- An insert of one row whose columns are those of a table stores it, if it is carried out. -/
theorem run_insertRow (hs : e.Sane) (hc : e.Current) {p : Prepared}
    (hp : p.statement = some (.insertRow mode table names marks))
    (ht : e.content.table? table = some t) (hnames : ∀ name ∈ names, (t.columnPlace? name).isSome)
    (hlen : marks.length = names.length) (hrowid : ∀ i, t.rowidColumn = some i →
      i < t.columns.length)
    (hm : mode.Undoes) (hignore : mode ≠ .ignore)
    (hb : Sql.Bound p.parameters p.bindings marks values) (hrun : e.run p = (⟨[], none⟩, r)) :
    e.Inserted t mode names values r := by
  have hstores : (Sql.Statement.insertRow mode table names marks).Stores := stores_insertRow hm
  have hneed : ∀ {d : Database} {program : Program},
      Program.of d p.parameters (.insertRow mode table names marks) = .ok program →
        program.need = .writing := fun h => (Program.stores_of hstores h).need
  cases hx : e.enter p (.insertRow mode table names marks) with
  | error fault =>
    cases (run_error hp hx).symm.trans hrun
  | ok x =>
    obtain ⟨program, w⟩ := x
    obtain ⟨ha, -, ⟨k, hk, hbare⟩, hof, -⟩ := enter_content hc (fun h => InsertPlan.of_insertRow h)
      (fun h => by rw [hneed h]; nofun) hs hx
    obtain ⟨plan, rfl, hplan⟩ := InsertPlan.single_of ht hnames hlen hof
    rw [run_changes hp hx (enter_stores hstores hx).1] at hrun
    have hname : e.content.table? t.name = some t := Database.table?_name ht
    obtain ⟨hfault, hr⟩ := Prod.mk.inj hrun
    have hchanged : w.changed (.insert plan) ((Program.insert plan).change w.content (w.scope p)) =
        (none, r) := Prod.ext (congrArg Run.fault hfault) hr
    have hwhole := (enter_stores hstores hx).1.whole w.content (w.scope p)
    have hrunfault := fault_changed hchanged
    rw [ha.content] at hchanged hwhole hrunfault
    obtain ⟨draft, d, id, hdraft, hstore, hout⟩ :=
      hplan.run_eq hignore hname (s := w.scope p) hb hrunfault
    have hkeeps := leaves_changed hs ha (.insert plan) hwhole
    rw [hchanged] at hkeeps
    change w.changed (.insert plan) (plan.run e.content (w.scope p)) = (none, r) at hchanged
    rw [hout] at hchanged
    obtain ⟨hcontent, hknown, hcounted, hlast, hread⟩ :=
      readable_changed (lock_enter hx hneed) hchanged
    refine ⟨?_, ⟨draft, id, hplan.drafts hdraft hrowid, hcontent ▸ hstore, fun hw => ?_⟩, hcounted,
      ⟨k, hknown.trans hk, hbare.trans (congrArg Database.bare ha.content)⟩, hread⟩
    · cases hkeeps with
      | done h => exact h
    · rw [hlast, hw]
      rfl

end Engine

/-! ## Running on a session -/

namespace Session

open RecordMapper.Action

variable {alone : Bool} {s t : Session}

/-- A command is ready once its text is prepared and its values are bound; nothing else changes. -/
theorem of_ready_steady (hs : s.Usable alone) (hc : s.Current) {text : String}
    {values : List HostValue} {p : Prepared} (h : ready (.positional text values) s = (.ok p, t)) :
    Sql.readStatement text = .ok (p.statement, p.parameters) ∧
      Stored s.connection.settings.ticks values p.bindings ∧ Steady alone s t ∧
      t.nesting.rows = s.nesting.rows := by
  obtain ⟨hread, hstored⟩ := of_ready h
  obtain ⟨q, u, hprepare, h⟩ := of_bind_ok h
  rw [get_bind, ofExcept_apply] at h
  obtain ⟨-, rfl⟩ := Prod.mk.inj h
  obtain ⟨link, hl, hsane, halone⟩ := hs
  have hcurrent := Engine.current_prepare (hc link hl) text
  obtain ⟨d, -, hd⟩ := Engine.prepare_alike (e := ⟨s.storage, link⟩) text
  rcases hp : Engine.prepare ⟨s.storage, link⟩ text with ⟨x, e⟩
  rw [hp] at hcurrent hd
  obtain rfl : e = ⟨s.storage, { link with known := d }⟩ := hd
  obtain ⟨-, rfl⟩ := Prod.mk.inj ((prepare_apply hl hp).symm.trans hprepare)
  have hkeeps : Engine.Keeps ⟨s.storage, link⟩ ⟨s.storage, { link with known := d }⟩ :=
    ⟨⟨rfl, rfl, fun _ => rfl⟩, ⟨hsane.clean, hsane.bare⟩, id⟩
  obtain ⟨hsteady, hrows⟩ := steady_of_keeps hl hsane halone (text :: s.log) hkeeps hcurrent
  refine ⟨hread, hstored, hsteady, ?_⟩
  rw [nesting_of_link hl]
  exact hrows

/-- The run of a text that stores, once it is ready: the engine carries out its statement with the
bound values, over the content that the session had, and may end with a fault. -/
structure Ran (alone : Bool) (s : Session) (st : Sql.Statement) (ps : Parameters)
    (values : List Value) (p : Prepared) (u : Session) (link : Link) (fault : Option EngineFault)
    (r : Engine) : Prop where
  statement : p.statement = some st
  parameters : p.parameters = ps
  stored : Stored s.connection.settings.ticks (values.map .scalar) p.bindings
  steady : Steady alone s u
  isOpen : u.connection.link = some link
  sane : Engine.Sane ⟨u.storage, link⟩
  lone : alone = true → Engine.Alone ⟨u.storage, link⟩
  content : Engine.content ⟨u.storage, link⟩ = s.nesting.rows
  run : Engine.run ⟨u.storage, link⟩ p = (⟨[], fault⟩, r)

theorem ran_of_ready (hs : s.Usable alone) (hc : s.Current) {text : String} {st : Sql.Statement}
    {ps : Parameters} (hread : Sql.ReadsAs text (some st, ps)) (hst : st.Stores)
    {values : List Value} {p : Prepared} {u : Session}
    (hready : ready (.positional text (values.map .scalar)) s = (.ok p, u)) :
    ∃ link fault r, Ran alone s st ps values p u link fault r ∧ executeText text values s =
      (fault.elim (.ok r.link.changes) fun fault => .error (Error.ofFault fault),
        u.withEngine r) := by
  obtain ⟨hread', hstored, hsteady, hrows⟩ := of_ready_steady hs hc hready
  obtain ⟨hstatement, hparameters⟩ := Prod.mk.inj (hread.of_ok hread').2
  obtain ⟨link, hl, hsane, halone⟩ := hsteady.usable
  obtain ⟨fault, r, hrun, -⟩ := Engine.run_stores hsane fun st' hst' => by
    obtain rfl := Option.some.inj (hst'.symm.trans hstatement)
    exact hst
  refine ⟨link, fault, r, ⟨hstatement, hparameters, hstored, hsteady, hl, hsane, halone,
    (content_of_link hl).trans hrows, hrun⟩, ?_⟩
  have hexec : executeText text values s = finishExecute p u := bind_ok hready
  rw [hexec, finishExecute_apply hl hrun]
  cases fault <;> rfl

namespace Ran

variable {st : Sql.Statement} {ps : Parameters} {values : List Value} {p : Prepared} {u : Session}
  {link : Link} {fault : Option EngineFault} {r : Engine}

theorem current (h : Ran alone s st ps values p u link fault r) :
    Engine.Current ⟨u.storage, link⟩ :=
  h.steady.current link h.isOpen

/-- A run that keeps what a statement has to keep leaves a steady session with the content of the
engine. -/
theorem steady_withEngine (h : Ran alone s st ps values p u link fault r)
    (hk : Engine.Keeps ⟨u.storage, link⟩ r) (hr : r.Current) :
    Steady alone s (u.withEngine r) ∧ (u.withEngine r).nesting.rows = r.content := by
  obtain ⟨hsteady, hrows⟩ := steady_of_keeps h.isOpen h.sane h.lone u.log hk hr
  exact ⟨h.steady.trans hsteady, hrows⟩

end Ran

/-- What the execution of an insert of one row leaves of a session: the row stands in its table. -/
theorem executeText_insertRow (hs : s.Usable alone) (hc : s.Current) (hd : s.nesting.rows.Sound)
    {text name : String} {mode : Sql.Conflict} {names : List String} {marks : List Nat}
    {ps : Parameters} (hread : Sql.ReadsAs text (some (.insertRow mode name names marks), ps))
    (hlen : marks.length = names.length)
    (hbound : ∀ cells : List Cell, cells.length = marks.length → Sql.Bound ps cells marks cells)
    {table : Table} (ht : s.nesting.rows.table? name = some table)
    (hnames : ∀ name ∈ names, (table.columnPlace? name).isSome)
    (hrowid : ∀ i, table.rowidColumn = some i → i < table.columns.length) (hm : mode.Undoes)
    (hignore : mode ≠ .ignore) {values : List Value}
    (hvalues : values.length = names.length) {n : Int}
    (h : executeText text values s = (.ok n, t)) :
    n = 1 ∧ ∃ cells draft row kept,
      Stored s.connection.settings.ticks (values.map .scalar) cells ∧
      InsertPlan.Drafts table names cells draft ∧
      s.nesting.rows.Puts table mode draft row kept t.nesting.rows ∧
      (table.withoutRowid = false → t.lastRowid = row.id) ∧ Steady alone s t ∧
      ∃ link, t.connection.link = some link ∧ Engine.Readable ⟨t.storage, link⟩ := by
  obtain ⟨p, u, hready, -⟩ := of_bind_ok h
  obtain ⟨link, fault, r, hran, hexec⟩ :=
    ran_of_ready hs hc hread (Engine.stores_insertRow hm) hready
  obtain ⟨hn, rfl⟩ := Prod.mk.inj (hexec.symm.trans h)
  cases fault with
  | some fault => cases hn
  | none =>
    have hcells : p.bindings.length = marks.length := by
      rw [← hran.stored.length_eq, List.length_map, hvalues, hlen]
    obtain ⟨hkeeps, ⟨draft, id, hdraft, hstore, hlast⟩, hcounted, ⟨k, hk, hbare⟩, hreadable⟩ :=
      Engine.run_insertRow hran.sane hran.current hran.statement
        (hran.content.symm ▸ ht) hnames hlen
        hrowid hm hignore (hran.parameters ▸ hbound p.bindings hcells) hran.run
    rw [hran.content] at hstore hbare
    obtain ⟨row, kept, rfl, hputs⟩ := Database.of_store hdraft.old hstore
    have hsame : r.content.bare = s.nesting.rows.bare :=
      hputs.bare hd (List.mem_of_find?_eq_some ht)
    have hknown : ∀ k, r.link.known = some k → k.bare = r.content.bare := fun k' hk' => by
      obtain rfl := Option.some.inj (hk'.symm.trans hk)
      exact hbare.trans hsame.symm
    obtain ⟨hsteady, hrows⟩ := hran.steady_withEngine hkeeps fun k hk _ => hknown k hk
    have hone : n = 1 := (Except.ok.inj hn).symm.trans hcounted
    refine ⟨hone, p.bindings, draft, row, kept, hran.stored, hdraft, ?_, hlast, hsteady,
      r.link, rfl, hknown, hreadable⟩
    rw [hrows]
    exact hputs

end Session

end RecordMapper
