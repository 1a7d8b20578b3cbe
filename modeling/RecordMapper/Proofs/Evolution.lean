import RecordMapper.Proofs.DefinitionTexts

/-!
# What definitions leave

The effect of each statement of a creation on a database.

1. `Definition.Draft.Over`: reading the constraints of a column changes that column only, and calls
   for no index with a name that could be chosen.
2. `Definition.Draft.of_addKey` and `of_withoutRowid`: what a key and the lack of row numbers
   make of it.
3. `Database.of_redefine?_createIndex`, `of_redefine?_addStatement` and
   `of_redefine?_createStatement`: what a statement that was carried out has changed.
4. `Database.of_redefineAll?_indices` and `of_redefineAll?_columns`: the same for all indices of a
   mapping, and for all columns that a table lacks.
-/

namespace RecordMapper

/-! ## Names -/

namespace Definition

theorem isReserved_congr {a b : String} (h : sameFolded a b = true) :
    isReserved a = isReserved b := by
  unfold isReserved
  rw [beq_iff_eq.mp h]

/-- The names of the indices that constraints call for belong to the engine. -/
theorem isReserved_automatic (rest : String) : isReserved (Listing.automatic ++ rest) = true := by
  have hprefix : (Listing.automatic.toList.map Char.toLower) =
      "sqlite_".toList ++ "autoindex_".toList := by decide
  have hlist : (foldCase (Listing.automatic ++ rest)).toList =
      "sqlite_".toList ++ ("autoindex_".toList ++ rest.toList.map Char.toLower) := by
    unfold foldCase
    rw [String.toList_ofList, String.toList_append, List.map_append, hprefix, List.append_assoc]
  unfold isReserved
  rw [hlist]
  generalize "sqlite_".toList = front
  exact List.isPrefixOf_iff_prefix.mpr (List.prefix_append _ _)

namespace Draft

/-- A draft of a table whose columns are some and one more, with indices for constraints only. -/
structure Over (t : Table) (column : String) (plain : Prop) (d : Draft) : Prop where
  columns : ∃ c, d.table.columns = t.columns ++ [c] ∧ c.name = column ∧ (plain → c.fallback = none)
  name : d.table.name = t.name
  rows : d.table.rows = t.rows
  automatic : ∀ ix ∈ d.indices, isReserved ix.name = true

variable {t : Table} {column : String} {plain : Prop} {d d' : Draft}

theorem Over.setColumn (h : d.Over t column plain) {f : StoredColumn → StoredColumn}
    (hname : ∀ c, (f c).name = c.name) (hf : plain → ∀ c, (f c).fallback = c.fallback) :
    (d.setColumn f).Over t column plain := by
  obtain ⟨⟨c, hcolumns, hc, hplain⟩, htable, hrows, hauto⟩ := h
  refine ⟨⟨f c, ?_, (hname c).trans hc, fun he => (hf he c).trans (hplain he)⟩,
    htable, hrows, hauto⟩
  show d.table.columns.modify (d.table.columns.length - 1) f = _
  rw [hcolumns, List.length_append, List.length_singleton, Nat.add_sub_cancel]
  clear hcolumns
  generalize t.columns = front
  induction front with
  | nil => rfl
  | cons a rest ih => exact congrArg (a :: ·) ih

/-- Two drafts of a table with the same columns, where the new one may have more indices for
constraints. -/
structure Keeps (d d' : Draft) : Prop where
  names : d'.table.columns.map StoredColumn.name = d.table.columns.map StoredColumn.name
  name : d'.table.name = d.table.name
  rows : d'.table.rows = d.table.rows
  automatic : (∀ ix ∈ d.indices, isReserved ix.name = true) →
    ∀ ix ∈ d'.indices, isReserved ix.name = true

theorem Keeps.refl (d : Draft) : d.Keeps d := ⟨rfl, rfl, rfl, id⟩

theorem Keeps.trans {d'' : Draft} (h : d.Keeps d') (h' : d'.Keeps d'') : d.Keeps d'' :=
  ⟨h'.names.trans h.names, h'.name.trans h.name, h'.rows.trans h.rows, h'.automatic ∘ h.automatic⟩

theorem table_addIndex (d : Draft) (terms : List IndexTerm) (origin : IndexOrigin) :
    (d.addIndex terms origin).table = d.table := by
  unfold addIndex
  split
  · rfl
  · rfl

theorem keeps_addIndex (d : Draft) (terms : List IndexTerm) (origin : IndexOrigin) :
    d.Keeps (d.addIndex terms origin) := by
  have htable := table_addIndex d terms origin
  refine ⟨by rw [htable], by rw [htable], by rw [htable], fun h ix hix => ?_⟩
  unfold addIndex at hix
  split at hix
  · obtain ⟨jx, hjx, rfl⟩ := List.mem_map.mp hix
    split
    · exact h jx hjx
    · exact h jx hjx
  · rcases List.mem_cons.mp hix with rfl | hix
    · show isReserved (Listing.automatic ++ d.table.name ++ "_" ++ _) = true
      rw [String.append_assoc, String.append_assoc]
      exact isReserved_automatic _
    · exact h ix hix

def withKey (d : Draft) (key : List Nat) : Draft :=
  { d with keyed := true, table := { d.table with key } }

/-- A key of a draft that has none is the column of the row numbers, or it gets an index. -/
theorem of_addKey {terms : List IndexTerm} {descending autoIncrement : Bool}
    (h : d.addKey terms descending autoIncrement = .ok d') : d.keyed = false ∧
      ((∃ i, terms.filterMap IndexTerm.column = [i] ∧ isIntegerType d.table i = true ∧
          d' = { d.withKey [i] with
            table := { (d.withKey [i]).table with rowidColumn := some i, autoIncrement } }) ∨
        ((∀ i, terms.filterMap IndexTerm.column = [i] → autoIncrement = false) ∧
          d' = (d.withKey (terms.filterMap IndexTerm.column)).addIndex terms .primaryKey)) := by
  unfold addKey at h
  split at h
  · cases h
  rename_i hkeyed
  refine ⟨Bool.eq_false_iff.mpr hkeyed, ?_⟩
  simp only at h
  split at h
  · rename_i i hterms
    split at h
    · rename_i htype
      cases h
      exact .inl ⟨i, hterms, (Bool.and_eq_true_iff.mp htype).1, hterms ▸ rfl⟩
    · split at h
      · cases h
      · rename_i hauto
        cases h
        exact .inr ⟨fun _ _ => Bool.eq_false_iff.mpr hauto, rfl⟩
  · rename_i hmany
    cases h
    exact .inr ⟨fun i hi => absurd hi (hmany i), rfl⟩

theorem keeps_addKey {terms : List IndexTerm} {descending autoIncrement : Bool}
    (h : d.addKey terms descending autoIncrement = .ok d') :
    d.Keeps d' ∧ d'.table.columns = d.table.columns := by
  obtain ⟨-, ⟨i, -, -, rfl⟩ | ⟨-, rfl⟩⟩ := of_addKey h
  · exact ⟨⟨rfl, rfl, rfl, id⟩, rfl⟩
  · have hkeyed : d.Keeps (d.withKey (terms.filterMap IndexTerm.column)) := ⟨rfl, rfl, rfl, id⟩
    exact ⟨hkeyed.trans (keeps_addIndex _ _ _), by rw [table_addIndex]; rfl⟩

theorem keeps_constrainTable {k : Sql.TableConstraint} (h : d.constrainTable k = .ok d') :
    d.Keeps d' := by
  cases k with
  | primaryKey columns =>
    obtain ⟨terms, -, h⟩ := ok_of_bind h
    exact (keeps_addKey h).1
  | unique columns =>
    obtain ⟨terms, -, h⟩ := ok_of_bind h
    cases h
    exact keeps_addIndex _ _ _
  | check condition label =>
    obtain ⟨f, -, h⟩ := ok_of_bind h
    cases h
    exact ⟨rfl, rfl, rfl, id⟩

theorem keeps_constrainTables {ks : List Sql.TableConstraint} {d d' : Draft}
    (h : ks.foldlM Draft.constrainTable d = .ok d') : d.Keeps d' := by
  induction ks generalizing d with
  | nil =>
    cases h
    exact .refl _
  | cons k rest ih =>
    rw [List.foldlM_cons] at h
    obtain ⟨q, hq, h⟩ := ok_of_bind h
    exact (keeps_constrainTable hq).trans (ih h)

/-- The draft whose rows have no numbers, and whose key columns may not be null. -/
def numberless (d : Draft) : Draft :=
  let columns := d.table.columns.zipIdx.map fun x =>
    if d.table.key.contains x.2 then { x.1 with notNull := true } else x.1
  { d with table := { d.table with columns, withoutRowid := true, rowidColumn := none } }

theorem getElem?_numberless (d : Draft) (i : Nat) : d.numberless.table.columns[i]? =
    d.table.columns[i]?.map fun s =>
      if d.table.key.contains i then { s with notNull := true } else s := by
  show (d.table.columns.zipIdx.map _)[i]? = _
  rw [List.getElem?_map, List.getElem?_zipIdx, Option.map_map]
  simp only [Function.comp_def, Nat.zero_add]

/-- A key that was the column of the row numbers gets an index. -/
theorem of_withoutRowid (h : d.withoutRowid = .ok d') : d.table.autoIncrement = false ∧
    ((∃ i, d.table.rowidColumn = some i ∧ d' = d.numberless.addIndex
        [⟨some i, (d.numberless.table.columns[i]?.map StoredColumn.collation).getD .binary⟩]
          .primaryKey) ∨
      (d.table.rowidColumn = none ∧ d' = d.numberless)) := by
  unfold withoutRowid at h
  simp only at h
  split at h
  · cases h
  rename_i hauto
  refine ⟨Bool.eq_false_iff.mpr hauto, ?_⟩
  split at h
  · cases h
  split at h
  · rename_i i hrowid
    cases h
    exact .inl ⟨i, hrowid, rfl⟩
  · rename_i hrowid
    cases h
    exact .inr ⟨hrowid, rfl⟩

theorem keeps_withoutRowid (h : d.withoutRowid = .ok d') : d.Keeps d' := by
  have hnames : d.numberless.table.columns.map StoredColumn.name =
      d.table.columns.map StoredColumn.name := by
    refine List.ext_getElem? fun i => ?_
    rw [List.getElem?_map, List.getElem?_map, getElem?_numberless, Option.map_map]
    refine congrArg (Option.map · _) (funext fun s => ?_)
    show StoredColumn.name (if _ then _ else _) = _
    split <;> rfl
  have hkeeps : d.Keeps d.numberless := ⟨hnames, rfl, rfl, id⟩
  obtain ⟨-, ⟨i, -, rfl⟩ | ⟨-, rfl⟩⟩ := of_withoutRowid h
  · exact hkeeps.trans (keeps_addIndex _ _ _)
  · exact hkeeps

theorem Over.of_keeps (h : d.Over t column plain) (hk : d.Keeps d')
    (hc : d'.table.columns = d.table.columns) : d'.Over t column plain :=
  ⟨by rw [hc]; exact h.columns, hk.name.trans h.name, hk.rows.trans h.rows, hk.automatic h.automatic⟩

/-- A constraint says nothing of the other columns, and only a default gives a value to its own. -/
theorem Over.constrain (h : d.Over t column plain) {k : Sql.ColumnConstraint}
    (hk : plain → ∀ value spelling, k ≠ .default value spelling)
    (hd : d.constrain column k = .ok d') : d'.Over t column plain := by
  cases k with
  | primaryKey descending autoIncrement =>
    simp only [Draft.constrain] at hd
    obtain ⟨hkeeps, hcolumns⟩ := keeps_addKey hd
    exact h.of_keeps hkeeps hcolumns
  | notNull =>
    cases hd
    exact h.setColumn (fun _ => rfl) fun _ _ => rfl
  | nullable =>
    cases hd
    exact h
  | unique =>
    cases hd
    exact h.of_keeps (keeps_addIndex _ _ _) (by rw [table_addIndex])
  | default value spelling =>
    obtain ⟨v, -, hd⟩ := ok_of_bind hd
    cases hd
    exact h.setColumn (fun _ => rfl) fun he => absurd rfl (hk he value spelling)
  | collate name =>
    unfold Draft.constrain at hd
    simp only at hd
    split at hd
    · cases hd
      rename_i collation _
      have hset := h.setColumn (f := fun c => { c with collation }) (fun _ => rfl) fun _ _ => rfl
      refine ⟨hset.columns, hset.name, hset.rows, fun ix hix => ?_⟩
      obtain ⟨jx, hjx, rfl⟩ := List.mem_map.mp hix
      exact h.automatic jx hjx
    · cases hd
  | check condition label =>
    obtain ⟨f, -, hd⟩ := ok_of_bind hd
    cases hd
    exact ⟨h.columns, h.name, h.rows, h.automatic⟩

theorem over_addColumn {spec : Sql.ColumnSpec} (hi : ∀ ix ∈ d.indices, isReserved ix.name = true)
    (hk : plain → ∀ k ∈ spec.constraints, ∀ value spelling, k ≠ .default value spelling)
    (h : d.addColumn spec = .ok d') :
    d.table.columnPlace? spec.name = none ∧ d'.Over d.table spec.name plain := by
  rw [addColumn_eq] at h
  split at h
  · cases h
  · rename_i hplace
    refine ⟨Option.not_isSome_iff_eq_none.mp hplace, ?_⟩
    have hopened : (d.opened spec).Over d.table spec.name plain :=
      ⟨⟨_, rfl, rfl, fun _ => rfl⟩, rfl, rfl, hi⟩
    generalize d.opened spec = q at h hopened
    generalize spec.constraints = ks at h hk
    induction ks generalizing q with
    | nil =>
      cases h
      exact hopened
    | cons k rest ih =>
      rw [List.foldlM_cons] at h
      obtain ⟨q', hq', h⟩ := ok_of_bind h
      exact ih q' (hopened.constrain (fun he => hk he k List.mem_cons_self) hq') h
        fun he k hk' => hk he k (List.mem_cons_of_mem _ hk')

end Draft

end Definition

theorem Column.not_default_of_mem_constraints {c : Column} {k : Sql.ColumnConstraint}
    (h : k ∈ c.constraints) {value : Sql.Scalar} {spelling : String} :
    k ≠ .default value spelling := by
  rintro rfl
  unfold Column.constraints at h
  rcases List.mem_append.mp h with h | h
  · rcases List.mem_append.mp h with h | h
    · split at h
      · cases List.mem_singleton.mp h
      · cases h
    · split at h
      · cases h
      · cases List.mem_singleton.mp h
  · cases hc : c.collation with
    | none =>
      rw [hc] at h
      cases h
    | some collation =>
      rw [hc] at h
      cases List.mem_singleton.mp h

theorem Column.names_of_specs {ticks : Bool} {cs : List Column} {specs : List Sql.ColumnSpec}
    (h : List.Forall₂ (fun c spec => c.spec? ticks = some spec) cs specs) :
    specs.map Sql.ColumnSpec.name = cs.map Column.name := by
  induction h with
  | nil => rfl
  | cons hspec _ ih =>
    obtain ⟨type, -, rfl⟩ := Option.map_eq_some_iff.mp hspec
    exact congrArg (_ :: ·) ih

/-! ## Statements -/

/-- The cell that a row has in a column that was added after it. -/
def StoredColumn.missing (c : StoredColumn) : Cell :=
  ((c.fallback.map Prod.fst).getD .null).stored c.affinity

theorem StoredColumn.missing_of_no_fallback {c : StoredColumn} (h : c.fallback = none) :
    c.missing = .null := by
  unfold missing
  rw [h]
  cases c.affinity <;> rfl

namespace Table

def extended (t : Table) (added : List StoredColumn) : Table :=
  { t with
    columns := t.columns ++ added
    rows := t.rows.map fun r => { r with cells := r.cells ++ added.map StoredColumn.missing } }

theorem extended_nil (t : Table) : t.extended [] = t := by
  unfold extended
  simp

theorem extended_append (t : Table) (as bs : List StoredColumn) :
    (t.extended as).extended bs = t.extended (as ++ bs) := by
  unfold extended
  simp

/-- The term of an index for a column by its name; a name in quotes that is none of a column is a
text. -/
def term (t : Table) (column : String) : IndexTerm :=
  match t.columnPlace? column with
  | some i => ⟨some i, (t.columns[i]?.map StoredColumn.collation).getD .binary⟩
  | none => ⟨none, .binary⟩

def planned (t : Table) (p : IndexPlan) : Index :=
  ⟨p.name, t.name, p.unique, p.members.map fun (_, c) => t.term c, .created⟩

end Table

namespace Database

variable {d d' : Database}

theorem of_redefine? {text : String} (h : d.redefine? text = some d') {s : Sql.Statement}
    {parameters : Sql.Parameters} (hs : Sql.readStatement text = .ok (some s, parameters)) :
    ∃ definition, Program.of d parameters s = .ok (.define definition) ∧
      definition.run d = .ok d' := by
  unfold redefine? at h
  rw [hs] at h
  simp only at h
  split at h
  · rename_i definition hof
    cases hrun : definition.run d with
    | error fault =>
      rw [hrun] at h
      cases h
    | ok e =>
      rw [hrun] at h
      cases h
      exact ⟨definition, hof, hrun⟩
  · cases h

theorem read_of_redefine? {text : String} (h : d.redefine? text = some d') :
    ∃ s parameters, Sql.readStatement text = .ok (some s, parameters) := by
  unfold redefine? at h
  split at h
  · exact ⟨_, _, by assumption⟩
  · cases h

/-- A text that is carried out is read as what is known of it. -/
theorem of_redefine?_readsAs {text : String} (h : d.redefine? text = some d') {s : Sql.Statement}
    {parameters : Sql.Parameters} (hs : Sql.ReadsAs text (some s, parameters)) :
    ∃ definition, Program.of d parameters s = .ok (.define definition) ∧
      definition.run d = .ok d' := by
  obtain ⟨s', parameters', hread⟩ := read_of_redefine? h
  cases (hs.of_ok hread).2
  exact of_redefine? h hread

theorem tableFor_ok {action name : String} {missing : EngineFault} {t : Table}
    (h : d.tableFor action name missing = .ok t) : d.table? name = some t := by
  unfold tableFor at h
  split at h
  · cases h
    assumption
  · cases h
  · cases h

theorem sameFolded_of_table? {name : String} {t : Table} (h : d.table? name = some t) :
    sameFolded t.name name = true :=
      List.find?_some (p := fun t : Table => sameFolded t.name name) h

/-- Names that are the same up to case are those of the same table. -/
theorem table?_congr {a b : String} (h : sameFolded a b = true) : d.table? a = d.table? b := by
  unfold table?
  congr 1
  funext t
  unfold sameFolded
  rw [beq_iff_eq.mp h]

/-- A table is found by its own name, too. -/
theorem table?_name {name : String} {t : Table} (h : d.table? name = some t) :
    d.table? t.name = some t := by
  rw [table?_congr (sameFolded_of_table? h), h]

theorem index?_congr {a b : String} (h : sameFolded a b = true) : d.index? a = d.index? b := by
  unfold index?
  congr 1
  funext t
  unfold sameFolded
  rw [beq_iff_eq.mp h]

theorem terms_named {t : Table} {cs : List String} {columns : List Sql.IndexedColumn}
    (h : List.Forall₂ Sql.NamedColumn cs columns) :
    Definition.terms t.columns columns (fun w => if w.quoted then pure ⟨none, .binary⟩
      else .error ⟨.noColumn w.name, some w.offset⟩) = .ok (cs.map t.term) := by
  unfold Definition.terms
  induction h with
  | nil => rfl
  | @cons c w cs columns hw _ ih =>
    obtain ⟨name, quoted, collation, offset⟩ := w
    obtain ⟨rfl, rfl, rfl⟩ := hw
    rw [List.mapM_cons, ih, List.map_cons]
    unfold Table.term Table.columnPlace?
    dsimp only
    cases t.columns.findIdx? fun c' => sameFolded c'.name name with
    | none => rfl
    | some i => rfl

/-- A plan's index is created where its name is free; a name that an index has already is left
alone. -/
theorem of_redefine?_createIndex {p : IndexPlan} {table : String} (hne : p.members ≠ [])
    (h : d.redefine? (createIndexStatement p.name table (p.members.map Prod.snd) p.unique) = some d') :
    ∃ t, d.table? table = some t ∧ Definition.isReserved p.name = false ∧ d.table? p.name = none ∧
      ((d.index? p.name).isSome ∧ d' = d ∨ d.index? p.name = none ∧
        d'.tables = d.tables ∧ d'.indices = t.planned p :: d.indices) := by
  obtain ⟨⟨order, c⟩, rest, hmembers⟩ := List.exists_cons_of_ne_nil hne
  rw [hmembers, List.map_cons] at h
  obtain ⟨columns, text, parameters, hcolumns, hread⟩ :=
    Sql.readsAs_createIndex p.name table c (rest.map Prod.snd) p.unique
  obtain ⟨definition, hof, hrun⟩ := of_redefine?_readsAs h hread
  obtain ⟨_, hdefinition, hof⟩ := ok_of_bind hof
  cases hof
  obtain ⟨t, ht, hreserved, hname, hcases⟩ := Definition.of_ofCreateIndex hdefinition
  have ht := tableFor_ok ht
  refine ⟨t, ht, hreserved, hname, ?_⟩
  rcases hcases with ⟨hi, rfl⟩ | ⟨hi, terms, hterms, rfl⟩
  · cases hrun
    exact .inl ⟨hi, rfl⟩
  · rw [terms_named hcolumns] at hterms
    cases hterms
    refine .inr ⟨hi, ?_⟩
    simp only [Definition.run] at hrun
    split at hrun
    · cases hrun
    · split at hrun
      · cases hrun
      · cases hrun
        refine ⟨rfl, ?_⟩
        unfold Table.planned
        rw [hmembers, List.map_cons, List.map_map]
        rfl

/-- A table that is exchanged is found under its name; the others are as they were. -/
theorem table?_setTable {t u : Table} {name : String} (h : d.table? name = some t)
    (hu : u.name = t.name) (other : String) :
    (d.setTable u).table? other = if sameFolded name other then some u else d.table? other := by
  have hname : foldCase u.name = foldCase name := by
    rw [hu]
    exact beq_iff_eq.mp (sameFolded_of_table? h)
  have hfind : ∀ ts : List Table, (ts.map fun v => if sameFolded v.name u.name then u else v).find?
      (fun v => sameFolded v.name other) =
        if sameFolded name other then (ts.find? fun v => sameFolded v.name name).map fun _ => u
        else ts.find? fun v => sameFolded v.name other := by
    intro ts
    unfold sameFolded
    rw [hname]
    induction ts with
    | nil => simp
    | cons v rest ih =>
      rw [List.map_cons, List.find?_cons, List.find?_cons, List.find?_cons, ih]
      by_cases hv : foldCase v.name = foldCase name
      · by_cases ho : foldCase name = foldCase other
        · simp [hv, ho, hname]
        · simp [hv, hname, beq_false_of_ne ho]
      · by_cases ho : foldCase name = foldCase other
        · have hvo : foldCase v.name ≠ foldCase other := fun e => hv (e.trans ho.symm)
          simp [ho, beq_false_of_ne hvo]
        · simp [hv, ho]
  unfold table? at h ⊢
  unfold setTable
  dsimp only
  rw [hfind, h]
  rfl

/-- A column is added behind the others; every row gets the same cell in it. -/
theorem of_redefine?_addStatement {m : Mapping} {ticks : Bool} {c : Column} {text : String}
    (h : m.addStatement ticks c = .ok text) (hd : d.redefine? text = some d') :
    ∃ t column, d.table? m.table = some t ∧ t.columnPlace? c.name = none ∧ column.name = c.name ∧
      (c.Declarable → column.fallback = none) ∧ d'.indices = d.indices ∧
      ∀ name, d'.table? name =
        if sameFolded m.table name then some (t.extended [column]) else d.table? name := by
  obtain ⟨s, parameters, hread⟩ := read_of_redefine? hd
  obtain ⟨spec, spelling, rfl, hname⟩ := Mapping.addColumn_addStatement h hread
  obtain ⟨definition, hof, hrun⟩ := of_redefine? hd hread
  obtain ⟨_, hdefinition, hof⟩ := ok_of_bind hof
  cases hof
  obtain ⟨t, draft, ht, hdraft, hcases⟩ := Definition.of_ofAddColumn hdefinition
  have ht := tableFor_ok ht
  have hplain : c.Declarable → ∀ k ∈ spec.constraints, ∀ value spelling,
      k ≠ .default value spelling := by
    intro hc k hk value spelling hdefault
    obtain ⟨spec', spelling', _, hspec, hread'⟩ := Mapping.readsAs_addStatement hc h
    cases (hread'.of_ok hread).2
    obtain ⟨type, -, rfl⟩ := Option.map_eq_some_iff.mp hspec
    exact Column.not_default_of_mem_constraints hk hdefault
  obtain ⟨hplace, ⟨column, hcolumns, hcolumn, hempty⟩, -, -, -⟩ :=
    Definition.Draft.over_addColumn (fun _ hix => absurd hix List.not_mem_nil) hplain hdraft
  rcases hcases with ⟨hlast, rfl⟩ | ⟨_, hlast, rfl⟩
  · rw [hcolumns, List.getLast?_concat] at hlast
    cases hlast
  · rw [hcolumns, List.getLast?_concat] at hlast
    cases hlast
    simp only [Definition.run] at hrun
    rw [table?_name ht] at hrun
    simp only at hrun
    split at hrun
    · cases hrun
    · cases hrun
      refine ⟨t, column, ht, hname ▸ hplace, hcolumn.trans hname, hempty, rfl, fun name => ?_⟩
      exact table?_setTable (d := d.redefined) (u := t.extended [column]) ht rfl name

/-- A table that is created is empty and has the specified columns first to last; the indices that
it calls for have names of the engine's own. -/
theorem of_drafted {spec : Sql.TableSpec} {draft : Definition.Draft}
    (h : Definition.drafted spec = .ok draft) :
    draft.table.name = spec.name ∧ draft.table.rows = [] ∧
      draft.table.columns.map StoredColumn.name = spec.columns.map Sql.ColumnSpec.name ∧
      ∀ ix ∈ draft.indices, Definition.isReserved ix.name = true := by
  have hcolumns : ∀ (specs : List Sql.ColumnSpec) {q q' : Definition.Draft},
      (∀ ix ∈ q.indices, Definition.isReserved ix.name = true) →
      specs.foldlM Definition.Draft.addColumn q = .ok q' →
      q'.table.columns.map StoredColumn.name = q.table.columns.map StoredColumn.name ++
        specs.map Sql.ColumnSpec.name ∧ q'.table.name = q.table.name ∧
        q'.table.rows = q.table.rows ∧
        ∀ ix ∈ q'.indices, Definition.isReserved ix.name = true := by
    intro specs
    induction specs with
    | nil =>
      intro q q' hi h
      cases h
      exact ⟨by simp, rfl, rfl, hi⟩
    | cons spec rest ih =>
      intro q q' hi h
      rw [List.foldlM_cons] at h
      obtain ⟨r, hr, h⟩ := ok_of_bind h
      have hover : r.Over q.table spec.name False :=
        (Definition.Draft.over_addColumn hi (fun h => h.elim) hr).2
      obtain ⟨⟨c, hc, hname, -⟩, htable, hrows, hauto⟩ := hover
      obtain ⟨hcolumns, htable', hrows', hauto'⟩ := ih hauto h
      refine ⟨?_, htable'.trans htable, hrows'.trans hrows, hauto'⟩
      rw [hcolumns, hc, List.map_append, List.map_singleton, hname, List.map_cons,
        List.append_assoc]
      rfl
  unfold Definition.drafted at h
  obtain ⟨first, hfirst, h⟩ := ok_of_bind h
  obtain ⟨second, hsecond, h⟩ := ok_of_bind h
  obtain ⟨hnames, hname, hrows, hauto⟩ :=
    hcolumns spec.columns (fun _ hix => absurd hix List.not_mem_nil) hfirst
  have hkeeps := Definition.Draft.keeps_constrainTables hsecond
  have hfinal : second.Keeps draft := by
    split at h
    · exact Definition.Draft.keeps_withoutRowid h
    · cases h
      exact .refl _
  have hall := hkeeps.trans hfinal
  exact ⟨hall.name.trans hname, hall.rows.trans hrows, hall.names.trans hnames,
    hall.automatic hauto⟩

/-- A table is created where its name is free; a name that a table has already is left alone. -/
theorem of_redefine?_createStatement {m : Mapping} {ticks : Bool} {text : String}
    (h : m.createStatement ticks = .ok text) (hd : d.redefine? text = some d') :
    (d.table? m.table).isSome ∧ d' = d ∨ d.table? m.table = none ∧ ∃ t indices, t.name = m.table ∧
      t.rows = [] ∧ (∀ ix ∈ indices, Definition.isReserved ix.name = true) ∧
      d'.tables = d.tables ++ [t] ∧ d'.indices = indices ++ d.indices ∧
      (m.columns ≠ [] → (∀ c ∈ m.columns, c.Declarable) →
        t.columns.map StoredColumn.name = m.columns.map Column.name) := by
  obtain ⟨s, parameters, hread⟩ := read_of_redefine? hd
  obtain ⟨spec, rfl, hname⟩ := Mapping.createTable_createStatement h hread
  obtain ⟨definition, hof, hrun⟩ := of_redefine? hd hread
  obtain ⟨_, hdefinition, hof⟩ := ok_of_bind hof
  cases hof
  rcases Definition.of_ofCreateTable hdefinition with ⟨ht, rfl⟩ | ⟨ht, -, draft, hdraft, rfl⟩
  · cases hrun
    exact .inl ⟨hname ▸ ht, rfl⟩
  · obtain ⟨htable, hrows, hcolumns, hauto⟩ := of_drafted hdraft
    cases hrun
    refine .inr ⟨hname ▸ ht, draft.table, draft.indices, htable.trans hname, hrows,
      hauto, rfl, rfl, ?_⟩
    intro hne hc
    obtain ⟨specs, text, offset, _, hspecs, hread'⟩ := Mapping.readsAs_createStatement hc hne h
    cases (hread'.of_ok hread).2
    rw [hcolumns]
    exact Column.names_of_specs hspecs

/-! ## Scripts -/

theorem redefineAll?_cons {text : String} {texts : List String}
    (h : d.redefineAll? (text :: texts) = some d') :
    ∃ e, d.redefine? text = some e ∧ e.redefineAll? texts = some d' := by
  unfold redefineAll? at h
  rw [List.foldlM_cons] at h
  exact Option.bind_eq_some_iff.mp h

/-- Every statement of a script that was carried out was read. -/
theorem read_of_redefineAll? {texts : List String} (h : d.redefineAll? texts = some d')
    {text : String} (ht : text ∈ texts) :
    ∃ s parameters, Sql.readStatement text = .ok (some s, parameters) := by
  induction texts generalizing d with
  | nil => cases ht
  | cons first rest ih =>
    obtain ⟨e, hfirst, hrest⟩ := redefineAll?_cons h
    rcases List.mem_cons.mp ht with rfl | ht
    · exact read_of_redefine? hfirst
    · exact ih hrest ht

theorem redefineAll?_append {texts more : List String}
    (h : d.redefineAll? (texts ++ more) = some d') :
    ∃ e, d.redefineAll? texts = some e ∧ e.redefineAll? more = some d' := by
  unfold redefineAll? at h
  rw [List.foldlM_append] at h
  exact Option.bind_eq_some_iff.mp h

abbrev planText (table : String) (p : IndexPlan) : String :=
  createIndexStatement p.name table (p.members.map Prod.snd) p.unique

/-- A plan opens its name: the database has no index of it, and no plan before has it up to case. -/
def Opens (d : Database) (plans : List IndexPlan) (p : IndexPlan) : Prop :=
  d.index? p.name = none ∧ plans.find? (fun q => sameFolded q.name p.name) = some p

theorem Opens.mem {plans : List IndexPlan} {p : IndexPlan} (h : d.Opens plans p) : p ∈ plans :=
  List.mem_of_find?_eq_some h.2

theorem opens_cons_taken {p q : IndexPlan} {rest : List IndexPlan} (hp : (d.index? p.name).isSome) :
    d.Opens (p :: rest) q ↔ d.Opens rest q := by
  unfold Opens
  rw [List.find?_cons]
  by_cases hsame : sameFolded p.name q.name = true
  · rw [index?_congr hsame] at hp
    constructor
    · rintro ⟨hnone, -⟩
      rw [hnone] at hp
      cases hp
    · rintro ⟨hnone, -⟩
      rw [hnone] at hp
      cases hp
  · rw [Bool.not_eq_true] at hsame
    rw [hsame]

/-- A plan whose name is free opens it; the others open theirs once its index is there. -/
theorem opens_cons_free {e : Database} {ix : Index} {p q : IndexPlan} {rest : List IndexPlan}
    (hp : d.index? p.name = none) (hname : ix.name = p.name) (he : e.indices = ix :: d.indices) :
    d.Opens (p :: rest) q ↔ q = p ∨ e.Opens rest q := by
  have hfound : e.index? q.name =
      if sameFolded p.name q.name then some ix else d.index? q.name := by
    unfold index?
    rw [he, List.find?_cons, hname]
    cases sameFolded p.name q.name <;> rfl
  unfold Opens
  rw [List.find?_cons, hfound]
  by_cases hsame : sameFolded p.name q.name = true
  · rw [hsame, if_pos rfl]
    constructor
    · rintro ⟨-, hq⟩
      exact .inl (Option.some.inj hq).symm
    · rintro (rfl | ⟨hnone, -⟩)
      · exact ⟨hp, rfl⟩
      · cases hnone
  · have hne : ¬ q = p := by
      rintro rfl
      exact hsame (sameFolded_refl _)
    rw [Bool.not_eq_true] at hsame
    rw [hsame, if_neg Bool.false_ne_true]
    constructor
    · exact .inr
    · rintro (hq | hq)
      · exact absurd hq hne
      · exact hq

/-- After the statements of all plans there are the indices of before, and one for each plan that
opens its name. -/
theorem of_redefineAll?_indices {plans : List IndexPlan} {table : String} {t : Table}
    (hne : ∀ p ∈ plans, p.members ≠ []) (ht : d.table? table = some t)
    (h : d.redefineAll? (plans.map (planText table)) = some d') :
    (∀ p ∈ plans, Definition.isReserved p.name = false ∧ d.table? p.name = none) ∧
      d'.tables = d.tables ∧
      ∀ ix, ix ∈ d'.indices ↔ ix ∈ d.indices ∨ ∃ p, d.Opens plans p ∧ ix = t.planned p := by
  induction plans generalizing d with
  | nil =>
    cases h
    refine ⟨fun _ hp => absurd hp List.not_mem_nil, rfl, fun ix => ⟨.inl, ?_⟩⟩
    rintro (hix | ⟨p, hp, -⟩)
    · exact hix
    · exact absurd hp.mem List.not_mem_nil
  | cons p rest ih =>
    obtain ⟨e, he, h⟩ := redefineAll?_cons h
    obtain ⟨t', ht', hreserved, hname, hcases⟩ :=
      of_redefine?_createIndex (hne p List.mem_cons_self) he
    rw [ht] at ht'
    cases ht'
    have htables : e.tables = d.tables := by
      rcases hcases with ⟨-, rfl⟩ | ⟨-, htables, -⟩
      · rfl
      · exact htables
    have hfound : ∀ name, e.table? name = d.table? name := by
      intro name
      unfold table?
      rw [htables]
    have hte : e.table? table = some t := (hfound table).trans ht
    obtain ⟨hall, htables', hindices⟩ := ih (fun q hq => hne q (List.mem_cons_of_mem _ hq)) hte h
    refine ⟨fun q hq => ?_, htables'.trans htables, fun ix => ?_⟩
    · rcases List.mem_cons.mp hq with rfl | hq
      · exact ⟨hreserved, hname⟩
      · rw [← hfound]
        exact hall q hq
    · rw [hindices]
      rcases hcases with ⟨hi, rfl⟩ | ⟨hi, -, hnew⟩
      · simp only [opens_cons_taken hi]
      · rw [hnew, List.mem_cons]
        constructor
        · rintro ((rfl | hix) | ⟨q, hq, rfl⟩)
          · exact .inr ⟨p, (opens_cons_free hi rfl hnew).mpr (.inl rfl), rfl⟩
          · exact .inl hix
          · exact .inr ⟨q, (opens_cons_free hi rfl hnew).mpr (.inr hq), rfl⟩
        · rintro (hix | ⟨q, hq, rfl⟩)
          · exact .inl (.inr hix)
          · rcases (opens_cons_free hi rfl hnew).mp hq with rfl | hq
            · exact .inl (.inl rfl)
            · exact .inr ⟨q, hq, rfl⟩

/-- After the statements of all columns that a table lacks, these stand behind its own. -/
theorem of_redefineAll?_columns {m : Mapping} {ticks : Bool} {cs : List Column}
    {texts : List String} {t : Table} (ht : d.table? m.table = some t)
    (htexts : cs.map (m.addStatement ticks) = texts.map .ok) (h : d.redefineAll? texts = some d') :
    ∃ added, List.Forall₂ (fun a c => a.name = c.name ∧ (c.Declarable → a.fallback = none)) added cs ∧
      d'.indices = d.indices ∧ ∀ name, d'.table? name =
        if sameFolded m.table name then some (t.extended added) else d.table? name := by
  induction cs generalizing d t texts with
  | nil =>
    obtain rfl : texts = [] := List.map_eq_nil_iff.mp htexts.symm
    cases h
    refine ⟨[], .nil, rfl, fun name => ?_⟩
    by_cases hn : sameFolded m.table name = true
    · rw [if_pos hn, ← table?_congr hn, ht, Table.extended_nil]
    · rw [if_neg hn]
  | cons c rest ih =>
    obtain ⟨text, texts, rfl⟩ : ∃ x xs, texts = x :: xs := by
      cases texts with
      | nil => cases htexts
      | cons x xs => exact ⟨x, xs, rfl⟩
    rw [List.map_cons, List.map_cons, List.cons.injEq] at htexts
    obtain ⟨e, he, h⟩ := redefineAll?_cons h
    obtain ⟨t', column, ht', -, hname, hempty, hindices, htables⟩ :=
      of_redefine?_addStatement htexts.1 he
    rw [ht] at ht'
    cases ht'
    have hte : e.table? m.table = some (t.extended [column]) := by
      rw [htables, if_pos (sameFolded_refl _)]
    obtain ⟨added, hadded, hindices', htables'⟩ := ih hte htexts.2 h
    refine ⟨column :: added, .cons ⟨hname, hempty⟩ hadded, hindices'.trans hindices, fun name => ?_⟩
    rw [htables', htables, Table.extended_append, List.singleton_append]
    by_cases hn : sameFolded m.table name = true
    · rw [if_pos hn, if_pos hn]
    · rw [if_neg hn, if_neg hn, if_neg hn]

end Database

end RecordMapper
