import RecordMapper.Proofs.InsertedRecords

/-!
# Columns that need a value

What the table of a mapping demands of its rows.

1. `Mapping.columns_ne_nil`: a table is created only for a mapping with columns.
2. `Definition.Draft.Requires`: a draft wants a value only in columns that may not be null, and
   checks nothing else. Every constraint keeps this.
3. `Session.CreatedFor.requires`: so does a table that a creation left, whatever rows it has by now.
-/

namespace RecordMapper

/-! ## Tables without columns -/

section Empty

open Sql Sql.Parser

theorem Sql.not_createTable_empty {text table : String} {o p i j k q a b : Nat}
    {ls rest : List Lexeme}
    {s : Statement} : statement text (wordAt "create" o :: wordAt "table" p :: wordAt "if" i ::
      wordAt "not" j :: wordAt "exists" k :: quotedName table q :: ⟨.symbol "(", "(", a⟩ ::
        ⟨.symbol ")", ")", b⟩ :: ls) ≠ .ok (s, rest) := by
  intro h
  rw [statement_createTable] at h
  unfold createTable at h
  rw [bind_apply, ifNotExists_read, ok_bind] at h
  obtain ⟨offset, _, hoffset, h⟩ := of_bind_ok h
  cases hoffset
  obtain ⟨⟨name, spelling⟩, _, hspelled, h⟩ := of_bind_ok h
  have hread := of_spelled hspelled
  rw [name_quotedName] at hread
  cases hread
  dsimp only at h
  rw [bind_apply, symbol_cons rfl, ok_bind] at h
  obtain ⟨items, _, hitems, -⟩ := of_bind_ok h
  cases hitems

namespace Mapping

variable {m : Mapping} {ticks : Bool} {text : String}

/-- Only the statement of a table with columns can be read. -/
theorem columns_ne_nil (h : m.createStatement ticks = .ok text) {s : Statement}
    {parameters : Parameters} (hs : readStatement text = .ok (some s, parameters)) :
    m.columns ≠ [] := by
  intro hnone
  obtain ⟨declarations, hdeclarations, h⟩ := ok_of_bind h
  obtain rfl := Except.ok.inj h
  rw [hnone] at hdeclarations
  obtain rfl : [] = declarations := Except.ok.inj hdeclarations
  have hitems : ∀ o, ∃ ls, Cut Delimited o (", ".intercalate []).toList ls ∧ ls = [] :=
    fun o => ⟨[], Cut.nil.weaken fun _ _ => trivial, rfl⟩
  obtain ⟨_, _, _, _, _, _, _, _, _, ls, rfl, hwhole⟩ :=
    cut_createTable m.table m.record.withoutRowid hitems
  obtain ⟨rest, hstatement⟩ := statement_of_readStatement hs
  obtain ⟨more, hfirst⟩ := hwhole.firstStatement_of_ok delimited_nil delimited_nil
    (List.append_nil _).symm hs
  rw [hfirst] at hstatement
  exact not_createTable_empty hstatement

end Mapping

end Empty

/-! ## Columns of a draft -/

/-- A table wants a value only in columns that may not be null, and it checks nothing else. -/
structure Table.Requires (t : Table) (cs : List Column) : Prop where
  required : ∀ {i : Nat} {s : StoredColumn} {c : Column}, t.columns[i]? = some s → cs[i]? = some c →
    s.notNull = true → c.nullable = false
  unchecked : t.checks = []

namespace Definition.Draft

/-- A draft of some columns wants a value only where they may not be null, its key included. -/
structure Requires (d : Draft) (cs : List Column) : Prop extends d.table.Requires cs where
  length : d.table.columns.length = cs.length
  key : ∀ i ∈ d.table.key, ∃ c, cs[i]? = some c ∧ c.nullable = false

variable {ticks : Bool} {cs : List Column} {d d' : Draft} {c : Column}

theorem Requires.opened (h : d.Requires cs) (c : Column) (spec : Sql.ColumnSpec) :
    (d.opened spec).Requires (cs ++ [c]) where
  required {i s b} hs hb hnull := by
    rw [show (d.opened spec).table.columns = d.table.columns ++ [_] from rfl, List.getElem?_append,
      h.length] at hs
    rw [List.getElem?_append] at hb
    by_cases hi : i < cs.length
    · rw [if_pos hi] at hs hb
      exact h.required hs hb hnull
    · rw [if_neg hi] at hs
      obtain rfl := List.mem_singleton.mp (List.mem_of_getElem? hs)
      cases hnull
  unchecked := h.unchecked
  length := by
    rw [show (d.opened spec).table.columns = d.table.columns ++ [_] from rfl,
      List.length_append, h.length, List.length_append]
    rfl
  key i hi := by
    obtain ⟨b, hb, hnull⟩ := h.key i hi
    exact ⟨b, (List.getElem?_append_left (List.getElem?_eq_some_iff.mp hb).1).trans hb, hnull⟩

theorem Requires.of_table (h : d.Requires cs) (ht : d'.table = d.table) : d'.Requires cs :=
  ⟨by rw [ht]; exact h.toRequires, by rw [ht]; exact h.length, by rw [ht]; exact h.key⟩

/-- The last column may change, unless it gets to want a value that it may lack. -/
theorem Requires.setColumn (h : d.Requires (cs ++ [c])) {f : StoredColumn → StoredColumn}
    (hf : ∀ s, (f s).notNull = true → s.notNull = true ∨ c.nullable = false) :
    (d.setColumn f).Requires (cs ++ [c]) where
  required {i s b} hs hb hnull := by
    rw [getElem?_setColumn] at hs
    obtain ⟨s', hs', rfl⟩ := Option.map_eq_some_iff.mp hs
    split at hnull
    · rename_i hlast
      rcases hf s' hnull with hsame | hc
      · exact h.required hs' hb hsame
      · rw [h.length, List.length_append, List.length_singleton, Nat.add_sub_cancel] at hlast
        rw [← hlast, List.getElem?_concat_length] at hb
        exact Option.some.inj hb ▸ hc
    · exact h.required hs' hb hnull
  unchecked := h.unchecked
  length := (List.length_modify ..).trans h.length
  key := h.key

/-- The last column may be the key, where it may not be null. -/
theorem Requires.primaryKey (h : d.Requires (cs ++ [c])) (hc : c.nullable = false) {name : String}
    {auto : Bool} (hd : d.constrain name (.primaryKey false auto) = .ok d') :
    d'.Requires (cs ++ [c]) := by
  have hlast : d.table.columns.length - 1 = cs.length := by
    rw [h.length, List.length_append, List.length_singleton, Nat.add_sub_cancel]
  have hkey : ∀ i ∈ [cs.length], ∃ b, (cs ++ [c])[i]? = some b ∧ b.nullable = false := by
    intro i hi
    rw [List.mem_singleton.mp hi]
    exact ⟨c, List.getElem?_concat_length, hc⟩
  simp only [constrain, hlast] at hd
  obtain ⟨-, ⟨i, hterms, -, rfl⟩ | ⟨-, rfl⟩⟩ := of_addKey hd
  · exact ⟨⟨h.required, h.unchecked⟩, h.length, hterms ▸ hkey⟩
  · have htable := table_addIndex (d.withKey [cs.length]) [⟨some cs.length, d.table.collationAt cs.length⟩]
      .primaryKey
    have hkeyed : (d.withKey [cs.length]).Requires (cs ++ [c]) :=
      ⟨⟨h.required, h.unchecked⟩, h.length, hkey⟩
    exact hkeyed.of_table htable

/-- What the statement of a table says of a column demands no value that it may lack. -/
theorem Requires.constrain (h : d.Requires (cs ++ [c])) (hkey : c.isKey = true → c.nullable = false)
    {k : Sql.ColumnConstraint} (hk : k ∈ c.constraints) {name : String}
    (hd : d.constrain name k = .ok d') :
    d'.Requires (cs ++ [c]) := by
  unfold Column.constraints at hk
  rcases List.mem_append.mp hk with hk | hk
  · rcases List.mem_append.mp hk with hk | hk
    · by_cases hc : c.isKey = true
      · rw [if_pos hc] at hk
        obtain rfl := List.mem_singleton.mp hk
        exact h.primaryKey (hkey hc) hd
      · rw [if_neg hc] at hk
        cases hk
    · by_cases hc : c.nullable = true
      · rw [if_pos hc] at hk
        cases hk
      · rw [if_neg hc] at hk
        obtain rfl := List.mem_singleton.mp hk
        cases hd
        exact h.setColumn fun _ _ => .inr (Bool.eq_false_of_not_eq_true hc)
  · cases hcollation : c.collation with
    | none =>
      rw [hcollation] at hk
      cases hk
    | some collation =>
      rw [hcollation] at hk
      obtain rfl := List.mem_singleton.mp hk
      simp only [Draft.constrain] at hd
      split at hd
      · rename_i collation' _
        cases hd
        have hset := h.setColumn (f := fun s => { s with collation := collation' }) fun _ hs =>
          .inl hs
        exact ⟨⟨hset.required, hset.unchecked⟩, hset.length, hset.key⟩
      · cases hd

theorem Requires.constrainAll (h : d.Requires (cs ++ [c]))
    (hkey : c.isKey = true → c.nullable = false) {name : String} {ks : List Sql.ColumnConstraint}
    (hks : ∀ k ∈ ks, k ∈ c.constraints)
    (hd : ks.foldlM (fun q k => Draft.constrain q name k) d = .ok d') :
    d'.Requires (cs ++ [c]) := by
  induction ks generalizing d with
  | nil =>
    cases hd
    exact h
  | cons k rest ih =>
    rw [List.foldlM_cons] at hd
    obtain ⟨q, hq, hd⟩ := ok_of_bind hd
    exact ih (h.constrain hkey (hks k List.mem_cons_self) hq)
      (fun k hk => hks k (List.mem_cons_of_mem _ hk)) hd

theorem Requires.addColumn (h : d.Requires cs) (hkey : c.isKey = true → c.nullable = false)
    {spec : Sql.ColumnSpec} (hc : c.spec? ticks = some spec) (hd : d.addColumn spec = .ok d') :
    d'.Requires (cs ++ [c]) := by
  rw [addColumn_eq] at hd
  split at hd
  · cases hd
  obtain ⟨type, -, rfl⟩ := Option.map_eq_some_iff.mp hc
  exact (h.opened c _).constrainAll hkey (fun _ hk => hk) hd

theorem Requires.addColumns {more : List Column} {specs : List Sql.ColumnSpec} (h : d.Requires cs)
    (hspecs : List.Forall₂ (fun c spec => c.spec? ticks = some spec) more specs)
    (hkey : ∀ c ∈ more, c.isKey = true → c.nullable = false)
    (hd : specs.foldlM Draft.addColumn d = .ok d') : d'.Requires (cs ++ more) := by
  induction hspecs generalizing cs d with
  | nil =>
    cases hd
    rw [List.append_nil]
    exact h
  | @cons c spec more specs hc _ ih =>
    rw [List.foldlM_cons] at hd
    obtain ⟨q, hq, hd⟩ := ok_of_bind hd
    have hnext := ih (h.addColumn (hkey c List.mem_cons_self) hc hq)
      (fun c hc => hkey c (List.mem_cons_of_mem _ hc)) hd
    rwa [List.append_assoc] at hnext

/-- Without row numbers the key is what else may not be null. -/
theorem Requires.withoutRowid (h : d.Requires cs) (hd : d.withoutRowid = .ok d') :
    d'.table.Requires cs := by
  have htable : d'.table = d.numberless.table := by
    obtain ⟨-, ⟨i, -, rfl⟩ | ⟨-, rfl⟩⟩ := of_withoutRowid hd
    · exact table_addIndex _ _ _
    · rfl
  rw [htable]
  refine ⟨fun {i s c} hs hc hnull => ?_, h.unchecked⟩
  rw [getElem?_numberless] at hs
  obtain ⟨s', hs', rfl⟩ := Option.map_eq_some_iff.mp hs
  by_cases hi : d.table.key.contains i = true
  · obtain ⟨b, hb, hrequired⟩ := h.key i (List.contains_iff_mem.mp hi)
    obtain rfl := Option.some.inj (hb.symm.trans hc)
    exact hrequired
  · rw [if_neg hi] at hnull
    exact h.required hs' hc hnull

end Definition.Draft

/-! ## Created tables -/

theorem Definition.requires_drafted {m : Mapping} {ticks : Bool} {definition : Sql.DefinitionText}
    {offset : Nat} {specs : List Sql.ColumnSpec} {draft : Definition.Draft}
    (hspecs : List.Forall₂ (fun c spec => c.spec? ticks = some spec) m.columns specs)
    (hkey : ∀ c ∈ m.columns, c.isKey = true → c.nullable = false)
    (h : drafted ⟨m.table, definition, offset, specs, [], m.record.withoutRowid⟩ = .ok draft) :
    draft.table.Requires m.columns := by
  unfold drafted at h
  obtain ⟨first, hfirst, h⟩ := ok_of_bind h
  obtain ⟨second, hsecond, h⟩ := ok_of_bind h
  cases hsecond
  have hempty : Draft.Requires { table := { (default : Table) with name := m.table } } [] := by
    refine ⟨⟨fun hs => ?_, rfl⟩, rfl, fun i hi => ?_⟩
    · cases hs
    · cases hi
  have hrequires := hempty.addColumns hspecs hkey hfirst
  rw [List.nil_append] at hrequires
  by_cases hwithout : m.record.withoutRowid = true
  · rw [if_pos hwithout] at h
    exact hrequires.withoutRowid h
  · rw [if_neg hwithout] at h
    cases h
    exact hrequires.toRequires

/-- The key of a mapping that was built may not be null. -/
theorem Mapping.required_of_isKey {conventions : Conventions} {d : Declaration} {m : Mapping}
    (h : build conventions d = .ok m) : ∀ c ∈ m.columns, c.isKey = true → c.nullable = false := by
  obtain ⟨rfl, hcolumns, -, -⟩ := of_build h
  obtain ⟨hall, hmap⟩ := of_mapM hcolumns
  intro c hc hkey
  rw [hmap] at hc
  obtain ⟨x, hx, rfl⟩ := List.mem_map.mp hc
  rw [(of_column (hall x hx)).1] at hkey ⊢
  show (!(keyField conventions _ x.1 || _)) = false
  rw [show keyField conventions _ x.1 = true from hkey]
  rfl

namespace Session

variable {alone : Bool} {s t : Session} {m : Mapping} {d : Declaration} {table : Table}

theorem requires_of_created (hs : s.Usable alone) (hc : s.Current) {conventions : Conventions}
    (hm : (mappingWith conventions d s).1 = .ok m) (hcolumns : ∀ c ∈ m.columns, c.Declarable)
    (hkey : ∀ c ∈ m.columns, c.isKey = true → c.nullable = false)
    (hfree : s.nesting.rows.table? m.table = none)
    (h : createTableWith conventions d s = (.ok .created, t))
    (htable : t.nesting.rows.table? m.table = some table) :
    m.columns ≠ [] ∧ table.Requires m.columns := by
  obtain ⟨text, e, htext, he, plans, hplans, hrows⟩ := executed_of_created hs hc hm h
  obtain ⟨st, parameters, hread⟩ := Database.read_of_redefine? he
  have hne := Mapping.columns_ne_nil htext hread
  obtain ⟨specs, definition, offset, draft, hspecs, hdraft, hthere, -⟩ :=
    Database.drafted_createStatement htext he hfree hne hcolumns
  obtain ⟨-, htables, -⟩ := Database.of_redefineAll?_indices hplans hthere hrows
  unfold Database.table? at htable hthere
  rw [htables, hthere] at htable
  obtain rfl := Option.some.inj htable
  exact ⟨hne, Definition.requires_drafted hspecs hkey hdraft⟩

/-- A table that was created for a mapping wants a value only where the mapping does, whatever rows
it has by now. -/
theorem CreatedFor.requires (h : s.CreatedFor d m table) (hc : ∀ c ∈ m.columns, c.Declarable)
    (hkey : ∀ c ∈ m.columns, c.isKey = true → c.nullable = false) :
    m.columns ≠ [] ∧ table.Requires m.columns := by
  obtain ⟨hs, hcurrent, hm, hfree, hcreated, htable, hretained, -⟩ := h
  obtain ⟨hne, hrequires⟩ := requires_of_created hs hcurrent hm hc hkey hfree hcreated htable
  have hbare := hretained.bare
  refine ⟨hne, fun {i s c} hs hc => ?_, ?_⟩
  · exact hrequires.required ((congrArg (fun t : Table => t.columns[i]?) hbare).symm.trans hs) hc
  · exact (congrArg Table.checks hbare).trans hrequires.unchecked

end Session

end RecordMapper
