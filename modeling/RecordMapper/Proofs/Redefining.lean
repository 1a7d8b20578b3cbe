import RecordMapper.Proofs.Changing
import RecordMapper.Proofs.Current

/-!
# Definitions and rows

What a statement makes of the definitions of a database does not depend on the rows of its tables.

1. `Resolver.operand_bare`: names mean the same over a table without its rows.
2. `Definition.Draft.addColumn_bare`: so does what is drafted of a table.
3. `Program.of_defines`: statements that create a table or an index, or add a column, are resolved
   alike against databases with the same definitions. `Program.define_of` says what they become.
-/

namespace RecordMapper
open Sql (Scalar)

/-! ## Names -/

/-- The naming with the same columns and no rows. -/
def Naming.bare (n : Naming) : Naming := { n with table := n.table.map Table.bare }

namespace Resolver

theorem column_bare (n : Naming) (table : Option String) (name : String) (quoted : Bool)
    (offset : Nat) :
    column n.bare table name quoted offset = column n table name quoted offset := by
  obtain ⟨t, other, ps, ag, results⟩ := n
  cases t with
  | none => rfl
  | some t => rfl

mutual

theorem operand_bare (n : Naming) : (a : Scalar) → operand n.bare a = operand n a
  | .literal v => rfl
  | .parameter place => rfl
  | .column table name quoted offset => by
    rw [operand, operand]
    exact column_bare n table name quoted offset
  | .row _ offset => rfl
  | .negate op a => by rw [operand, operand, operand_bare n a]
  | .binary op a b => by rw [operand, operand, operand_bare n a, operand_bare n b]
  | .collate a name => by rw [operand, operand, operand_bare n a]
  | .like negated a pattern none => by
    rw [operand, operand, operand_bare n a, operand_bare n pattern]
  | .like negated a pattern (some escape) => by
    rw [operand, operand, operand_bare n a, operand_bare n pattern, operand_bare n escape]
  | .isNull negated a => by rw [operand, operand, operand_bare n a]
  | .between negated a low high => by
    rw [operand, operand, operand_bare n a, operand_bare n low, operand_bare n high]
  | .inList negated a items => by
    rw [operand, operand, operand_bare n a, operands_bare n items]
  | .inTable _ a table => by rw [operand, operand, operand_bare n a]
  | .call name distinct star arguments offset => by
    have hinner : (if Function.isAggregate name arguments.length then { n.bare with aggregates := false }
        else n.bare) = (if Function.isAggregate name arguments.length then { n with aggregates := false }
        else n).bare := by
      split <;> rfl
    rw [operand, operand, hinner, operands_bare _ arguments]
    rfl
  | .cast a type => by rw [operand, operand, operand_bare n a]
  | .cases none tests otherwise => by
    rw [operand, operand, branchOperands_bare n tests, fallback_bare n otherwise]
  | .cases (some subject) tests otherwise => by
    rw [operand, operand, operand_bare n subject, branchOperands_bare n tests,
      fallback_bare n otherwise]

theorem operands_bare (n : Naming) : (as : List Scalar) → operands n.bare as = operands n as
  | [] => rfl
  | a :: r => by rw [operands, operands, operand_bare n a, operands_bare n r]

theorem branchOperands_bare (n : Naming) : (bs : List (Scalar × Scalar)) →
    branchOperands n.bare bs = branchOperands n bs
  | [] => rfl
  | (test, result) :: r => by
    rw [branchOperands, branchOperands, operand_bare n test, operand_bare n result,
      branchOperands_bare n r]

theorem fallback_bare (n : Naming) : (a : Option Scalar) → fallback n.bare a = fallback n a
  | none => rfl
  | some a => by rw [fallback, fallback, operand_bare n a]

end

end Resolver

theorem Naming.formula_bare (n : Naming) (a : Scalar) : n.bare.formula a = n.formula a := by
  unfold Naming.formula Resolver.formula
  rw [show { n.bare with aggregates := false } = Naming.bare { n with aggregates := false } from rfl,
    Resolver.operand_bare]

/-! ## Drafts -/

namespace Database

/-- A table that an action is allowed on is found without its rows, too. -/
theorem tableFor_bare (d : Database) (action name : String) (missing : EngineFault) :
    d.bare.tableFor action name missing = (d.tableFor action name missing).map Table.bare := by
  have hk := keptTable?_bare d name
  unfold tableFor
  rw [table?_bare]
  cases d.table? name with
  | some t => rfl
  | none =>
    rcases hx : d.bare.keptTable? name with _ | t <;> rcases hy : d.keptTable? name with _ | t' <;>
      rw [hx, hy] at hk
    · rfl
    · cases hk
    · cases hk
    · have hname : t.bare.name = t'.bare.name := congrArg Table.name (Option.some.inj hk)
      show Except.error _ = Except.error _
      rw [show t.name = t'.name from hname]

end Database

namespace Definition

def Draft.bare (d : Draft) : Draft := { d with table := d.table.bare }

namespace Draft

variable (d : Draft)

theorem addIndex_bare (terms : List IndexTerm) (origin : IndexOrigin) :
    d.bare.addIndex terms origin = (d.addIndex terms origin).bare := by
  unfold addIndex
  split
  · rename_i h
    rw [if_pos (show (d.indices.any fun ix => ix.terms == terms) = true from h)]
    rfl
  · rename_i h
    rw [if_neg (show ¬ (d.indices.any fun ix => ix.terms == terms) = true from h)]
    rfl

theorem addKey_bare (terms : List IndexTerm) (descending autoIncrement : Bool) :
    d.bare.addKey terms descending autoIncrement =
      (d.addKey terms descending autoIncrement).map Draft.bare := by
  have hindex (key : List Nat) := addIndex_bare
    { d with keyed := true, table := { d.table with key } } terms .primaryKey
  unfold addKey
  show (if d.keyed = true then _ else _) = Except.map _ (if d.keyed = true then _ else _)
  split
  · rfl
  · match hkey : terms.filterMap IndexTerm.column with
    | [] => exact congrArg Except.ok (hindex [])
    | [i] =>
      show (if (isIntegerType d.table i && !descending) = true then _ else _) =
        Except.map _ (if (isIntegerType d.table i && !descending) = true then _ else _)
      split
      · rfl
      · split
        · rfl
        · exact congrArg Except.ok (hindex [i])
    | i :: j :: rest => exact congrArg Except.ok (hindex (i :: j :: rest))

theorem constrain_bare (column : String) (c : Sql.ColumnConstraint) :
    d.bare.constrain column c = (d.constrain column c).map Draft.bare := by
  cases c with
  | primaryKey descending autoIncrement =>
    simp only [constrain]
    exact d.addKey_bare _ descending autoIncrement
  | notNull => rfl
  | nullable => rfl
  | unique =>
    simp only [constrain]
    exact congrArg Except.ok (d.addIndex_bare _ .unique)
  | default value spelling =>
    simp only [constrain]
    cases fallback column value spelling <;> rfl
  | collate name =>
    simp only [constrain]
    cases Collation.named? name <;> rfl
  | check condition label =>
    have hformula := Naming.formula_bare { table := some d.table } condition
    simp only [constrain]
    show (Naming.formula (Naming.bare { table := some d.table }) condition >>= _) = _
    rw [hformula]
    cases Naming.formula { table := some d.table } condition <;> rfl

/-- The draft with a column that has no constraints yet. -/
def opened (c : Sql.ColumnSpec) : Draft :=
  { d with table := { d.table with columns := d.table.columns ++
      [⟨c.name, describedType c.type, Affinity.ofType c.type, false, .binary, none⟩] } }

theorem addColumn_eq (c : Sql.ColumnSpec) : d.addColumn c =
    if (d.table.columnPlace? c.name).isSome then refuse (.duplicateColumn c.name)
    else c.constraints.foldlM (fun q k => constrain q c.name k) (d.opened c) := (rfl)

theorem addColumn_bare (c : Sql.ColumnSpec) :
    d.bare.addColumn c = (d.addColumn c).map Draft.bare := by
  have hfold : ∀ (cs : List Sql.ColumnConstraint) (q : Draft),
      cs.foldlM (fun q k => constrain q c.name k) q.bare =
        (cs.foldlM (fun q k => constrain q c.name k) q).map Draft.bare := by
    intro cs
    induction cs with
    | nil => exact fun q => rfl
    | cons k r ih =>
      intro q
      rw [List.foldlM_cons, List.foldlM_cons, constrain_bare]
      cases q.constrain c.name k with
      | error e => rfl
      | ok q' => exact ih q'
  rw [addColumn_eq, addColumn_eq]
  show (if (d.table.columnPlace? c.name).isSome then _ else _) = _
  split
  · rfl
  · exact hfold c.constraints (d.opened c)

end Draft

variable (d : Database)

theorem isSome_table?_bare (name : String) :
    (d.bare.table? name).isSome = (d.table? name).isSome := by
  rw [Database.table?_bare, Option.isSome_map]

theorem ofCreateTable_bare (lenient : Bool) (spec : Sql.TableSpec) :
    ofCreateTable d.bare lenient spec = ofCreateTable d lenient spec := by
  unfold ofCreateTable
  rw [isSome_table?_bare]
  rfl

theorem ofCreateIndex_bare (unique lenient : Bool) (name table : String)
    (columns : List Sql.IndexedColumn) (text : Sql.DefinitionText) :
    ofCreateIndex d.bare unique lenient name table columns text =
      ofCreateIndex d unique lenient name table columns text := by
  unfold ofCreateIndex
  rw [Database.tableFor_bare, isSome_table?_bare]
  cases d.tableFor "indexed" table (.noTable ("main." ++ table)) <;> rfl

theorem ofAddColumn_bare (table : String) (c : Sql.ColumnSpec) (spelling : String) :
    ofAddColumn d.bare table c spelling = ofAddColumn d table c spelling := by
  unfold ofAddColumn
  rw [Database.tableFor_bare]
  cases d.tableFor "altered" table (.noTable table) with
  | error e => rfl
  | ok t =>
    show ((Draft.bare { table := { t with rowidColumn := none, key := [], checks := [] } }).addColumn c >>= _) =
      (Draft.addColumn { table := { t with rowidColumn := none, key := [], checks := [] } } c >>= _)
    rw [Draft.addColumn_bare]
    cases Draft.addColumn { table := { t with rowidColumn := none, key := [], checks := [] } } c <;> rfl

end Definition

/-! ## Statements -/

namespace Sql

/-- A statement that creates a table or an index, or adds a column. -/
def Statement.Defines : Statement → Prop
  | .createTable .. | .createIndex .. | .addColumn .. => True
  | _ => False

end Sql

namespace Definition

/-- A change of the definitions moves their version on. -/
theorem version_run {d d' : Database} {definition : Definition} (h : definition.run d = .ok d') :
    definition = .keep ∧ d' = d ∨ d.version < d'.version := by
  cases definition with
  | keep =>
    cases h
    exact .inl ⟨rfl, rfl⟩
  | createIndex ix text =>
    simp only [run] at h
    split at h
    · cases h
    · split at h
      · cases h
      · cases h
        exact .inr (Nat.lt_succ_self _)
  | addColumn table column spelling =>
    simp only [run] at h
    split at h
    · cases h
    · split at h
      · cases h
      · cases h
        exact .inr (Nat.lt_succ_self _)
  | _ =>
    cases h
    exact .inr (Nat.lt_succ_self _)

variable {d : Database}

theorem of_refuse {α β : Type} {c : Prop} [Decidable c] {fault : EngineFault} {rest : β → Checked α}
    {next : Checked α} {a : α} (h : (if c then refuse fault >>= rest else next) = .ok a) :
    ¬ c ∧ next = .ok a := by
  by_cases hc : c
  · rw [if_pos hc] at h
    cases h
  · rw [if_neg hc] at h
    exact ⟨hc, h⟩

/-- The draft that the statement of a table ends with. -/
def drafted (spec : Sql.TableSpec) : Checked Draft := do
  let empty : Draft := { table := { (default : Table) with name := spec.name } }
  let draft ← spec.columns.foldlM Draft.addColumn empty
  let draft ← spec.constraints.foldlM Draft.constrainTable draft
  if spec.withoutRowid then draft.withoutRowid else pure draft

/-- The statement of a table that is there already does nothing, any other creates it. -/
theorem of_ofCreateTable {lenient : Bool} {spec : Sql.TableSpec} {definition : Definition}
    (h : ofCreateTable d lenient spec = .ok definition) :
    ((d.table? spec.name).isSome ∧ definition = .keep) ∨
      d.table? spec.name = none ∧ d.index? spec.name = none ∧
        ∃ draft, drafted spec = .ok draft ∧
          definition = .createTable draft.table draft.indices spec.text := by
  unfold ofCreateTable at h
  obtain ⟨-, h⟩ := of_refuse h
  by_cases ht : (d.table? spec.name).isSome = true
  · rw [if_pos ht] at h
    cases lenient with
    | true =>
      cases h
      exact .inl ⟨ht, rfl⟩
    | false => cases h
  · rw [if_neg ht] at h
    obtain ⟨hi, h⟩ := of_refuse h
    obtain ⟨draft, hdraft, h⟩ := ok_of_bind h
    obtain ⟨draft', hdraft', h⟩ := ok_of_bind h
    refine .inr ⟨Option.not_isSome_iff_eq_none.mp ht, Option.not_isSome_iff_eq_none.mp hi, ?_⟩
    have hfinal : drafted spec =
        if spec.withoutRowid then draft'.withoutRowid else pure draft' := by
      unfold drafted
      simp only [hdraft, hdraft', bind, Except.bind]
    rw [hfinal]
    by_cases hw : spec.withoutRowid = true
    · rw [if_pos hw] at h ⊢
      obtain ⟨q, hq, h⟩ := ok_of_bind h
      cases h
      exact ⟨q, hq, rfl⟩
    · rw [if_neg hw] at h ⊢
      cases h
      exact ⟨draft', rfl, rfl⟩

/-- The statement of an index whose name is taken by another does nothing, any other creates it. -/
theorem of_ofCreateIndex {unique lenient : Bool} {name table : String}
    {columns : List Sql.IndexedColumn} {text : Sql.DefinitionText} {definition : Definition}
    (h : ofCreateIndex d unique lenient name table columns text = .ok definition) :
    ∃ t, d.tableFor "indexed" table (.noTable ("main." ++ table)) = .ok t ∧
      isReserved name = false ∧ d.table? name = none ∧
        (((d.index? name).isSome ∧ definition = .keep) ∨ d.index? name = none ∧
          ∃ members, terms t.columns columns (fun w => if w.quoted then pure ⟨none, .binary⟩
              else .error ⟨.noColumn w.name, some w.offset⟩) = .ok members ∧
            definition = .createIndex ⟨name, t.name, unique, members, .created⟩ text) := by
  unfold ofCreateIndex at h
  obtain ⟨t, ht, h⟩ := ok_of_bind h
  obtain ⟨hreserved, h⟩ := of_refuse h
  obtain ⟨htable, h⟩ := of_refuse h
  refine ⟨t, ht, Bool.eq_false_of_not_eq_true hreserved, Option.not_isSome_iff_eq_none.mp htable, ?_⟩
  by_cases hi : (d.index? name).isSome = true
  · rw [if_pos hi] at h
    cases lenient with
    | true =>
      cases h
      exact .inl ⟨hi, rfl⟩
    | false => cases h
  · rw [if_neg hi] at h
    obtain ⟨members, hm, h⟩ := ok_of_bind h
    cases h
    exact .inr ⟨Option.not_isSome_iff_eq_none.mp hi, members, hm, rfl⟩

/-- A column is added with what its constraints say of it, if they call for no index. -/
theorem of_ofAddColumn {table spelling : String} {c : Sql.ColumnSpec} {definition : Definition}
    (h : ofAddColumn d table c spelling = .ok definition) :
    ∃ t draft, d.tableFor "altered" table (.noTable table) = .ok t ∧
      Draft.addColumn { table := { t with rowidColumn := none, key := [], checks := [] } } c =
        .ok draft ∧
      (draft.table.columns.getLast? = none ∧ definition = .keep ∨
        ∃ column, draft.table.columns.getLast? = some column ∧
          definition = .addColumn t.name column spelling) := by
  unfold ofAddColumn at h
  obtain ⟨t, ht, h⟩ := ok_of_bind h
  obtain ⟨draft, hdraft, h⟩ := ok_of_bind h
  obtain ⟨-, h⟩ := of_refuse h
  obtain ⟨-, h⟩ := of_refuse h
  refine ⟨t, draft, ht, hdraft, ?_⟩
  cases hc : draft.table.columns.getLast? with
  | none =>
    simp only [hc] at h
    cases h
    exact .inl ⟨rfl, rfl⟩
  | some column =>
    simp only [hc] at h
    cases h
    exact .inr ⟨column, rfl, rfl⟩

end Definition

namespace Program

variable {d d' : Database} {parameters : Sql.Parameters} {s : Sql.Statement}

/-- Statements that define mean the same over databases with the same definitions. -/
theorem of_defines (hs : s.Defines) (h : d.bare = d'.bare) :
    of d parameters s = of d' parameters s := by
  have hbare : ∀ d : Database, of d.bare parameters s = of d parameters s := by
    intro d
    cases s with
    | createTable lenient spec => rw [of, of, Definition.ofCreateTable_bare]
    | createIndex unique lenient name table columns text => rw [of, of, Definition.ofCreateIndex_bare]
    | addColumn table column spelling => rw [of, of, Definition.ofAddColumn_bare]
    | _ => cases hs
  rw [← hbare d, h, hbare d']

/-- What such a statement becomes is a change of the definitions that drops nothing. -/
theorem define_of (hs : s.Defines) {program : Program} (h : of d parameters s = .ok program) :
    ∃ definition, program = .define definition ∧ ∀ name, definition ≠ .dropTable name := by
  cases s with
  | createTable lenient spec =>
    obtain ⟨definition, hd, h⟩ := ok_of_bind h
    cases h
    refine ⟨definition, rfl, ?_⟩
    rcases Definition.of_ofCreateTable hd with ⟨-, rfl⟩ | ⟨-, -, draft, -, rfl⟩
    · exact nofun
    · exact nofun
  | createIndex unique lenient name table columns text =>
    obtain ⟨definition, hd, h⟩ := ok_of_bind h
    cases h
    refine ⟨definition, rfl, ?_⟩
    obtain ⟨t, -, -, -, ⟨-, rfl⟩ | ⟨-, members, -, rfl⟩⟩ := Definition.of_ofCreateIndex hd
    · exact nofun
    · exact nofun
  | addColumn table column spelling =>
    obtain ⟨definition, hd, h⟩ := ok_of_bind h
    cases h
    refine ⟨definition, rfl, ?_⟩
    obtain ⟨t, draft, -, -, ⟨-, rfl⟩ | ⟨c, -, rfl⟩⟩ := Definition.of_ofAddColumn hd
    · exact nofun
    · exact nofun
  | _ => cases hs

end Program

end RecordMapper
