import RecordMapper.Proofs.Evolution
import RecordMapper.Proofs.Mappings

/-!
# Indices of a creation

A creation asks for one index for each plan of the mapping, after the table or its columns. A name
that any index has already, of whatever table, is left to that index.

1. `Index.Serves`: an index is the one that a plan asks for.
2. `Database.of_created` and `Database.of_migrated`: the script of a creation in its two parts.
3. `Session.serves_createTableWith`: which plans have their index after a creation.
-/

namespace RecordMapper

/-! ## What a plan asks for -/

/-- The index is over the columns of the plan and no others, in their order, and keeps rows apart
just if the plan says so. -/
structure Index.Serves (ix : Index) (t : Table) (p : IndexPlan) : Prop where
  table : sameFolded ix.table t.name = true
  unique : ix.unique = p.unique
  columns : List.Forall₂ (fun (term : IndexTerm) (member : Int × String) =>
    ∃ i, t.columnPlace? member.2 = some i ∧ term.column = some i) ix.terms p.members

/-- Two plans ask for the same: their columns are the same columns of the table, in the same
order. -/
structure IndexPlan.Alike (q : IndexPlan) (t : Table) (p : IndexPlan) : Prop where
  unique : q.unique = p.unique
  columns : List.Forall₂ (fun a b : Int × String =>
    ∃ i, t.columnPlace? b.2 = some i ∧ t.columnPlace? a.2 = some i) q.members p.members

theorem Table.column_term (t : Table) (name : String) :
    (t.term name).column = t.columnPlace? name := by
  unfold term
  cases t.columnPlace? name <;> rfl

theorem Table.planned_serves {t : Table} {p q : IndexPlan} : (t.planned q).Serves t p ↔
    q.Alike t p := by
  constructor
  · rintro ⟨-, hunique, hcolumns⟩
    refine ⟨hunique, ?_⟩
    have := List.forall₂_map_left_iff.mp hcolumns
    simpa only [column_term] using this
  · rintro ⟨hunique, hcolumns⟩
    refine ⟨sameFolded_refl _, hunique, List.forall₂_map_left_iff.mpr ?_⟩
    simpa only [column_term] using hcolumns

theorem IndexPlan.column_of_mem_entries {m : Mapping} {e : Entry} (h : e ∈ entries m) :
    ∃ c ∈ m.columns, e.column = c.name := by
  obtain ⟨c, hc, he⟩ := List.mem_flatMap.mp h
  obtain ⟨membership, -, rfl⟩ := List.mem_map.mp he
  exact ⟨c, hc, rfl⟩

/-- A plan is for columns of its mapping. -/
theorem IndexPlan.Planned.column {m : Mapping} {plans : List IndexPlan} (h : Planned m plans)
    {p : IndexPlan} (hp : p ∈ plans) {x : Int × String} (hx : x ∈ p.members) :
    ∃ c ∈ m.columns, x.2 = c.name := by
  obtain ⟨e, he, rfl⟩ := List.mem_map.mp ((h.members p hp).mem_iff.mp hx)
  exact column_of_mem_entries (List.mem_filter.mp he).1

theorem Table.isSome_columnPlace? {t : Table} {name : String} :
    (t.columnPlace? name).isSome = true ↔ ∃ c ∈ t.columns, sameFolded c.name name = true := by
  unfold columnPlace?
  rw [List.findIdx?_isSome, List.any_eq_true]

theorem IndexPlan.alike_self {t : Table} {p : IndexPlan}
    (h : ∀ x ∈ p.members, (t.columnPlace? x.2).isSome = true) : p.Alike t p := by
  refine ⟨rfl, List.forall₂_same.mpr fun x hx => ?_⟩
  obtain ⟨i, hi⟩ := Option.isSome_iff_exists.mp (h x hx)
  exact ⟨i, hi, hi⟩

/-! ## Scripts -/

namespace Database

variable {d d' : Database} {m : Mapping} {ticks : Bool} {present : List ColumnDescription}
  {plans : List IndexPlan} {texts : List String}

theorem eq_of_planTexts {table : String}
    (h : texts.map (Except.ok : String → Except Error String) = plans.map fun p =>
      .ok (createIndexStatement p.name table (p.members.map Prod.snd) p.unique)) :
    texts = plans.map (planText table) := by
  have hinjective : Function.Injective (Except.ok : String → Except Error String) :=
    fun _ _ => Except.ok.inj
  refine List.map_injective_iff.mpr hinjective ?_
  rw [h, List.map_map]
  rfl

/-- The script of a table that is not there is the statement of the table and those of the
indices. -/
theorem of_created (hp : present.isEmpty = true)
    (hscript : m.script ticks present plans = texts.map .ok) (h : d.redefineAll? texts = some d') :
    ∃ text e, m.createStatement ticks = .ok text ∧ d.redefine? text = some e ∧
      e.redefineAll? (plans.map (planText m.table)) = some d' := by
  unfold Mapping.script at hscript
  rw [if_pos hp, List.singleton_append] at hscript
  obtain ⟨text, more, rfl, htext, hmore⟩ := List.map_eq_cons_iff.mp hscript.symm
  obtain ⟨e, he, h⟩ := redefineAll?_cons h
  cases eq_of_planTexts hmore
  exact ⟨text, e, htext.symm, he, h⟩

/-- The script of a table that is there is the statements of the columns that it lacks and those of
the indices. -/
theorem of_migrated (hp : present.isEmpty = false)
    (hscript : m.script ticks present plans = texts.map .ok) (h : d.redefineAll? texts = some d') :
    ∃ adds e, (m.missingColumns present).map (m.addStatement ticks) = adds.map .ok ∧
      d.redefineAll? adds = some e ∧ e.redefineAll? (plans.map (planText m.table)) = some d' := by
  unfold Mapping.script at hscript
  rw [hp, if_neg Bool.false_ne_true] at hscript
  obtain ⟨adds, more, rfl, hadds, hmore⟩ := List.map_eq_append_iff.mp hscript.symm
  obtain ⟨e, he, h⟩ := redefineAll?_append h
  cases eq_of_planTexts hmore
  exact ⟨adds, e, hadds.symm, he, h⟩

theorem table?_of_adds {cs : List Column} {adds : List String} (hne : cs ≠ [])
    (hadds : cs.map (m.addStatement ticks) = adds.map .ok) (h : d.redefineAll? adds = some d') :
    ∃ t, d.table? m.table = some t := by
  obtain ⟨c, cs, rfl⟩ := List.exists_cons_of_ne_nil hne
  obtain ⟨text, more, rfl, htext, -⟩ := List.map_eq_cons_iff.mp hadds.symm
  obtain ⟨e, he, -⟩ := redefineAll?_cons h
  obtain ⟨t, -, ht, -⟩ := of_redefine?_addStatement htext.symm he
  exact ⟨t, ht⟩

/-- A table with the missing columns behind its own has all columns of the mapping. -/
theorem columnPlace?_extended {t : Table} {added : List StoredColumn} {c : Column}
    (hpresent : present.map ColumnDescription.name = t.columns.map StoredColumn.name)
    (hadded : (m.missingColumns present).map Column.name = added.map StoredColumn.name)
    (hc : c ∈ m.columns) : ((t.extended added).columnPlace? c.name).isSome = true := by
  rw [Table.isSome_columnPlace?]
  by_cases hthere : present.any (fun d => sameFolded d.name c.name) = true
  · obtain ⟨x, hx, hname⟩ := List.any_eq_true.mp hthere
    obtain ⟨y, hy, hyx⟩ := List.mem_map.mp (hpresent ▸ List.mem_map_of_mem hx)
    refine ⟨y, List.mem_append_left _ hy, ?_⟩
    rw [hyx]
    exact hname
  · have hmissing : c ∈ m.missingColumns present := by
      refine List.mem_filter.mpr ⟨hc, ?_⟩
      rw [Bool.not_eq_true] at hthere
      rw [hthere]
      rfl
    obtain ⟨y, hy, hyc⟩ := List.mem_map.mp (hadded ▸ List.mem_map_of_mem hmissing)
    refine ⟨y, List.mem_append_right _ hy, ?_⟩
    rw [hyc]
    exact sameFolded_refl _

/-- Before the statements of the indices, the table has all columns of the mapping, and no index was
created but what constraints call for. -/
theorem of_script (hnames : present.map ColumnDescription.name =
      ((d.readable? m.table).map fun t => t.columns.map StoredColumn.name).getD [])
    (hscript : m.script ticks present plans = texts.map .ok) (h : d.redefineAll? texts = some d') :
    ∃ (e : Database) (called : List Index),
    e.redefineAll? (plans.map (planText m.table)) = some d' ∧
      e.indices = called ++ d.indices ∧ (∀ ix ∈ called, Definition.isReserved ix.name = true) ∧
      ∀ t : Table, e.table? m.table = some t → (∀ c ∈ m.columns, c.Declarable) →
        (∀ u, d.readable? m.table = some u → u.columns ≠ []) →
        ∀ c ∈ m.columns, (t.columnPlace? c.name).isSome = true := by
  cases hp : present.isEmpty with
  | true =>
    have hempty : present = [] := List.isEmpty_iff.mp hp
    obtain ⟨text, e, htext, he, hindexed⟩ := of_created hp hscript h
    rcases of_redefine?_createStatement htext he with
      ⟨hsome, rfl⟩ | ⟨hnone, t, called, hname, -, hcalled, htables, hindices, hcolumns⟩
    · refine ⟨e, [], hindexed, rfl, fun _ hix => absurd hix List.not_mem_nil, fun t ht _ hne => ?_⟩
      rw [readable?_of_table? ht, hempty] at hnames
      exact absurd (List.map_eq_nil_iff.mp hnames.symm) (hne t (readable?_of_table? ht))
    · refine ⟨e, called, hindexed, hindices, hcalled, fun t' ht' hdeclarable _ c hc => ?_⟩
      have ht : e.table? m.table = some t := by
        unfold table? at hnone ⊢
        rw [htables, List.find?_append, hnone, Option.none_or, List.find?_singleton, hname,
          sameFolded_refl, if_pos rfl]
      rw [ht] at ht'
      cases ht'
      have hall := hcolumns (List.ne_nil_of_mem hc) hdeclarable
      obtain ⟨y, hy, hyc⟩ := List.mem_map.mp (hall ▸ List.mem_map_of_mem (f := Column.name) hc)
      exact Table.isSome_columnPlace?.mpr ⟨y, hy, by rw [hyc]; exact sameFolded_refl _⟩
  | false =>
    obtain ⟨adds, e, hadds, he, hindexed⟩ := of_migrated hp hscript h
    by_cases hmissing : m.missingColumns present = []
    · rw [hmissing] at hadds
      cases List.map_eq_nil_iff.mp hadds.symm
      cases he
      refine ⟨d, [], hindexed, rfl, fun _ hix => absurd hix List.not_mem_nil,
        fun t ht _ _ c hc => ?_⟩
      rw [readable?_of_table? ht] at hnames
      have hnone : (m.missingColumns present).map Column.name =
          ([] : List StoredColumn).map StoredColumn.name := by
        rw [hmissing]
        rfl
      have := columnPlace?_extended hnames hnone hc
      rwa [Table.extended_nil] at this
    · obtain ⟨u, hu⟩ := table?_of_adds hmissing hadds he
      obtain ⟨added, hadded, hindices, htables⟩ := of_redefineAll?_columns hu hadds he
      refine ⟨e, [], hindexed, hindices, fun _ hix => absurd hix List.not_mem_nil,
        fun t ht _ _ c hc => ?_⟩
      rw [htables, if_pos (sameFolded_refl _)] at ht
      cases ht
      rw [readable?_of_table? hu] at hnames
      refine columnPlace?_extended hnames ?_ hc
      generalize m.missingColumns present = missing at hadded
      clear * - hadded
      induction hadded with
      | nil => rfl
      | cons hname _ ih => exact congrArg₂ List.cons hname.1.symm ih

end Database

/-! ## Creations -/

namespace Session

open RecordMapper.Action

variable {alone : Bool} {s t : Session}

/-- **Which plans have their index after a creation.** An index of the table serves a plan just if
there was one before, a constraint of the table calls for one, or a plan that asks for the same
opens its name: no index of the database has it, and no plan before, up to case. Where the engine
knows all collations, every plan asks for columns of the table. -/
theorem serves_createTableWith (hs : s.Usable alone) (hc : s.Current) {conventions : Conventions}
    {d : Declaration} {creation : Creation}
    (h : createTableWith conventions d s = (.ok creation, t)) :
    ∃ m plans, (mappingWith conventions d s).1 = .ok m ∧ IndexPlan.ofMapping m = .ok plans ∧
      ∀ p ∈ plans, ∃ table, t.nesting.rows.table? m.table = some table ∧
        ((∃ ix ∈ t.nesting.rows.indices, ix.Serves table p) ↔
          (∃ ix ∈ s.nesting.rows.indices, ix.Serves table p) ∨
          (∃ ix ∈ t.nesting.rows.indices, Definition.isReserved ix.name = true ∧
            ix.Serves table p) ∨
          ∃ q, s.nesting.rows.Opens plans q ∧ q.Alike table p) ∧
        ((∀ c ∈ m.columns, c.Declarable) →
          (∀ u, s.nesting.rows.readable? m.table = some u → u.columns ≠ []) → p.Alike table p) := by
  have hcreates := creates_createTableWith hs hc conventions d
  rw [h] at hcreates
  cases hcreates with
  | @done _ m plans present texts _ _ _ _ _ _ hprepares hscript hrows =>
    refine ⟨m, plans, hprepares.mapping, hprepares.plans, fun p hp => ?_⟩
    have hplanned := IndexPlan.planned_ofMapping hprepares.plans
    obtain ⟨e, called, hindexed, hcalled, hauto, hcolumns⟩ :=
      Database.of_script hprepares.names hscript hrows
    obtain ⟨table, htable⟩ : ∃ table, e.table? m.table = some table := by
      obtain ⟨q, more, rfl⟩ := List.exists_cons_of_ne_nil (List.ne_nil_of_mem hp)
      obtain ⟨f, hf, -⟩ := Database.redefineAll?_cons hindexed
      obtain ⟨table, htable, -⟩ :=
        Database.of_redefine?_createIndex (hplanned.inhabited q List.mem_cons_self) hf
      exact ⟨table, htable⟩
    obtain ⟨hchosen, htables, hindices⟩ :=
      Database.of_redefineAll?_indices hplanned.inhabited htable hindexed
    have hopens : ∀ q, e.Opens plans q ↔ s.nesting.rows.Opens plans q := by
      intro q
      refine and_congr_left fun hq => ?_
      have hnone : called.find? (fun ix => sameFolded ix.name q.name) = none := by
        refine List.find?_eq_none.mpr fun ix hix hname => ?_
        have := Definition.isReserved_congr hname
        rw [hauto ix hix, (hchosen q (List.mem_of_find?_eq_some hq)).1] at this
        cases this
      unfold Database.index?
      rw [hcalled, List.find?_append, hnone, Option.none_or]
    refine ⟨table, ?_, ?_, fun hdeclarable hne => ?_⟩
    · unfold Database.table?
      rw [htables]
      exact htable
    · constructor
      · rintro ⟨ix, hix, hserves⟩
        rcases (hindices ix).mp hix with hold | ⟨q, hq, rfl⟩
        · rw [hcalled] at hold
          rcases List.mem_append.mp hold with hold | hold
          · exact .inr (.inl ⟨ix, hix, hauto ix hold, hserves⟩)
          · exact .inl ⟨ix, hold, hserves⟩
        · exact .inr (.inr ⟨q, (hopens q).mp hq, Table.planned_serves.mp hserves⟩)
      · rintro (⟨ix, hix, hserves⟩ | ⟨ix, hix, -, hserves⟩ | ⟨q, hq, halike⟩)
        · have hmem : ix ∈ e.indices := by
            rw [hcalled]
            exact List.mem_append_right _ hix
          exact ⟨ix, (hindices ix).mpr (.inl hmem), hserves⟩
        · exact ⟨ix, hix, hserves⟩
        · exact ⟨_, (hindices _).mpr (.inr ⟨q, (hopens q).mpr hq, rfl⟩), Table.planned_serves.mpr halike⟩
    · refine IndexPlan.alike_self fun x hx => ?_
      obtain ⟨c, hcm, hname⟩ := hplanned.column hp hx
      rw [hname]
      exact hcolumns table htable hdeclarable hne c hcm

/-- A record type with two indices whose names differ in case only. -/
def likeNamed : Declaration :=
  ⟨"Note", "Note", false,
    [⟨"Body", none, ⟨.plain .text, false⟩, [.indexed { name := some "IX_a" }], .text ""⟩,
      ⟨"Code", none, ⟨.plain .text, false⟩, [.indexed { name := some "ix_A", unique := true }],
        .text ""⟩], []⟩

def likeCreated : Except Error Creation × Session := createTableWith .silent likeNamed fresh

def likePlans : Option (Mapping × List IndexPlan) :=
  (mappingWith .silent likeNamed fresh).1.toOption.bind fun m =>
    (IndexPlan.ofMapping m).toOption.map fun plans => (m, plans)

theorem likePlans_result : ∃ m plans, (mappingWith .silent likeNamed fresh).1 = .ok m ∧
    IndexPlan.ofMapping m = .ok plans ∧
      plans.map (fun p => (p.name, p.unique)) = [("IX_a", false), ("ix_A", true)] := by
  have hplans : likePlans.map (fun x => x.2.map fun p => (p.name, p.unique)) =
      some [("IX_a", false), ("ix_A", true)] := by
    decide +kernel
  obtain ⟨⟨m, plans⟩, hx, hplans⟩ := Option.map_eq_some_iff.mp hplans
  unfold likePlans at hx
  obtain ⟨m', hm, hx⟩ := Option.bind_eq_some_iff.mp hx
  obtain ⟨plans', hp, hx⟩ := Option.map_eq_some_iff.mp hx
  cases hx
  exact ⟨m, plans, ok_of_toOption hm, ok_of_toOption hp, hplans⟩

theorem likeCreated_result : likeCreated.1.toOption = some .created ∧
    likeCreated.2.nesting.rows.indices.map (fun ix => (ix.name, ix.unique)) =
      [("IX_a", false)] := by
  decide +kernel

theorem likeCreated_ok : likeCreated = (.ok .created, likeCreated.2) :=
  ends_of_toOption likeCreated_result.1

/-- Nothing was there before: a plan is served by an index of a constraint, or of a plan that opens
its name. -/
theorem serves_createTableWith_like : fresh.Usable true ∧ fresh.Current ∧
    likeCreated = (.ok .created, likeCreated.2) ∧ ∃ m plans, IndexPlan.ofMapping m = .ok plans ∧
      ∀ p ∈ plans, ∃ table, likeCreated.2.nesting.rows.table? m.table = some table ∧
        ((∃ ix ∈ likeCreated.2.nesting.rows.indices, ix.Serves table p) ↔
          (∃ ix ∈ likeCreated.2.nesting.rows.indices, Definition.isReserved ix.name = true ∧
            ix.Serves table p) ∨ ∃ q, fresh.nesting.rows.Opens plans q ∧ q.Alike table p) := by
  refine ⟨usable_fresh, current_fresh, likeCreated_ok, ?_⟩
  obtain ⟨m, plans, -, hplans, hall⟩ :=
    serves_createTableWith usable_fresh current_fresh likeCreated_ok
  refine ⟨m, plans, hplans, fun p hp => ?_⟩
  obtain ⟨table, htable, hiff, -⟩ := hall p hp
  refine ⟨table, htable, hiff.trans (or_iff_right ?_)⟩
  rintro ⟨ix, hix, -⟩
  exact absurd hix List.not_mem_nil

/-- A creation that succeeds does not always leave an index for every plan. -/
theorem not_always_serves_createTableWith : ¬ ∀ {s t : Session} {conventions : Conventions}
    {d : Declaration} {creation : Creation} {m : Mapping} {plans : List IndexPlan}, s.Usable true →
    s.Current → createTableWith conventions d s = (.ok creation, t) →
    (mappingWith conventions d s).1 = .ok m → IndexPlan.ofMapping m = .ok plans →
    ∀ p ∈ plans, ∃ table, t.nesting.rows.table? m.table = some table ∧
      ∃ ix ∈ t.nesting.rows.indices, ix.Serves table p := by
  intro hall
  obtain ⟨m, plans, hm, hp, hnames⟩ := likePlans_result
  obtain ⟨p, hpm, hpu⟩ : ∃ p ∈ plans, (p.name, p.unique) = ("ix_A", true) := by
    refine List.mem_map.mp ?_
    rw [hnames]
    exact List.mem_cons_of_mem _ List.mem_cons_self
  obtain ⟨table, -, ix, hix, hserves⟩ := hall usable_fresh current_fresh likeCreated_ok hm hp p hpm
  have hindex := List.mem_map_of_mem (f := fun ix : Index => (ix.name, ix.unique)) hix
  rw [likeCreated_result.2, hserves.unique, (Prod.mk.inj hpu).2] at hindex
  cases (Prod.mk.inj (List.mem_singleton.mp hindex)).2

end Session

end RecordMapper
