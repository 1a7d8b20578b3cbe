import RecordMapper.Proofs.Indexing
import RecordMapper.Proofs.Queries

/-!
# Migrations

A creation whose table is there already adds the columns that the table lacks, and changes none that
it has. Once nothing is missing, another creation changes nothing.

1. `Mapping.lacked`: the columns that match none of a table.
2. `Session.tableInfo_ok` and `Session.perform_kept`: statements that change nothing are not refused
   to a session that is alone and knows its definitions.
3. `Session.migrated_createTableWith`: what a migration leaves, and that it is done once.
-/

namespace RecordMapper

/-! ## Tables -/

/-- A table as the engine keeps it: no two columns have the same name up to case, and the columns of
the key are not too many to be counted. -/
structure Table.Sound (t : Table) : Prop where
  distinct : t.columns.Pairwise fun a b => sameFolded a.name b.name = false
  short : t.key.length < 2 ^ 63

def Mapping.lacked (m : Mapping) (t : Table) : List Column :=
  m.columns.filter fun c => (t.columnPlace? c.name).isNone

theorem Mapping.missingColumns_eq {m : Mapping} {present : List ColumnDescription} {t : Table}
    (h : present.map ColumnDescription.name = t.columns.map StoredColumn.name) :
    m.missingColumns present = m.lacked t := by
  unfold missingColumns lacked Table.columnPlace?
  refine List.filter_congr fun c _ => ?_
  have hpresent := congrArg (List.any · fun name => sameFolded name c.name) h
  simp only [List.any_map, Function.comp_def] at hpresent
  rw [hpresent, ← Option.not_isSome, List.findIdx?_isSome]

theorem filter_sameFolded {xs : List StoredColumn}
    (h : xs.Pairwise fun a b => sameFolded a.name b.name = false) {x : StoredColumn} (hx : x ∈ xs)
    {name : String} (hname : sameFolded x.name name = true) :
    xs.filter (fun y => sameFolded y.name name) = [x] := by
  induction xs with
  | nil => exact absurd hx List.not_mem_nil
  | cons a rest ih =>
    obtain ⟨ha, hrest⟩ := List.pairwise_cons.mp h
    rcases List.mem_cons.mp hx with rfl | hx
    · rw [List.filter_cons, if_pos hname]
      refine congrArg (x :: ·) (List.filter_eq_nil_iff.mpr fun y hy hyn => ?_)
      have := sameFolded_trans hname ((sameFolded_comm _ _).trans hyn)
      rw [ha y hy] at this
      cases this
    · have hne : ¬ sameFolded a.name name = true := by
        intro han
        have := sameFolded_trans han ((sameFolded_comm _ _).trans hname)
        rw [ha x hx] at this
        cases this
      rw [List.filter_cons, if_neg hne]
      exact ih hrest hx

/-- The columns that a table lacked are different from its own, and from one another. -/
theorem Table.Sound.extended {t : Table} (ht : t.Sound) {m : Mapping} (hm : m.Sound)
    {added : List StoredColumn}
    (hadded : added.map StoredColumn.name = (m.lacked t).map Column.name) :
    (t.extended added).Sound := by
  refine ⟨List.pairwise_append.mpr ⟨ht.distinct, ?_, fun x hx a ha => ?_⟩, ht.short⟩
  · have hlacked : (m.lacked t).Pairwise fun a b => sameFolded a.name b.name = false :=
      hm.distinct.sublist List.filter_sublist
    have hnames : ((m.lacked t).map Column.name).Pairwise fun a b => sameFolded a b = false :=
      List.pairwise_map.mpr hlacked
    rw [← hadded] at hnames
    exact List.pairwise_map.mp hnames
  · obtain ⟨c, hc, hca⟩ := List.mem_map.mp (hadded ▸ List.mem_map_of_mem (f := StoredColumn.name) ha)
    have hnone := (List.mem_filter.mp hc).2
    rw [← Option.not_isSome, Bool.not_eq_true', Bool.eq_false_iff, ne_eq,
      isSome_columnPlace?] at hnone
    rw [← hca, ← Bool.not_eq_true]
    exact fun hsame => hnone ⟨x, hx, hsame⟩

/-! ## Statements that change nothing -/

theorem Cell.ofInt_ofNat {n : Nat} (h : n < 2 ^ 63) :
    ∃ i, Cell.ofInt (Int.ofNat n) = .integer i := by
  have hfits : FitsInt64 (Int.ofNat n) := by
    unfold FitsInt64 minInt64 maxInt64
    rw [Int.ofNat_eq_natCast]
    omega
  unfold Cell.ofInt int64?
  rw [if_pos hfits]
  exact ⟨_, rfl⟩

theorem ColumnDescription.ofRow_labels (a e : Value) (name type : String) (n k : Int64) :
    ∃ described, ofRow ⟨Program.columnLabels, [a, .text name, .text type, .int n, e, .int k]⟩ =
      .ok described := by
  have hplace : ∀ {label : String} {i : Nat},
      Program.columnLabels.findIdx? (fun c => sameFolded c label) = some i →
        ResultRow.named? ⟨Program.columnLabels, [a, .text name, .text type, .int n, e, .int k]⟩ label =
          [a, .text name, .text type, .int n, e, .int k][i]? := by
    intro label i hi
    unfold ResultRow.named?
    rw [hi]
    rfl
  have hname := @hplace "name" 1 (by decide)
  have htype := @hplace "type" 2 (by decide)
  have hnull := @hplace "notnull" 3 (by decide)
  have hkey := @hplace "pk" 5 (by decide)
  unfold ofRow text flag
  rw [hname, htype, hnull, hkey]
  exact ⟨_, rfl⟩

theorem Session.ofRow_columnRows {t : Table} (ht : t.Sound) {cells : List Cell}
    (h : cells ∈ Program.columnRows t) :
    ∃ row described, plainRow Program.columnLabels cells = .ok row ∧
      ColumnDescription.ofRow row = .ok described := by
  obtain ⟨⟨c, i⟩, -, rfl⟩ := List.mem_map.mp h
  have hshort : ((t.key.findIdx? (· == i)).map (· + 1)).getD 0 < 2 ^ 63 := by
    have hlength := ht.short
    cases hi : t.key.findIdx? (· == i) with
    | none => exact Nat.two_pow_pos 63
    | some k =>
      have := (List.findIdx?_eq_some_iff_findIdx_eq.mp hi).1
      show k + 1 < 2 ^ 63
      omega
  obtain ⟨k, hk⟩ := Cell.ofInt_ofNat hshort
  dsimp only
  rw [hk]
  obtain ⟨described, hdescribed⟩ := ColumnDescription.ofRow_labels _ _ _ _ _ _
  exact ⟨_, described, rfl, hdescribed⟩

namespace Definition

theorem keep_of_run {d : Database} {definition : Definition} (h : definition.run d = .ok d) :
    definition = .keep := by
  rcases version_run h with ⟨hkeep, -⟩ | hlt
  · exact hkeep
  · exact absurd hlt (Nat.lt_irrefl _)

end Definition

namespace Database

variable {d d' : Database} {table : String} {t : Table}

theorem redefine?_planText {p : IndexPlan} (hne : p.members ≠ []) (ht : d.table? table = some t)
    (hreserved : Definition.isReserved p.name = false) (hname : d.table? p.name = none)
    (hi : (d.index? p.name).isSome = true) {x : Option Sql.Statement × Sql.Parameters}
    (hx : Sql.readStatement (planText table p) = .ok x) :
    d.redefine? (planText table p) = some d := by
  obtain ⟨⟨order, c⟩, rest, hmembers⟩ := List.exists_cons_of_ne_nil hne
  obtain ⟨columns, text, parameters, -, hreads⟩ :=
    Sql.readsAs_createIndex p.name table c (rest.map Prod.snd) p.unique
  have hplan : planText table p = createIndexStatement p.name table (c :: rest.map Prod.snd)
      p.unique := by
    unfold planText
    rw [hmembers, List.map_cons]
  rw [hplan] at hx ⊢
  have hread := hreads.read (hreads.of_ok hx).1
  have htable : d.tableFor "indexed" table (.noTable ("main." ++ table)) = .ok t := by
    unfold tableFor
    rw [ht]
  have hdefinition : Definition.ofCreateIndex d p.unique true p.name table columns text =
      .ok .keep := by
    unfold Definition.ofCreateIndex
    rw [htable, hreserved, hname, hi]
    rfl
  have hof : Program.of d parameters (.createIndex p.unique true p.name table columns text) =
      .ok (.define .keep) := by
    show (Definition.ofCreateIndex d p.unique true p.name table columns text >>= fun x =>
      pure (Program.define x)) = _
    rw [hdefinition]
    rfl
  unfold redefine?
  rw [hread]
  simp only [hof]
  rfl

theorem isSome_index?_of_plans {plans : List IndexPlan} (hne : ∀ p ∈ plans, p.members ≠ [])
    (ht : d.table? table = some t) (h : d.redefineAll? (plans.map (planText table)) = some d')
    {p : IndexPlan} (hp : p ∈ plans) : (d'.index? p.name).isSome = true := by
  obtain ⟨-, -, hindices⟩ := of_redefineAll?_indices hne ht h
  have htaken : ∀ {ix : Index}, ix ∈ d'.indices → sameFolded ix.name p.name = true →
      (d'.index? p.name).isSome = true :=
    fun hix hname => List.find?_isSome.mpr ⟨_, hix, hname⟩
  cases hd : d.index? p.name with
  | some ix =>
    have hname := List.find?_some (p := fun ix : Index => sameFolded ix.name p.name) hd
    exact htaken ((hindices ix).mpr (.inl (List.mem_of_find?_eq_some hd))) hname
  | none =>
    obtain ⟨q, hq⟩ : ∃ q, plans.find? (fun q => sameFolded q.name p.name) = some q :=
      Option.isSome_iff_exists.mp (List.find?_isSome.mpr ⟨p, hp, sameFolded_refl _⟩)
    have hqp := List.find?_some (p := fun q : IndexPlan => sameFolded q.name p.name) hq
    have hopens : d.Opens plans q := by
      refine ⟨(index?_congr hqp).trans hd, ?_⟩
      rw [← hq]
      congr 1
      funext o
      unfold sameFolded
      rw [beq_iff_eq.mp hqp]
    exact htaken ((hindices _).mpr (.inr ⟨q, hopens, rfl⟩)) hqp

theorem redefine?_planText_again {plans : List IndexPlan} (hne : ∀ p ∈ plans, p.members ≠ [])
    (ht : d.table? table = some t) (h : d.redefineAll? (plans.map (planText table)) = some d')
    {p : IndexPlan} (hp : p ∈ plans) : d'.redefine? (planText table p) = some d' := by
  obtain ⟨hchosen, htables, -⟩ := of_redefineAll?_indices hne ht h
  have hfound : ∀ name, d'.table? name = d.table? name := by
    intro name
    unfold table?
    rw [htables]
  obtain ⟨s, parameters, hread⟩ := read_of_redefineAll? h (List.mem_map_of_mem hp)
  refine redefine?_planText (hne p hp) ((hfound table).trans ht) (hchosen p hp).1 ?_
    (isSome_index?_of_plans hne ht h hp) hread
  rw [hfound]
  exact (hchosen p hp).2

end Database

/-- Nobody keeps a link that is alone from reading. -/
theorem Engine.acquireRead_of_alone {e : Engine} (h : e.Alone) : ∃ r, e.acquireRead = .ok r := by
  unfold acquireRead
  by_cases hlock : Lock.shared.level ≤ e.lock.level
  · exact ⟨e, if_pos hlock⟩
  · have hothers : e.storage.othersBelow e.link.id .pending = true := by
      unfold Alone Storage.othersBelow at h
      unfold Storage.othersBelow
      rw [List.all_eq_true] at h ⊢
      intro x hx
      have hbelow := h x hx
      rw [Bool.or_eq_true, decide_eq_true_iff] at hbelow ⊢
      exact hbelow.imp_right fun hlevel => Nat.lt_of_lt_of_le hlevel (by decide)
    exact ⟨_, (if_neg hlock).trans (if_pos hothers)⟩

namespace Session

open RecordMapper.Action

variable {alone : Bool} {s t : Session}

theorem reads_statement (hs : s.Usable true) (hi : s.Informed) {text : String} {st : Sql.Statement}
    {ps : Sql.Parameters} {program : Program} (hread : Sql.readStatement text = .ok (some st, ps))
    (hst : Engine.readsDefinitions st = true)
    (hp : ∀ d : Database, d.bare = s.nesting.rows.bare → Program.of d ps st = .ok program)
    (hn : program.need = .reading) :
    ∃ q u sc v, ready (.positional text []) s = (.ok q, u) ∧ q.names = program.names ∧
      step q u = (.ok (program.rows s.nesting.rows sc), v) := by
  obtain ⟨link, hl, -, halone⟩ := hs
  obtain ⟨link', hl', k, hk, hbare⟩ := hi
  obtain rfl : link' = link := Option.some.inj (hl'.symm.trans hl)
  have hcontent : Engine.content ⟨s.storage, link'⟩ = s.nesting.rows := content_of_link hl
  have hreadable : Engine.Readable ⟨s.storage, link'⟩ := by
    refine ⟨fun k' hk' => ?_, ?_⟩
    · obtain rfl : k = k' := Option.some.inj (hk.symm.trans hk')
      exact hbare
    · exact Engine.acquireRead_of_alone (halone rfl)
  have hof := hp _ (hreadable.bare_definitions.trans (by rw [hcontent]))
  have hprepare := Engine.prepare_of hreadable hread hst hof
  obtain ⟨r, -, hrun⟩ := Engine.run_reading (p := ⟨text, some st, ps, program.names, []⟩)
    hreadable rfl hof hn
  rw [hcontent] at hrun
  exact ⟨_, _, _, _, ready_apply (c := .positional text []) (prepare_apply hl hprepare), rfl,
    step_apply rfl hrun⟩

theorem mapM_ok {α β : Type} {f : α → Except Error β} {as : List α}
    (h : ∀ a ∈ as, ∃ b, f a = .ok b) :
    ∃ bs, as.mapM f = .ok bs ∧ ∀ b ∈ bs, ∃ a ∈ as, f a = .ok b := by
  induction as with
  | nil => exact ⟨[], rfl, fun _ hb => absurd hb List.not_mem_nil⟩
  | cons a rest ih =>
    obtain ⟨b, hb⟩ := h a List.mem_cons_self
    obtain ⟨bs, hbs, hall⟩ := ih fun a ha => h a (List.mem_cons_of_mem _ ha)
    refine ⟨b :: bs, ?_, fun x hx => ?_⟩
    · rw [List.mapM_cons, hb, hbs]
      rfl
    · rcases List.mem_cons.mp hx with rfl | hx
      · exact ⟨a, List.mem_cons_self, hb⟩
      · obtain ⟨a', ha', hfa⟩ := hall x hx
        exact ⟨a', List.mem_cons_of_mem _ ha', hfa⟩

/-- The columns of a table are told. -/
theorem tableInfo_ok (hs : s.Usable true) (hi : s.Informed) {table : String}
    (hz : NoZero table) {t : Table} (ht : s.nesting.rows.readable? table = some t)
    (hsound : t.Sound) :
    ∃ present u, tableInfo table s = (.ok present, u) := by
  have hreads : Engine.readsDefinitions (.pragma "table_info" (some table)) = true := by
    have hfold : foldCase "table_info" = "table_info" := by decide
    show (foldCase "table_info" == "table_info") = true
    rw [hfold, beq_self_eq_true]
  obtain ⟨q, u, sc, v, hready, hnames, hstep⟩ := reads_statement hs hi
    ((Sql.readsAs_tableInfo table).read (Sql.noZero_tableInfo.mpr hz)) hreads
      (fun d _ => Program.of_tableInfo d _ table) rfl
  have hrun : Program.rows s.nesting.rows sc (.tableInfo table) = ⟨Program.columnRows t, none⟩ := by
    show (⟨((s.nesting.rows.readable? table).map Program.columnRows).getD [], none⟩ : Run _) = _
    rw [ht]
    rfl
  rw [hrun] at hstep
  obtain ⟨found, hfound, hrows⟩ := mapM_ok fun cells hcells => by
    obtain ⟨row, _, hrow, -⟩ := ofRow_columnRows hsound hcells
    exact ⟨row, hrow⟩
  have hdescribed : ∀ row ∈ found, ∃ described, ColumnDescription.ofRow row = .ok described := by
    intro row hrow
    obtain ⟨cells, hcells, hplain⟩ := hrows row hrow
    obtain ⟨row', described, hrow', hdescribed⟩ := ofRow_columnRows hsound hcells
    rw [hplain] at hrow'
    cases hrow'
    exact ⟨described, hdescribed⟩
  obtain ⟨present, hpresent, -⟩ := mapM_ok hdescribed
  have hcollect : collect ⟨Program.columnRows t, none⟩ (plainRow q.names) = .ok found := by
    unfold collect
    rw [hnames]
    exact congrArg (· >>= fun items => .ok items) hfound
  refine ⟨present, v, (tableInfo_apply hready hstep).trans ?_⟩
  rw [hcollect]
  exact congrArg (·, v) hpresent

theorem executeText_kept (hs : s.Usable true) (hi : s.Informed) {text : String}
    (ht : Sql.Defines text) (h : s.nesting.rows.redefine? text = some s.nesting.rows) :
    ∃ n u, executeText text [] s = (.ok n, u) := by
  obtain ⟨st, ps, hread⟩ := Database.read_of_redefine? h
  obtain ⟨definition, hof, hrun⟩ := Database.of_redefine? h hread
  obtain rfl := Definition.keep_of_run hrun
  have hdefines := ht st ps hread
  have hst : Engine.readsDefinitions st = true := by
    cases st with
    | createTable _ _ | createIndex _ _ _ _ _ _ | addColumn _ _ _ => rfl
    | _ => cases hdefines
  obtain ⟨q, u, sc, v, hready, -, hstep⟩ := reads_statement hs hi hread hst
    (fun d hd => (Program.of_defines hdefines hd).trans hof) rfl
  have hfinish : finishExecute q u = (.ok v.changes, v) := by
    unfold finishExecute
    rw [bind_ok hstep]
    rfl
  exact ⟨v.changes, v, (bind_ok hready).trans hfinish⟩

/-- A script that changes no definition comes to its end. -/
theorem perform_kept {texts : List String} (hall : ∀ text ∈ texts, Sql.Defines text ∧
      s.nesting.rows.redefine? text = some s.nesting.rows) (hs : s.Usable true) (hc : s.Current)
    (hi : s.Informed) : ∃ u, perform (texts.map .ok) s = (.ok (), u) ∧ Steady true s u ∧
      u.nesting.rows = s.nesting.rows := by
  induction texts generalizing s with
  | nil => exact ⟨s, rfl, .refl hs hc, rfl⟩
  | cons text rest ih =>
    obtain ⟨hdefines, hkept⟩ := hall text List.mem_cons_self
    obtain ⟨n, u, hexec⟩ := executeText_kept hs hi hdefines hkept
    obtain ⟨x, u', hx, hu, hrows⟩ := executeText_defines hdefines hs hc
    rw [hexec] at hx
    cases hx
    obtain ⟨hredefined, hinformed⟩ := hrows
    have hrows : s.nesting.rows = u.nesting.rows := Option.some.inj (hkept.symm.trans hredefined)
    obtain ⟨v, hv, hsteady, hvrows⟩ :=
      ih (fun text' h => hrows ▸ hall text' (List.mem_cons_of_mem _ h))
      hu.usable hu.current hinformed
    refine ⟨v, ?_, hu.trans hsteady, hvrows.trans hrows.symm⟩
    exact (bind_ok hexec).trans hv

/-! ## Migrations -/

theorem mappingWith_again {conventions : Conventions} {d : Declaration} {m : Mapping}
    (hm : (mappingWith conventions d s).1 = .ok m)
    (ht : t.connection.catalog = (s.connection.catalog.request conventions d).2)
    (conventions' : Conventions) : mappingWith conventions' d t = (.ok m, t) := by
  unfold mappingWith
  rw [ht, Catalog.request_again (c := s.connection.catalog) hm]
  show (_, { t with connection := { t.connection with catalog := _ } }) = _
  rw [← ht]

theorem names_of_forall₂ {P : StoredColumn → Column → Prop} {added : List StoredColumn}
    {cs : List Column} (h : List.Forall₂ P added cs) (hP : ∀ a c, P a c → a.name = c.name) :
    added.map StoredColumn.name = cs.map Column.name := by
  rw [← List.forall₂_eq_eq_eq, List.forall₂_map_left_iff, List.forall₂_map_right_iff]
  exact h.imp hP

/-- Where the table has all columns of the mapping and all indices are there, a creation changes
nothing. -/
theorem createTableWith_kept (hs : s.Usable true) (hc : s.Current) (hi : s.Informed)
    {conventions : Conventions} {d : Declaration} {m : Mapping} {plans : List IndexPlan} {t : Table}
    (hm : mappingWith conventions d s = (.ok m, s)) (hp : IndexPlan.ofMapping m = .ok plans)
    (hz : NoZero m.table) (ht : s.nesting.rows.readable? m.table = some t) (hsound : t.Sound)
    (hne : t.columns ≠ []) (hlacked : m.lacked t = [])
    (hall : ∀ p ∈ plans, s.nesting.rows.redefine? (Database.planText m.table p) = some s.nesting.rows) :
    ∃ u, createTableWith conventions d s = (.ok .migrated, u) ∧
    u.nesting.rows = s.nesting.rows := by
  obtain ⟨present, u, hinfo⟩ := tableInfo_ok hs hi hz ht hsound
  obtain ⟨x, u', hx, hu, hrows, hnames⟩ := tableInfo_steady hs hc m.table
  rw [hinfo] at hx
  cases hx
  obtain ⟨hinformed, -, hnames⟩ := hnames present rfl
  rw [ht] at hnames
  have hpresent : present.isEmpty = false := by
    rw [List.isEmpty_eq_false_iff]
    rintro rfl
    exact hne (List.map_eq_nil_iff.mp hnames.symm)
  have hscript : m.script s.connection.settings.ticks present plans =
      (plans.map (Database.planText m.table)).map .ok := by
    unfold Mapping.script
    rw [hpresent, if_neg Bool.false_ne_true, Mapping.missingColumns_eq hnames,
      hlacked, List.map_map]
    rfl
  have hkept : ∀ text ∈ plans.map (Database.planText m.table), Sql.Defines text ∧
      u.nesting.rows.redefine? text = some u.nesting.rows := by
    intro text htext
    obtain ⟨p, hpm, rfl⟩ := List.mem_map.mp htext
    rw [hrows]
    exact ⟨defines_createIndexStatement _ _ _ _, hall p hpm⟩
  obtain ⟨v, hv, -, hvrows⟩ := perform_kept hkept hu.usable hu.current hinformed
  have happly := createTableWith_apply hm hp hinfo hu.settings
  rw [hscript, bind_ok hv, modify_bind, hpresent] at happly
  exact ⟨_, happly, hvrows.trans hrows⟩

/-- **What a migration leaves.** The table has its columns and rows as before, followed by one
column for each column of the mapping that matched none, in the order of the mapping; what the rows
hold in it is null where the engine knows the collation of the column. No other table has changed.
Each column of the mapping now matches one column of the table, and a session that is alone may
repeat the creation without any change. -/
theorem migrated_createTableWith (hs : s.Usable alone) (hc : s.Current)
    (hcatalog : s.connection.catalog.Sound) {conventions : Conventions}
    {d : Declaration} {m : Mapping} {table : Table} (hm : (mappingWith conventions d s).1 = .ok m)
    (htable : s.nesting.rows.table? m.table = some table) (hsound : table.Sound)
    (h : createTableWith conventions d s = (.ok .migrated, t)) :
    ∃ added, t.nesting.rows.table? m.table = some (table.extended added) ∧
      List.Forall₂ (fun a c => a.name = c.name ∧ (c.Declarable → a.missing = .null)) added
        (m.lacked table) ∧
      (∀ name, sameFolded m.table name = false →
        t.nesting.rows.table? name = s.nesting.rows.table? name) ∧
      (∀ c ∈ m.columns,
        ((table.extended added).columns.filter fun x => sameFolded x.name c.name).length = 1) ∧
      (alone = true → ∀ conventions', ∃ u, createTableWith conventions' d t = (.ok .migrated, u) ∧
        u.nesting.rows = t.nesting.rows) := by
  have hcreates := creates_createTableWith hs hc conventions d
  rw [h] at hcreates
  generalize hcreation : (Except.ok Creation.migrated : Except Error Creation) =
    creation at hcreates
  cases hcreates with
  | unstarted => cases hcreation
  | refused => cases hcreation
  | @done _ m' plans present texts hstays hcurrent hinformed _ htcatalog _ hprepares
    hscript hrows =>
    rw [← hcreation]
    obtain rfl : m' = m := Except.ok.inj (hprepares.mapping.symm.trans hm)
    have hpresent : present.isEmpty = false := by
      cases hp : present.isEmpty with
      | false => rfl
      | true =>
        rw [hp] at hcreation
        cases hcreation
    have hnames := hprepares.names
    rw [Database.readable?_of_table? htable] at hnames
    have hmissing : m'.missingColumns present = m'.lacked table := Mapping.missingColumns_eq hnames
    obtain ⟨adds, e, hadds, he, hindexed⟩ := Database.of_migrated hpresent hscript hrows
    rw [hmissing] at hadds
    obtain ⟨added, hadded, -, htables⟩ := Database.of_redefineAll?_columns htable hadds he
    have haddedNames : added.map StoredColumn.name = (m'.lacked table).map Column.name :=
      names_of_forall₂ hadded fun _ _ h => h.1
    have hm' : m'.Sound := hcatalog.requested hm
    have hextended : (table.extended added).Sound := hsound.extended hm' haddedNames
    have hplanned := IndexPlan.planned_ofMapping hprepares.plans
    have hetable : e.table? m'.table = some (table.extended added) := by
      rw [htables, if_pos (sameFolded_refl _)]
    obtain ⟨-, hsame, -⟩ := Database.of_redefineAll?_indices hplanned.inhabited hetable hindexed
    have hfound : ∀ name, t.nesting.rows.table? name = e.table? name := by
      intro name
      unfold Database.table?
      rw [hsame]
    have hplace : ∀ c ∈ m'.columns, ((table.extended added).columnPlace? c.name).isSome = true :=
      fun c hcm => Database.columnPlace?_extended hnames (hmissing ▸ haddedNames.symm) hcm
    refine ⟨added, (hfound _).trans hetable, ?_, fun name hname => ?_, fun c hcm => ?_,
      fun halone conventions' => ?_⟩
    · exact hadded.imp fun a c hac =>
        ⟨hac.1, fun hd => StoredColumn.missing_of_no_fallback (hac.2 hd)⟩
    · rw [hfound, htables, hname, if_neg Bool.false_ne_true]
    · obtain ⟨x, hx, hxc⟩ := Table.isSome_columnPlace?.mp (hplace c hcm)
      rw [filter_sameFolded hextended.distinct hx hxc]
      rfl
    · subst halone
      have hlacked : m'.lacked (table.extended added) = [] := by
        refine List.filter_eq_nil_iff.mpr fun c hcm hnone => ?_
        rw [← Option.not_isSome, hplace c hcm] at hnone
        cases hnone
      have hne : (table.extended added).columns ≠ [] := by
        intro hnil
        have htnil : table.columns = [] := (List.append_eq_nil_iff.mp hnil).1
        rw [Option.map_some, Option.getD_some, htnil] at hnames
        rw [List.map_eq_nil_iff.mp hnames] at hpresent
        cases hpresent
      exact createTableWith_kept hstays.usable hcurrent hinformed
        (mappingWith_again hm htcatalog conventions') hprepares.plans hprepares.whole
        (Database.readable?_of_table? ((hfound _).trans hetable)) hextended hne hlacked
        fun p hp => Database.redefine?_planText_again hplanned.inhabited hetable hindexed hp

def shortTable : Table :=
  ⟨"Note", [⟨"Body", "varchar", .text, false, .binary, none⟩], none, false, false, [], [],
    [⟨1, [.text "a"]⟩]⟩

theorem sound_shortTable : shortTable.Sound := by
  refine ⟨?_, Nat.two_pow_pos 63⟩
  exact List.pairwise_singleton (fun a b : StoredColumn => sameFolded a.name b.name = false) _

def shortened : Session :=
  { connection := { settings := {}, link := some { id := 0 } }
    supply := default
    storage.content := { tables := [shortTable] } }

theorem usable_shortened : shortened.Usable true := ⟨_, rfl, sane_new _, fun _ => rfl⟩

theorem current_shortened : shortened.Current := by
  rintro link ⟨⟩
  exact .of_unknown rfl

/-- A record type with one more column, of some collation. -/
def longer (collation : String) : Declaration :=
  ⟨"Note", "Note", false,
    [⟨"Body", none, ⟨.plain .text, false⟩, [], .text ""⟩,
      ⟨"Extra", none, ⟨.plain .text, false⟩, [.collate collation], .text ""⟩], []⟩

/-- The creation of its table where the shorter one is there. -/
def lengthened (collation : String) : Except Error Creation × Session :=
  createTableWith .silent (longer collation) shortened

def noteCells (s : Session) : Option (List (List Cell)) :=
  (s.nesting.rows.table? "Note").map fun t => t.rows.map Row.cells

theorem lengthened_plain : (lengthened "nocase").1.toOption = some .migrated := by decide +kernel

theorem lengthened_default : (lengthened "nocase default 5").1.toOption = some .migrated ∧
    noteCells (lengthened "nocase default 5").2 = some [[.text "a", .text "5"]] := by
  decide +kernel

def longerMapping (collation : String) : Except Error Mapping :=
  (mappingWith .silent (longer collation) shortened).1

theorem longerMapping_ok (collation : String)
    (h : (longerMapping collation).toOption.map Mapping.table = some "Note") :
    ∃ m, longerMapping collation = .ok m ∧ m.table = "Note" := by
  obtain ⟨m, hm, htable⟩ := Option.map_eq_some_iff.mp h
  exact ⟨m, ok_of_toOption hm, htable⟩

theorem table?_shortened : shortened.nesting.rows.table? "Note" = some shortTable := by
  have hsame : sameFolded shortTable.name "Note" = true := sameFolded_refl _
  show List.find? (fun t : Table => sameFolded t.name "Note") [shortTable] = some shortTable
  rw [List.find?_singleton, if_pos hsame]

/-- A column with a collation that the engine knows is added once. -/
theorem migrated_createTableWith_longer : ∃ m, longerMapping "nocase" = .ok m ∧
    (shortened.Usable true ∧ shortened.Current ∧ shortened.connection.catalog.Sound ∧
      shortTable.Sound ∧
      shortened.nesting.rows.table? m.table = some shortTable ∧
      createTableWith .silent (longer "nocase") shortened =
        (.ok .migrated, (lengthened "nocase").2)) ∧
    ∃ added u, (lengthened "nocase").2.nesting.rows.table? m.table =
      some (shortTable.extended added) ∧
      added.map StoredColumn.name = (m.lacked shortTable).map Column.name ∧
      createTableWith .silent (longer "nocase") (lengthened "nocase").2 = (.ok .migrated, u) ∧
      u.nesting.rows = (lengthened "nocase").2.nesting.rows := by
  obtain ⟨m, hm, hname⟩ := longerMapping_ok "nocase" (by decide +kernel)
  have htable : shortened.nesting.rows.table? m.table = some shortTable := hname ▸ table?_shortened
  have hrun : createTableWith .silent (longer "nocase") shortened =
      (.ok .migrated, (lengthened "nocase").2) :=
    ends_of_toOption (x := lengthened "nocase") lengthened_plain
  refine ⟨m, hm, ⟨usable_shortened, current_shortened, Catalog.sound_empty, sound_shortTable, htable, hrun⟩, ?_⟩
  obtain ⟨added, hadded, hcolumns, -, -, hagain⟩ :=
    migrated_createTableWith usable_shortened current_shortened
    Catalog.sound_empty hm htable sound_shortTable hrun
  obtain ⟨u, hu, hrows⟩ := hagain rfl .silent
  exact ⟨added, u, hadded, names_of_forall₂ hcolumns fun _ _ h => h.1, hu, hrows⟩

/-- A migration does not always leave null in what it adds. -/
theorem not_always_migrated_createTableWith : ¬ ∀ {s t : Session} {conventions : Conventions}
    {d : Declaration} {m : Mapping} {before after : Table}, s.Usable true → s.Current →
    s.connection.catalog.Sound → (mappingWith conventions d s).1 = .ok m →
    s.nesting.rows.table? m.table = some before → before.Sound →
    createTableWith conventions d s = (.ok .migrated, t) →
    t.nesting.rows.table? m.table = some after →
    ∀ r ∈ after.rows, ∀ i cell, before.columns.length ≤ i → r.cells[i]? = some cell →
    cell = .null := by
  intro hall
  obtain ⟨m, hm, hname⟩ :=
    longerMapping_ok "nocase default 5" (by decide +kernel)
  obtain ⟨hmigrated, hcells⟩ := lengthened_default
  have hrun : createTableWith .silent (longer "nocase default 5") shortened =
      (.ok .migrated, (lengthened "nocase default 5").2) :=
    ends_of_toOption (x := lengthened "nocase default 5") hmigrated
  obtain ⟨after, hafter, hrows⟩ := Option.map_eq_some_iff.mp hcells
  obtain ⟨r, hr, hrc⟩ : ∃ r ∈ after.rows, r.cells = [.text "a", .text "5"] := by
    refine List.mem_map.mp ?_
    rw [hrows]
    exact List.mem_singleton_self _
  have hnull := hall usable_shortened current_shortened Catalog.sound_empty hm
    (hname ▸ table?_shortened)
    sound_shortTable hrun (hname ▸ hafter) r hr 1 (.text "5") (Nat.le_refl 1) (by rw [hrc]; rfl)
  cases hnull

end Session

end RecordMapper
