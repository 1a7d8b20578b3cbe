import RecordMapper.Proofs.FilledRecords

/-!
# Declarations that give a mapping

A declaration is well-formed when its stored fields have types that are known, at most one of them
is the key, a number is only counted up on an integer key, and no two share the name of a column.

1. `Declaration.WellFormed` says so of the declared constraints and the conventions in force, and
   `Declaration.Breaks` which fault reports which violation.
2. `column_meets`: the column of one field meets its part, or the fault names what that
   field breaks.
3. `build_spec`: so does the whole declaration, after the two checks over all columns.
-/

namespace RecordMapper

/-! ## Well-formed declarations -/

namespace Declaration

variable (d : Declaration) (c : Conventions)

/-- The fields that are stored, in order of declaration. -/
def kept : List FieldDeclaration := d.fields.filter fun f => !f.isIgnored

/-- The field is the key: it declares so, or no stored field does and it has the
conventional name. -/
def IsKey (f : FieldDeclaration) : Prop :=
  .primaryKey ∈ f.constraints ∨
    c.implicitKey = true ∧ sameFolded f.property Conventions.keyName = true ∧
      ∀ g ∈ d.kept, .primaryKey ∉ g.constraints

/-- The field is filled in by itself: it declares so, or it is an integer key under the
convention. -/
def IsAuto (f : FieldDeclaration) : Prop :=
  .autoIncrement ∈ f.constraints ∨
    d.IsKey c f ∧ c.autoIncrementKey = true ∧ f.type.dataType.isInteger = true

/-- The declarations that give a table. -/
structure WellFormed : Prop where
  supported : ∀ f ∈ d.kept, f.type.dataType.isSupported = true
  counted : ∀ f ∈ d.kept, d.IsAuto c f → f.type.dataType ≠ .uuid →
    d.IsKey c f ∧ f.type.dataType.isInteger = true
  single : d.kept.Pairwise fun f g => ¬(d.IsKey c f ∧ d.IsKey c g)
  distinct : d.kept.Pairwise fun f g => sameFolded f.name g.name = false

/-- The fault reports something that the declaration breaks. -/
inductive Breaks : SchemaFault → Prop
  | unknownType (f : FieldDeclaration) (hf : f ∈ d.kept) (h : f.type.dataType.isSupported = false) :
    Breaks (.unknownType f.type.dataType.name f.property)
  | autoNotKey (f : FieldDeclaration) (hf : f ∈ d.kept) (ha : d.IsAuto c f)
    (hu : f.type.dataType ≠ .uuid) (h : ¬d.IsKey c f) : Breaks (.autoNotKey d.table f.property)
  | autoNotInteger (f : FieldDeclaration) (hf : f ∈ d.kept) (ha : d.IsAuto c f)
    (hu : f.type.dataType ≠ .uuid) (h : f.type.dataType.isInteger = false) :
    Breaks (.autoNotInteger d.table f.property f.type.dataType.name)
  | manyKeys (h : ¬d.kept.Pairwise fun f g => ¬(d.IsKey c f ∧ d.IsKey c g)) : Breaks
                                                (.manyKeys d.table)
  | duplicateColumn (f g : FieldDeclaration) (hfg : [f, g].Sublist d.kept)
    (h : sameFolded f.name g.name = true) : Breaks (.duplicateColumn d.table g.name)

variable {d c}

theorem Breaks.not_wellFormed {fault : SchemaFault} (h : d.Breaks c fault) : ¬d.WellFormed c := by
  intro hd
  cases h with
  | unknownType f hf h =>
    rw [hd.supported f hf] at h
    cases h
  | autoNotKey f hf ha hu h => exact h (hd.counted f hf ha hu).1
  | autoNotInteger f hf ha hu h =>
    rw [(hd.counted f hf ha hu).2] at h
    cases h
  | manyKeys h => exact h hd.single
  | duplicateColumn f g hfg h =>
    have hpair := List.pairwise_pair.mp (hd.distinct.sublist hfg)
    rw [hpair] at h
    cases h

end Declaration

/-! ## Columns -/

/-- The column is the one that a stored field of a declaration gives. -/
structure Column.Of (c : Conventions) (d : Declaration) (f : FieldDeclaration)
    (column : Column) : Prop where
  place : d.fields[column.field]? = some f
  property : column.property = f.property
  name : column.name = f.name
  type : column.type = f.type
  key : column.isKey = true ↔ d.IsKey c f
  increment : column.autoIncrement = true ↔ d.IsAuto c f ∧ f.type.dataType ≠ .uuid
  identifier : column.autoIdentifier = true ↔ d.IsAuto c f ∧ f.type.dataType = .uuid
  nullable : column.nullable = true ↔ ¬d.IsKey c f ∧ .notNull ∉ f.constraints

namespace Mapping

variable {c : Conventions} {d : Declaration} {f : FieldDeclaration}

theorem kept_eq (d : Declaration) : d.kept = (storedFields d).map Prod.fst := by
  have hall : d.fields.zipIdx.map Prod.fst = d.fields := List.zipIdx_map_fst 0 d.fields
  unfold Declaration.kept storedFields
  conv_lhs => rw [← hall]
  rw [List.filter_map]
  rfl

def declaresKey (d : Declaration) : Bool := (storedFields d).any fun (f, _) => f.isPrimaryKey

theorem declaresKey_eq_false_iff : declaresKey d = false ↔
    ∀ g ∈ d.kept, .primaryKey ∉ g.constraints := by
  rw [kept_eq, List.forall_mem_map, declaresKey, List.any_eq_false]
  simp [FieldDeclaration.isPrimaryKey]

theorem keyField_iff : keyField c (declaresKey d) f = true ↔ d.IsKey c f := by
  simp only [keyField, Declaration.IsKey, ← declaresKey_eq_false_iff, FieldDeclaration.isPrimaryKey,
    Bool.or_eq_true, Bool.and_eq_true, Bool.not_eq_true', List.contains_iff_mem]
  tauto

theorem autoField_iff : autoField c (keyField c (declaresKey d) f) f = true ↔ d.IsAuto c f := by
  simp only [autoField, Declaration.IsAuto, ← keyField_iff, FieldDeclaration.isAutoIncrement,
    Bool.or_eq_true, Bool.and_eq_true, List.contains_iff_mem]
  tauto

/-- A stored field gives its column, or a fault that names what it breaks. -/
theorem column_meets {place : Nat} (hf : (f, place) ∈ storedFields d) :
    match column c d.table (declaresKey d) place f with
    | .ok column =>
      column.Of c d f ∧ column.field = place ∧ f.type.dataType.isSupported = true ∧
        (d.IsAuto c f → f.type.dataType ≠ .uuid → d.IsKey c f ∧ f.type.dataType.isInteger = true)
    | .error fault => d.Breaks c fault := by
  have hkept : f ∈ d.kept := kept_eq d ▸ List.mem_map_of_mem hf
  have hplace : d.fields[place]? = some f := by
    simpa using List.mk_mem_zipIdx_iff_getElem?.mp (List.mem_of_mem_filter hf)
  have hkey : keyField c (declaresKey d) f = true ↔ d.IsKey c f := keyField_iff
  have hcounts : countsUp c (declaresKey d) f = true ↔ d.IsAuto c f ∧ f.type.dataType ≠ .uuid := by
    rw [countsUp, Bool.and_eq_true, autoField_iff, bne_iff_ne]
  have hidentifies : (autoField c (keyField c (declaresKey d) f) f && f.type.dataType == .uuid) =
    true ↔
      d.IsAuto c f ∧ f.type.dataType = .uuid := by
    rw [Bool.and_eq_true, autoField_iff, beq_iff_eq]
  have hspec := column_spec c d.table (declaresKey d) place f
  cases hx : column c d.table (declaresKey d) place f with
  | error fault =>
    rw [hx] at hspec
    rcases hspec with ⟨hunknown, rfl⟩ | ⟨hauto, ⟨hnotKey, rfl⟩ | ⟨hnotInteger, rfl⟩⟩
    · exact .unknownType f hkept hunknown
    · obtain ⟨ha, hu⟩ := hcounts.mp hauto
      exact .autoNotKey f hkept ha hu (hkey.not.mp (Bool.eq_false_iff.mp hnotKey))
    · obtain ⟨ha, hu⟩ := hcounts.mp hauto
      exact .autoNotInteger f hkept ha hu hnotInteger
  | ok column =>
    rw [hx] at hspec
    obtain ⟨rfl, hsupported, hcounted⟩ := hspec
    have hnullable : (columnOf c (declaresKey d) place f).nullable = true ↔
        ¬d.IsKey c f ∧ .notNull ∉ f.constraints := by
      rw [← hkey]
      simp [columnOf, FieldDeclaration.isNotNull]
    exact ⟨⟨hplace, rfl, rfl, rfl, hkey, hcounts, hidentifies, hnullable⟩, rfl, hsupported,
      fun ha hu => (hcounted (hcounts.mpr ⟨ha, hu⟩)).imp_left hkey.mp⟩

/-! ## Whole declarations -/

theorem of_firstDuplicate_eq_some {seen : List String} {cs : List Column} {name : String}
    (h : firstDuplicate seen cs = some name) :
    (∃ c ∈ cs, c.name = name ∧ ∃ n ∈ seen, sameFolded n name = true) ∨
      ∃ a b, [a, b].Sublist cs ∧ b.name = name ∧ sameFolded a.name name = true := by
  induction cs generalizing seen with
  | nil => cases h
  | cons c rest ih =>
    unfold firstDuplicate at h
    split at h
    · rename_i hsame
      cases h
      exact .inl ⟨c, List.mem_cons_self, rfl, List.any_eq_true.mp hsame⟩
    · rcases ih h with ⟨b, hb, hname, n, hn, hsame⟩ | ⟨a, b, hab, hname, hsame⟩
      · rcases List.mem_cons.mp hn with rfl | hn
        · exact .inr ⟨c, b, (List.singleton_sublist.mpr hb).cons_cons c, hname, hsame⟩
        · exact .inl ⟨b, List.mem_cons_of_mem c hb, hname, n, hn, hsame⟩
      · exact .inr ⟨a, b, hab.cons c, hname, hsame⟩

theorem pairwise_isKey_iff {cs : List Column} :
    cs.Pairwise (fun a b => ¬(a.isKey = true ∧ b.isKey = true)) ↔
      (cs.filter Column.isKey).length ≤ 1 := by
  have hfilter : (cs.filter Column.isKey).Pairwise (fun _ _ => False) ↔
      cs.Pairwise (fun a b => ¬(a.isKey = true ∧ b.isKey = true)) := by
    rw [List.pairwise_filter]
    simp only [not_and, imp_false]
  rw [← hfilter]
  rcases cs.filter Column.isKey with _ | ⟨a, _ | ⟨b, rest⟩⟩
  · simp
  · simp
  · exact iff_of_false (fun h => (List.pairwise_cons.mp h).1 b List.mem_cons_self) (by simp)

/-- The mapping is the one that a declaration gives. -/
structure Of (c : Conventions) (d : Declaration) (m : Mapping) : Prop where
  record : m.record = d
  columns : List.Forall₂ (Column.Of c d) d.kept m.columns
  ordered : m.columns.Pairwise fun a b => a.field < b.field
  apart : ∀ column ∈ m.columns, ¬(column.autoIncrement = true ∧ column.autoIdentifier = true)
  counting : m.hasAutoIncrementKey = true ↔ ∃ column ∈ m.columns, column.autoIncrement = true
  counted : ∀ column ∈ m.columns, column.autoIncrement = true → m.key? = some column ∧
    ∃ before after, m.columns = before ++ column :: after ∧ m.insertColumns = before ++ after
  uncounted : m.hasAutoIncrementKey = false → m.insertColumns = m.columns

theorem split_of_autoIncrement {m : Mapping}
    (hsingle : m.columns.Pairwise fun a b => ¬(a.isKey = true ∧ b.isKey = true))
    (hkeys : ∀ column ∈ m.columns, column.autoIncrement = true → column.isKey = true)
    {column : Column} (hc : column ∈ m.columns) (ha : column.autoIncrement = true) :
    m.key? = some column ∧
      ∃ before after, m.columns = before ++ column :: after ∧
        m.insertColumns = before ++ after := by
  obtain ⟨before, after, hsplit⟩ := List.append_of_mem hc
  have hkey := hkeys column hc ha
  rw [hsplit, List.pairwise_append, List.pairwise_cons] at hsingle
  obtain ⟨-, ⟨hafter, -⟩, hbefore⟩ := hsingle
  have hother : ∀ b ∈ before ++ after, ¬b.isKey = true := by
    intro b hb hk
    rcases List.mem_append.mp hb with hb | hb
    · exact hbefore b hb column List.mem_cons_self ⟨hk, hkey⟩
    · exact hafter b hb ⟨hkey, hk⟩
  have hplain : (before ++ after).filter (fun b => !b.autoIncrement) = before ++ after := by
    refine List.filter_eq_self.mpr fun b hb => ?_
    rw [Bool.not_eq_true', ← Bool.not_eq_true]
    refine fun hb' => hother b hb (hkeys b ?_ hb')
    rw [hsplit]
    exact List.mem_append.mpr ((List.mem_append.mp hb).imp_right (List.mem_cons_of_mem column))
  refine ⟨?_, before, after, hsplit, ?_⟩
  · rw [key?, hsplit, List.find?_eq_some_iff_append]
    exact ⟨hkey, before, after, rfl, fun b hb => by
      simpa using hother b (List.mem_append_left after hb)⟩
  · rw [insertColumns, hsplit, List.filter_append, List.filter_cons_of_neg (by simp [ha]), ← List.filter_append,
      hplain]

theorem hasAutoIncrementKey_iff {m : Mapping}
    (hsingle : m.columns.Pairwise fun a b => ¬(a.isKey = true ∧ b.isKey = true))
    (hkeys : ∀ column ∈ m.columns, column.autoIncrement = true → column.isKey = true) :
    m.hasAutoIncrementKey = true ↔ ∃ column ∈ m.columns, column.autoIncrement = true := by
  constructor
  · intro h
    unfold hasAutoIncrementKey at h
    split at h
    · rename_i column hkey
      exact ⟨column, (mem_of_key? hkey).1, h⟩
    · cases h
  · rintro ⟨column, hc, ha⟩
    rw [hasAutoIncrementKey, (split_of_autoIncrement hsingle hkeys hc ha).1]
    exact ha

theorem of_pair_sublist {g : FieldDeclaration × Nat → Column} {a b : Column}
    (h : [a, b].Sublist ((storedFields d).map g)) :
    ∃ x y, x ∈ storedFields d ∧ y ∈ storedFields d ∧ g x = a ∧ g y = b ∧
    [x.1, y.1].Sublist d.kept := by
  obtain ⟨l, hl, hmap⟩ := List.sublist_map_iff.mp h
  obtain ⟨x, rest, rfl, hx, hrest⟩ := List.map_eq_cons_iff.mp hmap.symm
  obtain ⟨y, rest', rfl, hy, hrest'⟩ := List.map_eq_cons_iff.mp hrest
  obtain rfl := List.map_eq_nil_iff.mp hrest'
  refine ⟨x, y, hl.subset (by simp), hl.subset (by simp), hx, hy, ?_⟩
  rw [kept_eq]
  exact hl.map Prod.fst

/-- Columns that the stored fields give, one each. -/
def Gives (c : Conventions) (d : Declaration) (g : FieldDeclaration × Nat → Column) : Prop :=
  ∀ x ∈ storedFields d, column c d.table (declaresKey d) x.2 x.1 = .ok (g x)

theorem columns_spec (c : Conventions) (d : Declaration) :
    match (storedFields d).mapM fun x => column c d.table (declaresKey d) x.2 x.1 with
    | .ok columns => ∃ g, Gives c d g ∧ columns = (storedFields d).map g
    | .error fault => d.Breaks c fault := by
  cases hcolumns : (storedFields d).mapM fun x => column c d.table (declaresKey d) x.2 x.1 with
  | error fault =>
    obtain ⟨x, hx, hfault⟩ := error_of_mapM hcolumns
    have hbreaks := column_meets (c := c) (show (x.1, x.2) ∈ storedFields d from hx)
    rwa [hfault] at hbreaks
  | ok columns =>
    obtain ⟨hall, hmap⟩ := of_mapM hcolumns
    exact ⟨_, hall, hmap⟩

variable {g : FieldDeclaration × Nat → Column}

theorem Gives.meets (h : Gives c d g) {x : FieldDeclaration × Nat} (hx : x ∈ storedFields d) :
    (g x).Of c d x.1 ∧ (g x).field = x.2 ∧ x.1.type.dataType.isSupported = true ∧
      (d.IsAuto c x.1 → x.1.type.dataType ≠ .uuid →
        d.IsKey c x.1 ∧ x.1.type.dataType.isInteger = true) := by
  have hspec := column_meets (c := c) (show (x.1, x.2) ∈ storedFields d from hx)
  rwa [h x hx] at hspec

theorem Gives.pairwise_isKey_iff (h : Gives c d g) :
    ((storedFields d).map g).Pairwise (fun a b => ¬(a.isKey = true ∧ b.isKey = true)) ↔
      d.kept.Pairwise fun f g => ¬(d.IsKey c f ∧ d.IsKey c g) := by
  rw [kept_eq, List.pairwise_map, List.pairwise_map]
  refine List.Pairwise.iff_of_mem fun hx hy => ?_
  rw [(h.meets hx).1.key, (h.meets hy).1.key]

theorem Gives.wellFormed_of (h : Gives c d g)
    (hsingle : ((storedFields d).map g).Pairwise fun a b => ¬(a.isKey = true ∧ b.isKey = true))
    (hdistinct : ((storedFields d).map g).Pairwise fun a b => sameFolded a.name b.name = false) :
    d.WellFormed c ∧ Of c d ⟨d, (storedFields d).map g⟩ := by
  have hfield : ∀ f ∈ d.kept, ∃ x ∈ storedFields d, x.1 = f := by
    intro f hf
    rw [kept_eq] at hf
    exact List.mem_map.mp hf
  have hcolumn : ∀ column ∈ (storedFields d).map g, ∃ x ∈ storedFields d, column.Of c d x.1 := by
    intro column hc
    obtain ⟨x, hx, rfl⟩ := List.mem_map.mp hc
    exact ⟨x, hx, (h.meets hx).1⟩
  have hcounts : ∀ column ∈ (storedFields d).map g, column.autoIncrement = true →
      column.isKey = true := by
    intro column hc ha
    obtain ⟨x, hx, hof⟩ := hcolumn column hc
    obtain ⟨hauto, huuid⟩ := hof.increment.mp ha
    exact hof.key.mpr ((h.meets hx).2.2.2 hauto huuid).1
  refine ⟨⟨fun f hf => ?_, fun f hf => ?_, h.pairwise_isKey_iff.mp hsingle, ?_⟩,
    ⟨rfl, ?_, ?_, fun column hc hboth => ?_, hasAutoIncrementKey_iff hsingle hcounts,
      fun column hc ha => split_of_autoIncrement hsingle hcounts hc ha, fun hnone => ?_⟩⟩
  · obtain ⟨x, hx, rfl⟩ := hfield f hf
    exact (h.meets hx).2.2.1
  · obtain ⟨x, hx, rfl⟩ := hfield f hf
    exact (h.meets hx).2.2.2
  · rw [List.pairwise_map] at hdistinct
    rw [kept_eq, List.pairwise_map]
    refine hdistinct.imp_of_mem fun hx hy hxy => ?_
    rwa [(h.meets hx).1.name, (h.meets hy).1.name] at hxy
  · rw [kept_eq, List.forall₂_map_left_iff, List.forall₂_map_right_iff, List.forall₂_same]
    exact fun x hx => (h.meets hx).1
  · have hplaces : (storedFields d).Pairwise fun x y => x.2 < y.2 := by
      refine List.Pairwise.filter _ (List.pairwise_map.mp ?_)
      rw [List.zipIdx_map_snd]
      exact List.pairwise_lt_range'
    refine List.pairwise_map.mpr (hplaces.imp_of_mem fun hx hy hxy => ?_)
    rwa [(h.meets hx).2.1, (h.meets hy).2.1]
  · obtain ⟨x, hx, hof⟩ := hcolumn column hc
    exact (hof.increment.mp hboth.1).2 (hof.identifier.mp hboth.2).2
  · refine List.filter_eq_self.mpr fun column hc => ?_
    rw [Bool.not_eq_true', ← Bool.not_eq_true]
    intro ha
    have := (hasAutoIncrementKey_iff hsingle hcounts).mpr ⟨column, hc, ha⟩
    rw [hnone] at this
    cases this

/-- What a declaration may give: the mapping of a well-formed one, or a fault that names what it
breaks. -/
def Settles (c : Conventions) (d : Declaration) : Except SchemaFault Mapping → Prop
  | .ok m => d.WellFormed c ∧ m.Of c d
  | .error fault => d.Breaks c fault

theorem build_of_columns {c : Conventions} {d : Declaration} {columns : List Column}
    (h : (storedFields d).mapM (fun x => column c d.table (declaresKey d) x.2 x.1) = .ok columns) :
    build c d =
      if 1 < (columns.filter Column.isKey).length then .error (.manyKeys d.table)
      else
        match firstDuplicate [] columns with
        | some name => .error (.duplicateColumn d.table name)
        | none => .ok ⟨d, columns⟩ := by
  unfold build
  unfold declaresKey at h
  simp only [h]
  rfl

theorem build_spec (c : Conventions) (d : Declaration) : Settles c d (build c d) := by
  have hspec := columns_spec c d
  cases hcolumns : (storedFields d).mapM fun x => column c d.table (declaresKey d) x.2 x.1 with
  | error fault =>
    have hbuild : build c d = .error fault := by
      unfold build
      unfold declaresKey at hcolumns
      simp only [hcolumns]
      rfl
    rw [hcolumns] at hspec
    rwa [hbuild]
  | ok columns =>
    rw [build_of_columns hcolumns]
    rw [hcolumns] at hspec
    obtain ⟨g, hg, rfl⟩ := hspec
    by_cases hmany : 1 < (((storedFields d).map g).filter Column.isKey).length
    · rw [if_pos hmany]
      refine .manyKeys fun hsingle => ?_
      exact absurd (pairwise_isKey_iff.mp (hg.pairwise_isKey_iff.mpr hsingle))
        (Nat.not_le_of_lt hmany)
    · rw [if_neg hmany]
      cases hname : firstDuplicate [] ((storedFields d).map g) with
      | none =>
        exact hg.wellFormed_of (pairwise_isKey_iff.mpr (Nat.le_of_not_lt hmany))
          (of_firstDuplicate hname).2
      | some name =>
        rcases of_firstDuplicate_eq_some hname with ⟨-, -, -, n, hn, -⟩ | ⟨a, b, hab, rfl, hsame⟩
        · cases hn
        · obtain ⟨x, y, hx, hy, rfl, rfl, hxy⟩ := of_pair_sublist hab
          rw [(hg.meets hx).1.name, (hg.meets hy).1.name] at hsame
          rw [(hg.meets hy).1.name]
          exact .duplicateColumn x.1 y.1 hxy hsame

/-- Exactly the well-formed declarations give a mapping, and it is the one they describe; any other
is refused for something that it breaks. -/
theorem build_iff_wellFormed (c : Conventions) (d : Declaration) :
    ((∃ m, build c d = .ok m) ↔ d.WellFormed c) ∧
      ((∃ fault, build c d = .error fault ∧ d.Breaks c fault) ↔ ¬d.WellFormed c) ∧
      ∀ m, build c d = .ok m → m.Of c d := by
  have hspec := build_spec c d
  cases hbuild : build c d with
  | ok m =>
    rw [hbuild] at hspec
    refine ⟨iff_of_true ⟨m, rfl⟩ hspec.1, iff_of_false ?_ (not_not_intro hspec.1), fun m' hm => ?_⟩
    · rintro ⟨fault, hfault, -⟩
      cases hfault
    · cases hm
      exact hspec.2
  | error fault =>
    rw [hbuild] at hspec
    refine ⟨iff_of_false ?_ hspec.not_wellFormed, iff_of_true ⟨fault, rfl, hspec⟩ hspec.not_wellFormed,
      fun m hm => ?_⟩
    · rintro ⟨m, hm⟩
      cases hm
    · cases hm

end Mapping

end RecordMapper
