import RecordMapper.Proofs.Declarations

/-!
# What naming conventions add

A mapping built under some conventions is the one built under none, with what the declaration leaves
silent filled in.

1. `Column.fill` fills a column in; `column_fill`: it gives the column under the conventions from
   the one under none. The key is decided first, and an index, a null and a count depend on it.
2. `Column.FilledIn` says what may differ, and `Column.filledIn_fill` that nothing else does.
3. `Mapping.conventions_fill_in` says so of two mappings of one declaration, and of their keys.
-/

namespace RecordMapper

namespace Column

/-- The column with what some conventions add to it, where `declared` says whether a key is
declared. -/
def fill (c : Conventions) (declared : Bool) (plain : Column) : Column :=
  let isKey := plain.isKey || (!declared && c.implicitKey && sameFolded plain.property Conventions.keyName)
  { plain with
    isKey
    nullable := plain.nullable && !isKey
    autoIncrement := plain.autoIncrement || (isKey && c.autoIncrementKey && plain.dataType.isInteger)
    indices :=
      if plain.indices.isEmpty && !isKey && c.implicitIndex &&
        endsFolded plain.name Conventions.indexEnding
      then [{}]
      else plain.indices }

theorem fill_nullable (c : Conventions) (declared : Bool) (plain : Column) :
    (plain.fill c declared).nullable = (plain.nullable && !(plain.fill c declared).isKey) := rfl

theorem fill_autoIncrement (c : Conventions) (declared : Bool) (plain : Column) :
    (plain.fill c declared).autoIncrement =
      (plain.autoIncrement ||
        ((plain.fill c declared).isKey && c.autoIncrementKey && plain.dataType.isInteger)) := rfl

theorem fill_indices (c : Conventions) (declared : Bool) (plain : Column) :
    (plain.fill c declared).indices =
      if plain.indices.isEmpty && !(plain.fill c declared).isKey && c.implicitIndex &&
        endsFolded plain.name Conventions.indexEnding
      then [{}]
      else plain.indices := rfl

/-- What may differ between the column of a field without conventions and the one under some. -/
structure FilledIn (c : Conventions) (d : Declaration) (plain filled : Column) : Prop where
  field : filled.field = plain.field
  property : filled.property = plain.property
  name : filled.name = plain.name
  type : filled.type = plain.type
  collation : filled.collation = plain.collation
  maxLength : filled.maxLength = plain.maxLength
  identifier : filled.autoIdentifier = plain.autoIdentifier
  declared : (d.fields[plain.field]?).map FieldDeclaration.indices = some plain.indices
  key : filled.isKey = plain.isKey ∨
    (∀ f ∈ d.kept, .primaryKey ∉ f.constraints) ∧ c.implicitKey = true ∧
      plain.isKey = false ∧ filled.isKey = true ∧
      sameFolded plain.property Conventions.keyName = true
  indices : filled.indices = plain.indices ∨
    c.implicitIndex = true ∧ plain.indices = [] ∧ filled.indices = [{}] ∧
      plain.isKey = false ∧ filled.isKey = false ∧
      endsFolded plain.name Conventions.indexEnding = true
  nullable : filled.nullable = plain.nullable ∨ plain.isKey = false ∧ filled.isKey = true
  increment : filled.autoIncrement = plain.autoIncrement ∨
    c.autoIncrementKey = true ∧ filled.isKey = true ∧ plain.type.dataType.isInteger = true

end Column

namespace Mapping

variable {c : Conventions} {d : Declaration} {m m' : Mapping}

theorem keyField_silent (declared : Bool) (f : FieldDeclaration) :
    keyField .silent declared f = f.isPrimaryKey := by
  simp [keyField, Conventions.silent]

theorem autoField_silent (isKey : Bool) (f : FieldDeclaration) :
    autoField .silent isKey f = f.isAutoIncrement := by
  simp [autoField, Conventions.silent]

theorem indicesOf_silent (isKey : Bool) (f : FieldDeclaration) :
    indicesOf .silent isKey f = f.indices := by
  simp [indicesOf, Conventions.silent]

/-- The column of a field under some conventions is the one under none, filled in. -/
theorem column_fill {table : String} {declared : Bool} {place : Nat} {f : FieldDeclaration}
    {plain filled : Column} (hplain : column .silent table declared place f = .ok plain)
    (hfilled : column c table declared place f = .ok filled) : filled = plain.fill c declared := by
  obtain ⟨rfl, -⟩ := of_column hplain
  obtain ⟨rfl, -⟩ := of_column hfilled
  simp only [columnOf, countsUp, Column.fill, Column.dataType, keyField_silent, autoField_silent,
    indicesOf_silent]
  have hkey : keyField c declared f =
      (f.isPrimaryKey || (!declared && c.implicitKey && sameFolded f.property Conventions.keyName)) := rfl
  -- Only an integer key counts up by convention: what depends on the type being `uuid` is as
  -- declared.
  have huuid : f.type.dataType.isInteger = true → (f.type.dataType == .uuid) = false := by
    intro hinteger
    cases htype : f.type.dataType <;> first | rfl | (rw [htype] at hinteger; cases hinteger)
  rw [← hkey]
  congr 1
  · rw [hkey]
    cases f.isPrimaryKey <;> cases f.isNotNull <;> simp
  · unfold autoField
    cases hinteger : f.type.dataType.isInteger with
    | false => simp
    | true => simp [bne, huuid hinteger]
  · unfold autoField
    cases hinteger : f.type.dataType.isInteger with
    | false => simp
    | true => simp [huuid hinteger]

theorem columns_fill (h : build .silent d = .ok m) (h' : build c d = .ok m') :
    m'.columns = m.columns.map (Column.fill c (declaresKey d)) := by
  obtain ⟨-, hcolumns, -, -⟩ := of_build h
  obtain ⟨-, hcolumns', -, -⟩ := of_build h'
  obtain ⟨hall, hmap⟩ := of_mapM hcolumns
  obtain ⟨hall', hmap'⟩ := of_mapM hcolumns'
  rw [hmap, hmap', List.map_map]
  exact List.map_congr_left fun x hx => column_fill (hall x hx) (hall' x hx)

theorem silent_column {column : Column} (h : build .silent d = .ok m) (hc : column ∈ m.columns) :
    ∃ f, d.fields[column.field]? = some f ∧ column.indices = f.indices ∧
      column.nullable = !(column.isKey || f.isNotNull) := by
  obtain ⟨-, hcolumns, -, -⟩ := of_build h
  obtain ⟨hall, hmap⟩ := of_mapM hcolumns
  rw [hmap] at hc
  obtain ⟨x, hx, rfl⟩ := List.mem_map.mp hc
  have hplace : d.fields[x.2]? = some x.1 := by
    simpa using List.mk_mem_zipIdx_iff_getElem?.mp (List.mem_of_mem_filter hx)
  rw [(of_column (hall x hx)).1]
  exact ⟨x.1, hplace, indicesOf_silent _ _, rfl⟩

theorem isSome_key?_silent (h : build .silent d = .ok m) : m.key?.isSome = declaresKey d := by
  obtain ⟨-, hcolumns, -, -⟩ := of_build h
  obtain ⟨hall, hmap⟩ := of_mapM hcolumns
  rw [key?, hmap, List.find?_map, Option.isSome_map, List.isSome_find?, declaresKey,
    Bool.eq_iff_iff, List.any_eq_true, List.any_eq_true]
  refine exists_congr fun x => and_congr_right fun hx => ?_
  rw [Function.comp_apply, (of_column (hall x hx)).1]
  simp only [columnOf, keyField_silent]

end Mapping

namespace Column

variable {c : Conventions} {d : Declaration} {plain : Column}

theorem fill_key (plain : Column) (declared : Bool) : (plain.fill c declared).isKey = plain.isKey ∨
    declared = false ∧ c.implicitKey = true ∧ plain.isKey = false ∧
      (plain.fill c declared).isKey = true ∧
      sameFolded plain.property Conventions.keyName = true := by
  cases hkey : plain.isKey with
  | true => exact .inl (by simp [fill, hkey])
  | false =>
    by_cases hadded : (!declared && c.implicitKey && sameFolded plain.property Conventions.keyName) = true
    · have hboth := hadded
      simp only [Bool.and_eq_true, Bool.not_eq_true'] at hboth
      exact .inr ⟨hboth.1.1, hboth.1.2, rfl, by simp only [fill, hkey, hadded, Bool.or_true], hboth.2⟩
    · exact .inl (by simp only [fill, hkey, Bool.eq_false_of_not_eq_true hadded, Bool.or_false])

/-- A column is filled in with no more than it may differ in. -/
theorem filledIn_fill (hdeclared : (d.fields[plain.field]?).map FieldDeclaration.indices = some plain.indices)
    (hnullable : plain.isKey = true → plain.nullable = false) :
    FilledIn c d plain (plain.fill c (Mapping.declaresKey d)) where
  field := rfl
  property := rfl
  name := rfl
  type := rfl
  collation := rfl
  maxLength := rfl
  identifier := rfl
  declared := hdeclared
  key := (fill_key _ (Mapping.declaresKey d)).imp_right fun ⟨hnone, hkey⟩ =>
    ⟨Mapping.declaresKey_eq_false_iff.mp hnone, hkey⟩
  indices := by
    rw [fill_indices]
    split
    · rename_i hadded
      simp only [Bool.and_eq_true, Bool.not_eq_true', List.isEmpty_iff] at hadded
      obtain ⟨⟨⟨hnone, hkey⟩, himplicit⟩, hends⟩ := hadded
      exact .inr ⟨himplicit, hnone, rfl, (Bool.or_eq_false_iff.mp hkey).1, hkey, hends⟩
    · exact .inl rfl
  nullable := by
    obtain hkey | ⟨-, -, hplain, hkey, -⟩ := fill_key (c := c) plain (Mapping.declaresKey d)
    · refine .inl ?_
      rw [fill_nullable, hkey]
      cases hplain : plain.isKey with
      | false => exact Bool.and_true _
      | true => rw [hnullable hplain, Bool.false_and]
    · exact .inr ⟨hplain, hkey⟩
  increment := by
    rw [fill_autoIncrement]
    cases hadded : (plain.fill c (Mapping.declaresKey d)).isKey && c.autoIncrementKey &&
        plain.dataType.isInteger with
    | false => exact .inl (Bool.or_false _)
    | true =>
      simp only [Bool.and_eq_true] at hadded
      exact .inr ⟨hadded.1.2, hadded.1.1, hadded.2⟩

end Column

namespace Mapping

variable {c : Conventions} {d : Declaration} {m m' : Mapping}

/-- Conventions fill in what a declaration leaves silent. Column by column nothing else differs; a
key that is declared stays the key, and one that no field declares has the conventional name. -/
theorem conventions_fill_in (h : build .silent d = .ok m) (h' : build c d = .ok m') :
    List.Forall₂ (Column.FilledIn c d) m.columns m'.columns ∧
      ((∃ f ∈ d.kept, .primaryKey ∈ f.constraints) →
        ∃ key key', m.key? = some key ∧ m'.key? = some key' ∧ key.FilledIn c d key') ∧
      ((∀ f ∈ d.kept, .primaryKey ∉ f.constraints) →
        m.key? = none ∧ ∀ key', m'.key? = some key' →
          c.implicitKey = true ∧ sameFolded key'.property Conventions.keyName = true) := by
  have hfilled : ∀ column ∈ m.columns, column.FilledIn c d (column.fill c (declaresKey d)) := by
    intro column hc
    obtain ⟨f, hplace, hindices, hnullable⟩ := silent_column h hc
    refine Column.filledIn_fill (by rw [hplace, hindices]; rfl) fun hkey => ?_
    rw [hnullable, hkey]
    rfl
  have hcolumns := columns_fill h h'
  refine ⟨?_, fun hdeclares => ?_, fun hnone => ?_⟩
  · rw [hcolumns, List.forall₂_map_right_iff, List.forall₂_same]
    exact hfilled
  · have hdeclared : declaresKey d = true := by
      rw [← Bool.not_eq_false, declaresKey_eq_false_iff]
      exact fun hnone => hdeclares.elim fun f hf => hnone f hf.1 hf.2
    obtain ⟨key, hkey⟩ := Option.isSome_iff_exists.mp ((isSome_key?_silent h).trans hdeclared)
    refine ⟨key, _, hkey, ?_, hfilled key (mem_of_key? hkey).1⟩
    have hsame : Column.isKey ∘ Column.fill c (declaresKey d) = Column.isKey := by
      funext column
      simp [Column.fill, hdeclared]
    rw [key?, hcolumns, List.find?_map, hsame, ← key?, hkey]
    rfl
  · have hdeclared := declaresKey_eq_false_iff.mpr hnone
    have hplain : m.key? = none :=
      Option.isNone_iff_eq_none.mp (by rw [← Option.not_isSome, isSome_key?_silent h, hdeclared]; rfl)
    refine ⟨hplain, fun key' hkey' => ?_⟩
    obtain ⟨hmem, hisKey⟩ := mem_of_key? hkey'
    rw [hcolumns] at hmem
    obtain ⟨column, hc, rfl⟩ := List.mem_map.mp hmem
    obtain hkey | ⟨-, himplicit, -, -, hname⟩ := Column.fill_key (c := c) column (declaresKey d)
    · rw [hkey] at hisKey
      have hnot := List.find?_eq_none.mp hplain column hc
      exact absurd hisKey hnot
    · exact ⟨himplicit, hname⟩

/-- A declaration on which the conventions meet: the declared key is ignored, so a column that would
be indexed for its name becomes the key, while one that is indexed already stays as it is. -/
def entries : Declaration :=
  ⟨"Entry", "Entry", false,
    [⟨"Old", none, ⟨.plain .int64, false⟩, [.primaryKey, .ignore], .int 0⟩,
      ⟨"id", some "EntryId", ⟨.plain .int32, true⟩, [], .null⟩,
      ⟨"Owner", some "OwnerID", ⟨.plain .text, false⟩, [.collate "nocase"], .text ""⟩,
      ⟨"Code", some "CodeId", ⟨.plain .text, false⟩, [.indexed ⟨some "IX_Code", 0, true⟩],
        .text ""⟩], []⟩

def plainEntries : Mapping :=
  ⟨entries,
    [⟨"id", "EntryId", ⟨.plain .int32, true⟩, true, none, none, false, false, false, [], 1⟩,
      ⟨"Owner", "OwnerID", ⟨.plain .text, false⟩, true, some "nocase", none, false, false,
        false, [], 2⟩,
      ⟨"Code", "CodeId", ⟨.plain .text, false⟩, true, none, none, false, false, false,
        [⟨some "IX_Code", 0, true⟩], 3⟩]⟩

def filledEntries : Mapping :=
  ⟨entries,
    [⟨"id", "EntryId", ⟨.plain .int32, true⟩, false, none, none, true, true, false, [], 1⟩,
      ⟨"Owner", "OwnerID", ⟨.plain .text, false⟩, true, some "nocase", none, false, false,
        false, [{}], 2⟩,
      ⟨"Code", "CodeId", ⟨.plain .text, false⟩, true, none, none, false, false, false,
        [⟨some "IX_Code", 0, true⟩], 3⟩]⟩

theorem conventions_fill_in_entries :
    build .silent entries = .ok plainEntries ∧ build .all entries = .ok filledEntries ∧
      List.Forall₂ (Column.FilledIn .all entries) plainEntries.columns filledEntries.columns ∧
      plainEntries.key? = none := by
  have hplain : build .silent entries = .ok plainEntries := by decide +kernel
  have hfilled : build .all entries = .ok filledEntries := by decide +kernel
  obtain ⟨hcolumns, -, hkey⟩ := conventions_fill_in hplain hfilled
  exact ⟨hplain, hfilled, hcolumns, (hkey (by decide)).1⟩

end Mapping
end RecordMapper
