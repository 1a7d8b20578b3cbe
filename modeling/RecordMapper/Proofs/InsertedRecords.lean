import RecordMapper.Proofs.ConsistentTables
import RecordMapper.Proofs.Lookups
import RecordMapper.Proofs.StoredRecords

/-!
# Records that were inserted

A record that was inserted is found by its key.

1. `Database.PutsRecord.filter_shows`: of the rows beside a new one, none has its key.
2. `Database.PutsRecord.materialize_eq`: the row of a record is read as the record.
3. `Session.find_insertWith`: what a lookup gives after an insert.
4. `Session.consistent_insertWith`: an insert keeps the rows to the constraints of their table.
-/

namespace RecordMapper

/-! ## The only row of a key -/

namespace Database

variable {d d' : Database} {t : Table} {row r : Row} {kept : List Row} {m : Mapping} {ticks : Bool}
  {key : Column} {i : Nat} {imode : InsertMode} {bound record : Record}

/-- What a column shows of a row is as the column stores it. -/
theorem Serves.settled_cell (h : d.Serves m ticks t) (hm : m.Placed) (hkey : m.key? = some key)
    {c : StoredColumn} (hc : t.columns[i]? = some c) (hcells : t.Settles r.cells)
    (hid : t.withoutRowid = false → FitsInt64 r.id) : (t.cell i r).Settled c.affinity := by
  unfold Table.cell
  by_cases hi : t.rowidColumn = some i
  · rw [if_pos hi]
    exact h.settled_number hm hkey hi hc hid
  · rw [if_neg hi]
    exact hcells i c hc

/-- Rows that show the same key have the same number, or an index keeps them apart. -/
theorem Serves.clash_of_same (h : d.Serves m ticks t) (hm : m.Placed) (hkey : m.key? = some key)
    (hi : m.columns[i]? = some key) {a b : Row} (ha : t.withoutRowid = false → FitsInt64 a.id)
    (hb : t.withoutRowid = false → FitsInt64 b.id) (hnull : t.cell i a ≠ .null)
    (hsame : Cell.same (t.collationAt i) (t.cell i a) (t.cell i b) = true) :
    t.withoutRowid = false ∧ a.id = b.id ∨ ∃ ix ∈ d.indicesOf t.name,
    ix.clash a.cells b.cells = true := by
  cases h.key i (hm.place_key hkey hi) with
  | number hrowid hw =>
    unfold Table.cell at hsame
    rw [if_pos hrowid, if_pos hrowid, Cell.ofInt_of_fits (ha hw), Cell.ofInt_of_fits (hb hw)] at hsame
    have hequal := congrArg Int64.toInt (Cell.same_integer _ hsame)
    rw [toInt_of_int64? (if_pos (ha hw)), toInt_of_int64? (if_pos (hb hw))] at hequal
    exact .inl ⟨hw, hequal⟩
  | @index ix hrowid _ hix htable hunique hterms =>
    have hmember : ix ∈ d.indicesOf t.name :=
      List.mem_filter.mpr ⟨hix, by rw [htable]; exact sameFolded_refl _⟩
    have hcell : ∀ x : Row, t.cell i x = x.cells[i]?.getD .null := fun x => by
      unfold Table.cell
      rw [hrowid, if_neg nofun]
    have hpresent : (a.cells[i]?.getD .null).isNull = false := by
      rw [← hcell]
      exact Bool.eq_false_iff.mpr fun hn => hnull (Cell.isNull_iff.mp hn)
    rw [hcell, hcell] at hsame
    refine .inr ⟨ix, hmember, ?_⟩
    unfold Index.clash Index.key
    rw [hunique, hterms]
    simp only [List.map_cons, List.map_nil, List.zip_cons_cons, List.zip_nil_left, List.all_cons,
      List.all_nil, Option.map_some, Option.getD_some, hpresent, hsame, Bool.not_false,
      Bool.and_true]

theorem PutsRecord.shows_kept (h : PutsRecord d t m ticks imode key bound record row kept d')
    (hm : m.Placed) (hkey : m.key? = some key) (ht : t.Stored) (hi : m.columns[i]? = some key)
    (hr : r ∈ kept) (hnull : t.cell i row ≠ .null) : t.shows i (t.cell i row) r = false := by
  obtain ⟨s, hs, -⟩ := h.serves.mirrors.column hi
  have hsettles := h.settles hm hkey ht
  obtain ⟨values, draft, -, hdraft, hputs⟩ := h.put
  have hfits := hputs.fits hdraft ht
  have hmem := hputs.subset r hr
  have hids : t.withoutRowid = false → FitsInt64 r.id := fun hw => ht.ids hw r hmem
  have hrow := h.serves.settled_cell hm hkey hs hsettles hfits
  have hother := h.serves.settled_cell hm hkey hs (ht.cells r hmem) hids
  obtain ⟨hnumber, hclash⟩ := hputs.apart r hr
  rw [← Bool.not_eq_true, Table.shows_iff hs hrow hother hnull]
  rintro ⟨-, hsame⟩
  rw [Cell.same_comm] at hsame
  rcases h.serves.clash_of_same hm hkey hi hfits hids hnull hsame with ⟨hw, hid⟩ | ⟨ix,
    hix, hclashes⟩
  · exact hnumber hw hid.symm
  · rw [hclash ix hix] at hclashes
    cases hclashes

/-- Of the rows with a new one, just the new one has its key. -/
theorem PutsRecord.filter_shows (h : PutsRecord d t m ticks imode key bound record row kept d')
    (hm : m.Placed) (hkey : m.key? = some key) (ht : t.Stored) (hi : m.columns[i]? = some key)
    (hnull : t.cell i row ≠ .null) :
    ((Table.place row kept).filter (t.shows i (t.cell i row))).Perm [row] := by
  obtain ⟨s, hs, -⟩ := h.serves.mirrors.column hi
  have hself : t.shows i (t.cell i row) row = true := by
    have hsettles := h.settles hm hkey ht
    obtain ⟨values, draft, -, hdraft, hputs⟩ := h.put
    have hrow := h.serves.settled_cell hm hkey hs hsettles (hputs.fits hdraft ht)
    exact (Table.shows_iff hs hrow hrow hnull).mpr ⟨hnull, Cell.same_self _ _⟩
  have hothers : kept.filter (t.shows i (t.cell i row)) = [] :=
    List.filter_eq_nil_iff.mpr fun r hr =>
      Bool.eq_false_iff.mp (h.shows_kept hm hkey ht hi hr hnull)
  have hperm := (Table.perm_place row kept).filter (t.shows i (t.cell i row))
  rwa [List.filter_cons_of_pos hself, hothers] at hperm

end Database

/-! ## The record of a row -/

theorem Table.Mirrors.names {t : Table} {cs : List Column} {ticks : Bool} (h : t.Mirrors cs ticks) :
    t.names = cs.map Column.name := by
  refine List.ext_getElem? fun i => ?_
  unfold Table.names
  rw [List.getElem?_map, List.getElem?_map]
  cases hc : cs[i]? with
  | some c =>
    obtain ⟨s, hs, hserves⟩ := h.column hc
    rw [hs, Option.map_some, Option.map_some, hserves.name]
  | none =>
    rw [List.getElem?_eq_none_iff] at hc
    rw [List.getElem?_eq_none_iff.mpr (h.length ▸ hc)]
    rfl

namespace Database

variable {d d' : Database} {t : Table} {row : Row} {kept : List Row} {m : Mapping} {ticks : Bool}
  {key : Column} {imode : InsertMode} {bound record : Record}

/-- The table of a new row has its other columns and indices as before. -/
theorem Puts.table? {mode : Sql.Conflict} {draft : Draft} (h : d.Puts t mode draft row kept d')
    {name : String} (ht : d.table? name = some t) :
    d'.table? name = some { t with rows := Table.place row kept } := by
  obtain ⟨sequences, rfl⟩ := h.left
  have hset := table?_setTable (u := { t with rows := Table.place row kept }) ht rfl name
  rw [if_pos (sameFolded_refl name)] at hset
  exact hset

/-- The row of a record keeps the rows to the constraints. -/
theorem PutsRecord.consistent (h : PutsRecord d t m ticks imode key bound record row kept d')
    (hd : d.Consistent t) : d'.Consistent { t with rows := Table.place row kept } := by
  obtain ⟨values, draft, -, hdraft, hputs⟩ := h.put
  refine hputs.consistent hdraft hd ?_
  rw [hputs.cells_eq h.serves.fallback]
  cases t.rowidColumn with
  | none => exact hdraft.length
  | some i => exact (List.length_set ..).trans hdraft.length

/-- The row of a record is read as the record, with what storing leaves of its contents. -/
theorem PutsRecord.materialize_eq (h : PutsRecord d t m ticks imode key bound record row kept d')
    (hs : m.Sound) (hm : m.Placed) (hkey : m.key? = some key) (ht : t.Stored)
    (hholds : ∀ c ∈ m.columns, c.type.Holds ticks (record.content c)) :
    Session.materialize m t.names (t.read row) =
      .ok (m.record.blank.fillAll m.columns fun c => (record.content c).stored ticks) := by
  rw [h.serves.mirrors.names]
  refine hs.materialize_eq fun {i c} hc => ?_
  have hi : i < t.columns.length := by
    rw [h.serves.mirrors.length]
    exact (List.getElem?_eq_some_iff.mp hc).1
  refine ⟨t.cell i row, ?_, ?_⟩
  · unfold Table.read
    rw [List.getElem?_map, List.getElem?_zipIdx, List.getElem?_eq_getElem hi, Option.map_some,
      Option.map_some, Nat.zero_add]
  · exact FieldType.restores (hholds c (List.mem_of_getElem? hc)) (h.displays hs hm hkey ht hc)

end Database

namespace Session

variable {alone : Bool} {s t : Session} {table : Table} {m : Mapping} {key : Column}
  {mode : InsertMode} {record : Record} {row : Row} {kept : List Row}

theorem Puts.views (h : Puts s table m mode key record row kept t) :
    ∃ link, t.Views link m { table with rows := Table.place row kept } := by
  obtain ⟨bound, hputs⟩ := h.rows
  obtain ⟨link, hlink, hreadable⟩ := h.reads
  obtain ⟨values, draft, -, -, hput⟩ := hputs.put
  have htable := hput.table? hputs.serves.table
  rw [nesting_of_link hlink] at htable
  exact ⟨link, hlink, hreadable, Database.readable?_of_table? htable, h.mapped⟩

theorem Puts.find_eq (h : Puts s table m mode key record row kept t) (hs : m.Sound)
    (hm : m.Placed) (hkey : m.key? = some key) (hz : NoZero m.table ∧ NoZero key.name)
    (hd : s.nesting.rows.Sound) :
    (find m.record (record.content key) t).1 = .ok (some (m.record.blank.fillAll m.columns fun c =>
      (record.content c).stored s.connection.settings.ticks)) := by
  obtain ⟨link, hviews⟩ := h.views
  obtain ⟨bound, hputs⟩ := h.rows
  have hstored := hd.stored table (List.mem_of_find?_eq_some hputs.serves.table)
  have hmem := (Mapping.mem_of_key? hkey).1
  obtain ⟨i, hi⟩ := List.getElem?_of_mem hmem
  have hcell := hputs.displays hs hm hkey hstored hi
  have hnull : table.cell i row ≠ .null := fun hn =>
    hputs.keyed (Value.eq_null_of_toCell (hcell.trans (by rw [hn])))
  have hplace : ({ table with rows := Table.place row kept } : Table).columnPlace? key.name =
      some i :=
    (hputs.serves.mirrors.columnPlace?_iff hs hmem hi).mpr rfl
  rw [← h.settings] at hcell
  obtain ⟨sorted, hperm, hfind⟩ := hviews.lookup_apply hkey hz hplace hcell
    ((h.conforms.holds key hmem).carries.bound hcell)
  have hone : sorted = [row] := List.perm_singleton.mp
    (hperm.trans (hputs.filter_shows hm hkey hstored hi hnull))
  have hrecord := hputs.materialize_eq hs hm hkey hstored h.conforms.holds
  rw [hfind, hone, List.mapM_cons]
  show ((materialize m table.names (table.read row)).bind fun r => _).map List.head? = _
  rw [hrecord]
  rfl

/-- A table that a creation made for a mapping, and that is still there with whatever rows. -/
inductive CreatedFor (s : Session) (d : Declaration) (m : Mapping) (table : Table) : Prop
  | intro {alone : Bool} {conventions : Conventions} {before after : Session} {made : Table}
      (usable : before.Usable alone) (current : before.Current)
      (mapping : (mappingWith conventions d before).1 = .ok m)
      (free : before.nesting.rows.table? m.table = none)
      (created : createTableWith conventions d before = (.ok .created, after))
      (there : after.nesting.rows.table? m.table = some made)
      (retained : after.nesting.rows.Retains s.nesting.rows made table)
      (ticks : s.connection.settings.ticks = before.connection.settings.ticks)

theorem CreatedFor.serves {d : Declaration} (h : s.CreatedFor d m table)
    (hc : ∀ c ∈ m.columns, c.Declarable) (hne : m.columns ≠ []) :
    s.nesting.rows.Serves m s.connection.settings.ticks table := by
  obtain ⟨hs, hcurrent, hm, hfree, hcreated, htable, hretained, hticks⟩ := h
  obtain ⟨table', hserves⟩ := exists_serves_of_created hs hcurrent hm hc hne hfree hcreated
  obtain rfl := Option.some.inj (hserves.table.symm.trans htable)
  rw [hticks]
  exact hserves.retained hretained

/-- The names in the statement that made a table were read to their ends. -/
theorem CreatedFor.noZero {d : Declaration} (h : s.CreatedFor d m table)
    (hc : ∀ c ∈ m.columns, c.Declarable) (hne : m.columns ≠ []) :
    NoZero m.table ∧ ∀ c ∈ m.columns, NoZero c.name := by
  obtain ⟨hs, hcurrent, hm, -, hcreated, -⟩ := h
  obtain ⟨text, e, htext, he, -⟩ := executed_of_created hs hcurrent hm hcreated
  obtain ⟨_, _, hread⟩ := Database.read_of_redefine? he
  obtain ⟨_, _, _, _, -, hreads⟩ := Mapping.readsAs_createStatement hc hne htext
  exact Mapping.noZero_createStatement htext (hreads.of_ok hread).1

/-- A mapping that is kept is sound, and a table that was created for it serves it. -/
theorem CreatedFor.served {types : RecordTypes} {requests : List Request} {name : String}
    (hcreated : s.CreatedFor (types.describe name) m table)
    (hmemory : s.memory.Agrees types requests) (hm : (mapping (types.describe name) s).1 = .ok m)
    (hcollations : ∀ c ∈ m.columns, ∀ collation, c.collation = some collation →
      (Collation.named? collation).isSome = true) (hkey : m.key? = some key) :
    m.Sound ∧ m.Placed ∧ m.record = types.describe name ∧
      s.nesting.rows.Serves m s.connection.settings.ticks table ∧ NoZero m.table ∧
      ∀ c ∈ m.columns, NoZero c.name := by
  have hdecided := (Call.requested_iff hmemory s.connection.settings.conventions name m).mp hm
  obtain ⟨-, hsound⟩ := RecordTypes.of_decided? hdecided
  obtain ⟨_, hbuild⟩ := RecordTypes.built_of_decided? hdecided
  have hdeclarable : ∀ c ∈ m.columns, c.Declarable :=
    fun c hc => ⟨hsound.counts c hc, hcollations c hc⟩
  have hne : m.columns ≠ [] := List.ne_nil_of_mem (Mapping.mem_of_key? hkey).1
  exact ⟨hsound, Mapping.placed_of_build hbuild, Mapping.record_of_build hbuild,
    hcreated.serves hdeclarable hne, hcreated.noZero hdeclarable hne⟩

/-- **What was inserted is found by its key.** A table was created for a mapping with a key, whose
collations the engine knows, and it is still there with whatever rows. An insert of a record whose
fields hold its contents comes to its end, in either mode. If the key that the record has then is
not null, a lookup by it gives a record that has, for each mapped field, what storing leaves of the
record's content, and what a fresh record holds in the other fields. The insert has changed at most
the key of the record, and a plain insert has kept every row. -/
theorem find_insertWith {types : RecordTypes} {requests : List Request} {name : String}
    {r r' : Record} {n : Int} {k : Value} (hs : s.Usable alone) (hc : s.Current)
    (hd : s.nesting.rows.Sound) (hmemory : s.memory.Agrees types requests)
    (hm : (mapping (types.describe name) s).1 = .ok m)
    (hcreated : s.CreatedFor (types.describe name) m table)
    (hcollations : ∀ c ∈ m.columns, ∀ collation, c.collation = some collation →
      (Collation.named? collation).isSome = true)
    (hkey : m.key? = some key) (hr : r.Conforms m s.connection.settings.ticks)
    (h : insertWith (types.describe name) mode (s, r) = (.ok n, t, r'))
    (hk : m.valueOf key r' = .ok k) (hnull : k ≠ .null) :
    ∃ found u, find (types.describe name) k t = (.ok (some found), u) ∧ found.typeName = name ∧
      (∀ c ∈ m.columns, found.content c = (r'.content c).stored s.connection.settings.ticks) ∧
      (∀ i, (∀ c ∈ m.columns, c.field ≠ i) →
        found.contents[i]? = (types.describe name).blank.contents[i]?) ∧
      r' = r.fill key k ∧
      (mode = .plain → ∃ after, t.nesting.rows.table? m.table = some after ∧
        ∀ row ∈ table.rows, row ∈ after.rows) ∧
      t.nesting.rows.Sound := by
  obtain ⟨hsound, hplaced, hrecord, hserves, htable, hnames⟩ :=
    hcreated.served hmemory hm hcollations hkey
  have hcontent : k = r'.content key := by
    unfold Mapping.valueOf at hk
    split at hk
    · exact (Except.ok.inj hk).symm
    · cases hk
  subst hcontent
  obtain ⟨row, kept, hputs, hfill⟩ := puts_insertWith hs hc hd hmemory hm hserves hkey hr h hnull
  have hfind := hputs.find_eq hsound hplaced hkey ⟨htable, hnames key (Mapping.mem_of_key? hkey).1⟩ hd
  rw [hrecord] at hfind
  obtain ⟨bound, hrows⟩ := hputs.rows
  refine ⟨_, _, Prod.ext hfind rfl, ?_, fun c hc => ?_, fun i hi => ?_, hfill, fun hplain => ?_,
    hrows.sound hplaced hkey hd⟩
  · rw [Record.typeName_fillAll]
    exact types.named name
  · exact Record.content_fillAll hplaced.fields (fun c hc => hrecord ▸ hplaced.within_blank hc) hc
  · exact Record.getElem?_fillAll hi
  · obtain ⟨_, _, -, -, hput⟩ := hrows.put
    refine ⟨_, hput.table? hserves.table, fun x hx => ?_⟩
    rw [← hput.whole (by rw [hplain]; nofun)] at hx
    exact Table.mem_place.mpr (.inr hx)

/-- An insert keeps the rows to the constraints of their table. -/
theorem consistent_insertWith {types : RecordTypes} {requests : List Request} {name : String}
    {r r' : Record} {n : Int} (hs : s.Usable alone) (hc : s.Current) (hd : s.nesting.rows.Sound)
    (hmemory : s.memory.Agrees types requests) (hm : (mapping (types.describe name) s).1 = .ok m)
    (hcreated : s.CreatedFor (types.describe name) m table)
    (hcollations : ∀ c ∈ m.columns, ∀ collation, c.collation = some collation →
      (Collation.named? collation).isSome = true)
    (hkey : m.key? = some key) (hr : r.Conforms m s.connection.settings.ticks)
    (hconsistent : s.nesting.rows.Consistent table)
    (h : insertWith (types.describe name) mode (s, r) = (.ok n, t, r'))
    (hnull : r'.content key ≠ .null) :
    ∃ after, t.nesting.rows.table? m.table = some after ∧ t.nesting.rows.Consistent after := by
  obtain ⟨-, -, -, hserves, -⟩ := hcreated.served hmemory hm hcollations hkey
  obtain ⟨row, kept, hputs, -⟩ := puts_insertWith hs hc hd hmemory hm hserves hkey hr h hnull
  obtain ⟨bound, hrows⟩ := hputs.rows
  obtain ⟨_, _, -, -, hput⟩ := hrows.put
  exact ⟨_, hput.table? hserves.table, hrows.consistent hconsistent⟩

/-! ### Tables on an empty database -/

section Opened

variable {types : RecordTypes} {name : String}

/-- The creation of the table of a record type on an empty database. -/
def opened (types : RecordTypes) (name : String) : Except Error Creation × Session :=
  createTableWith .silent (types.describe name) fresh

/-- A session outside of a transaction that has one table, which was created for a record type on an
empty database. -/
structure Opened (types : RecordTypes) (name : String) (m : Mapping) (table : Table)
    (s : Session) : Prop where
  usable : s.Usable true
  current : s.Current
  idle : s.nesting.opening = none
  ticks : s.connection.settings.ticks = true
  agrees : s.memory.Agrees types [⟨.silent, name⟩]
  mapped : (mapping (types.describe name) s).1 = .ok m
  created : s.CreatedFor (types.describe name) m table
  tables : s.nesting.rows.tables = [table]

theorem Opened.sound (h : Opened types name m table s) (ht : table.Stored) :
    s.nesting.rows.Sound where
  apart := by
    rw [h.tables]
    exact List.pairwise_singleton _ _
  stored u hu := by
    rw [h.tables] at hu
    rw [List.mem_singleton.mp hu]
    exact ht

theorem exists_opened (hbuild : Mapping.build .silent (types.describe name) = .ok m)
    (hcreated : (opened types name).1.toOption = some .created)
    (htables : ((opened types name).2.nesting.rows.tables.map fun t => (t.name, t.rows.isEmpty)) =
      [(m.table, true)]) :
    ∃ table, Opened types name m table (opened types name).2 ∧ table.rows = [] := by
  have hblank : fresh.memory.Agrees types [] := .blank _
  have hdecided : types.decided? ([] ++ [⟨.silent, name⟩]) name = some m := by
    have hbuild : types.build ⟨.silent, name⟩ = .ok m := hbuild
    rw [RecordTypes.decided?_concat, if_pos rfl, hbuild]
    rfl
  have hmapping := (Call.requested_iff hblank .silent name _).mpr hdecided
  have hagrees := Call.agrees_run hblank (.createTableWith .silent name)
  have hcreates := creates_createTableWith usable_fresh current_fresh .silent (types.describe name)
  have hended : createTableWith .silent (types.describe name) fresh =
      (.ok .created, (opened types name).2) := ends_of_toOption hcreated
  obtain ⟨table, htable, hname, hrows⟩ : ∃ table,
    (opened types name).2.nesting.rows.tables = [table] ∧
      table.name = m.table ∧ table.rows = [] := by
    obtain ⟨table, htable, hfields⟩ := List.map_eq_singleton_iff.mp htables
    obtain ⟨hname, hempty⟩ := Prod.mk.inj hfields
    exact ⟨table, htable, hname, List.isEmpty_iff.mp hempty⟩
  have hthere : (opened types name).2.nesting.rows.table? m.table = some table := by
    unfold Database.table?
    rw [htable, List.find?_singleton, hname, sameFolded_refl]
    rfl
  rw [hended] at hcreates
  generalize hresult : Creation.created = creation at hcreates
  cases hcreates with
  | done hstays hcurrent _ _ _ hsettings =>
    refine ⟨table, ⟨hstays.usable, hcurrent, hstays.opening, congrArg Settings.ticks hsettings, hagrees, ?_, ?_,
      htable⟩, hrows⟩
    · refine (Call.requested_iff hagrees _ name _).mpr ?_
      rw [RecordTypes.decided?_concat]
      show Option.or (types.decided? ([] ++ [⟨.silent, name⟩]) name) _ = _
      rw [hdecided]
      rfl
    · exact .intro usable_fresh current_fresh hmapping rfl hended hthere
        ⟨hname.symm ▸ hthere, rfl, fun _ h _ => h⟩ (congrArg Settings.ticks hsettings)

end Opened

/-- Letters with a key that counts up, or else one that may be null, a time to wait, a draft that is
not stored and a field that is not declared. -/
def letters (counts : Bool) : RecordTypes where
  describe name := ⟨name, name, false,
    [⟨"Id", none, ⟨.plain .int32, !counts⟩, .primaryKey :: if counts then [.autoIncrement] else [], .int 0⟩,
      ⟨"Body", none, ⟨.plain .text, false⟩, [], .text ""⟩,
      ⟨"Wait", none, ⟨.plain .duration, true⟩, [], .null⟩,
      ⟨"Draft", none, ⟨.plain .text, false⟩, [.ignore], .text "untitled"⟩], [.bool true]⟩
  named _ := rfl

def letterKey (counts : Bool) : Column :=
  ⟨"Id", "Id", ⟨.plain .int32, !counts⟩, false, none, none, true, counts, false, [], 0⟩

def letterWait : Column :=
  ⟨"Wait", "Wait", ⟨.plain .duration, true⟩, true, none, none, false, false, false, [], 2⟩

def letterMapping (counts : Bool) : Mapping :=
  ⟨(letters counts).describe "Letter", [letterKey counts,
    ⟨"Body", "Body", ⟨.plain .text, false⟩, true, none, none, false, false, false, [], 1⟩,
    letterWait]⟩

theorem build_letterMapping : ∀ counts,
    Mapping.build .silent ((letters counts).describe "Letter") = .ok (letterMapping counts) := by
  decide +kernel

def lettered (counts : Bool) : Except Error Creation × Session :=
  createTableWith .silent ((letters counts).describe "Letter") fresh

theorem lettered_created : ∀ counts, (lettered counts).1.toOption = some .created ∧
    ((lettered counts).2.nesting.rows.tables.map fun t => (t.name, t.rows.isEmpty)) =
      [("Letter", true)] := by
  decide +kernel

def aLetter (key : Value) : Record :=
  ⟨"Letter", [key, .text "a", .interval ⟨150⟩, .text "b", .bool false]⟩

theorem conforms_aLetter {counts : Bool} {key : Value}
    (h : (letterKey counts).type.Holds true key) :
    (aLetter key).Conforms (letterMapping counts) true where
  type := rfl
  whole := rfl
  holds c hc := by
    rcases List.mem_cons.mp hc with rfl | hc
    · exact h
    · rcases List.mem_cons.mp hc with rfl | hc
      · exact .inr (.text "a")
      · cases List.mem_singleton.mp hc
        exact .inr (.interval ⟨150⟩)

def posted (counts : Bool) (key : Value) : Except Error Int × Session × Record :=
  insertWith ((letters counts).describe "Letter") .plain ((lettered counts).2, aLetter key)

/-- What is known of the session in which the table of letters was created. -/
structure Lettered (counts : Bool) (table : Table) : Prop where
  usable : (lettered counts).2.Usable true
  current : (lettered counts).2.Current
  ticks : (lettered counts).2.connection.settings.ticks = true
  sound : (lettered counts).2.nesting.rows.Sound
  agrees : (lettered counts).2.memory.Agrees (letters counts) [⟨.silent, "Letter"⟩]
  mapped : (mapping ((letters counts).describe "Letter") (lettered counts).2).1 =
    .ok (letterMapping counts)
  created : (lettered counts).2.CreatedFor ((letters counts).describe "Letter")
    (letterMapping counts) table

theorem exists_lettered (counts : Bool) : ∃ table, Lettered counts table := by
  obtain ⟨hcreated, htables⟩ := lettered_created counts
  obtain ⟨table, h, hrows⟩ := exists_opened (build_letterMapping counts) hcreated htables
  have hstored : table.Stored := by
    refine ⟨fun r hr => ?_, fun _ r hr => ?_⟩ <;>
    · rw [hrows] at hr
      cases hr
  exact ⟨table, h.usable, h.current, h.ticks, h.sound hstored, h.agrees, h.mapped, h.created⟩

theorem posted_eq {counts : Bool} {key : Value} {r : Record}
    (hone : (posted counts key).1.toOption = some 1) (hrecord : (posted counts key).2.2 = r) :
    insertWith ((letters counts).describe "Letter") .plain ((lettered counts).2, aLetter key) =
      (.ok 1, (posted counts key).2.1, r) := by
  show posted counts key = _
  generalize posted counts key = x at hone hrecord ⊢
  exact Prod.ext (ok_of_toOption hone) (Prod.ext rfl hrecord)

theorem posted_counted : (posted true (.int 7)).1.toOption = some 1 ∧
    (posted true (.int 7)).2.2 = aLetter (.int 1) := by
  decide +kernel

theorem posted_open : (posted false .null).1.toOption = some 1 ∧
    (posted false .null).2.2 = aLetter .null ∧
    (find ((letters false).describe "Letter") .null (posted false .null).2.1).1.toOption =
      some none := by
  decide +kernel

/-- A letter with a key that counts up is found by the number that it got; its time to wait is cut
off to whole ticks, and its draft and what is not declared are those of a fresh letter. -/
theorem find_insertWith_posted : ∃ table found u, Lettered true table ∧
    insertWith ((letters true).describe "Letter") .plain ((lettered true).2, aLetter (.int 7)) =
      (.ok 1, (posted true (.int 7)).2.1, aLetter (.int 1)) ∧
    find ((letters true).describe "Letter") (.int 1) (posted true (.int 7)).2.1 =
      (.ok (some found), u) ∧
    found.content letterWait = .interval ⟨100⟩ ∧ found.contents[3]? = some (.text "untitled") ∧
    found.contents[4]? = some (.bool true) := by
  obtain ⟨table, h⟩ := exists_lettered true
  obtain ⟨hone, hrecord⟩ := posted_counted
  have hinsert := posted_eq hone hrecord
  have hcollations : ∀ c ∈ (letterMapping true).columns, ∀ collation, c.collation = some collation →
      (Collation.named? collation).isSome = true := by
    decide
  have hconforms : (aLetter (.int 7)).Conforms (letterMapping true)
      (lettered true).2.connection.settings.ticks := by
    rw [h.ticks]
    exact conforms_aLetter (.inr (.int rfl (by decide)))
  have hkey : (letterMapping true).key? = some (letterKey true) := rfl
  obtain ⟨found, u, hfind, -, hcontents, hblank, -⟩ :=
    find_insertWith h.usable h.current h.sound h.agrees
    h.mapped h.created hcollations hkey hconforms hinsert (k := .int 1) rfl nofun
  refine ⟨table, found, u, h, hinsert, hfind, ?_, ?_, ?_⟩
  · rw [hcontents letterWait (by decide), h.ticks]
    rfl
  · rw [hblank 3 (by decide)]
    rfl
  · rw [hblank 4 (by decide)]
    rfl

/-- What was inserted is not always found by its key: a key that may be null and does not count up
stays null, and null is not equal to null. -/
theorem not_always_find_insertWith : ¬ ∀ {types : RecordTypes} {requests : List Request}
    {name : String} {m : Mapping} {key : Column} {s t : Session} {table : Table} {mode : InsertMode}
    {r r' : Record} {n : Int} {k : Value}, s.Usable true → s.Current → s.nesting.rows.Sound →
    s.memory.Agrees types requests →
    (mapping (types.describe name) s).1 = .ok m → s.CreatedFor (types.describe name) m table →
    m.key? = some key → r.Conforms m s.connection.settings.ticks →
    insertWith (types.describe name) mode (s, r) = (.ok n, t, r') → m.valueOf key r' = .ok k →
    ∃ found u, find (types.describe name) k t = (.ok (some found), u) := by
  intro hall
  obtain ⟨table, h⟩ := exists_lettered false
  obtain ⟨hone, hrecord, hnone⟩ := posted_open
  have hconforms : (aLetter .null).Conforms (letterMapping false)
      (lettered false).2.connection.settings.ticks := by
    rw [h.ticks]
    exact conforms_aLetter (.inl ⟨rfl, rfl⟩)
  have hinsert := posted_eq hone hrecord
  have hkey : (letterMapping false).key? = some (letterKey false) := rfl
  obtain ⟨found, u, hfind⟩ :=
    hall h.usable h.current h.sound h.agrees h.mapped h.created hkey hconforms
    hinsert (k := .null) rfl
  rw [hfind] at hnone
  cases hnone

end Session

end RecordMapper
