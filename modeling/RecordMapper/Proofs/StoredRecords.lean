import RecordMapper.Proofs.FilledRecords
import RecordMapper.Proofs.InsertedRows
import RecordMapper.Proofs.KeyedTables

/-!
# Records that are stored

An insert of a record stores one row, whose cells are those of the contents.

1. `Table.Mirrors.given`: a column that is bound gets the cell of its content.
2. `Database.PutsRecord`: the row of a record stands in the table of its mapping. Every column shows
   the content that the record has after the insert.
3. `Session.puts_insertWith`: what an insert of a record leaves of a session.
-/

namespace RecordMapper

/-! ## Rows of records -/

namespace Table

variable {t : Table} {m : Mapping} {ticks : Bool} {b c : Column} {i : Nat}

/-- The columns of a mapping stand in the table at their places. -/
theorem Mirrors.columnPlace?_iff (h : t.Mirrors m.columns ticks) (hm : m.Sound) (hb : b ∈ m.columns)
    (hc : m.columns[i]? = some c) : t.columnPlace? b.name = some i ↔ b = c := by
  unfold columnPlace?
  rw [List.findIdx?_eq_some_iff_getElem]
  have hname : ∀ {j : Nat} (hj : j < t.columns.length), ∃ a, m.columns[j]? = some a ∧
      t.columns[j].name = a.name := fun {j} hj => by
    have hj' : j < m.columns.length := h.length ▸ hj
    obtain ⟨s, hs, hserves⟩ := h.column (List.getElem?_eq_getElem hj')
    rw [List.getElem?_eq_getElem hj] at hs
    cases hs
    exact ⟨_, List.getElem?_eq_getElem hj', hserves.name⟩
  constructor
  · rintro ⟨hi, hsame, -⟩
    obtain ⟨a, ha, hn⟩ := hname hi
    cases hc.symm.trans ha
    rw [hn, sameFolded_comm] at hsame
    exact hm.eq_of_sameFolded hb (List.mem_of_getElem? hc) hsame
  · rintro rfl
    have hi : i < m.columns.length := (List.getElem?_eq_some_iff.mp hc).1
    have hi' : i < t.columns.length := h.length ▸ hi
    obtain ⟨a, ha, hn⟩ := hname hi'
    cases hc.symm.trans ha
    refine ⟨hi', hn ▸ sameFolded_refl _, fun j hj hsame => ?_⟩
    obtain ⟨a, ha, hn⟩ := hname (hj.trans hi')
    rw [hn] at hsame
    have hlt := List.pairwise_iff_getElem.mp hm.distinct j i (hj.trans hi) hi hj
    rw [(List.getElem?_eq_some_iff.mp ha).2, (List.getElem?_eq_some_iff.mp hc).2, hsame] at hlt
    cases hlt

end Table

/-- A column that is bound gets the cell of its content, and no other gets one. -/
theorem Table.Mirrors.given {t : Table} {m : Mapping} {ticks : Bool} (h : t.Mirrors m.columns ticks)
    (hm : m.Sound) {P : Column → Cell → Prop} {bound : List Column} {values : List Cell}
    (hbound : ∀ b ∈ bound, b ∈ m.columns) (hvalues : List.Forall₂ P bound values)
    {i : Nat} {c : Column} (hc : m.columns[i]? = some c) :
    (c ∉ bound ∧ InsertPlan.given t (bound.map Column.name) values i = none) ∨
      ∃ x, P c x ∧ InsertPlan.given t (bound.map Column.name) values i = some x := by
  induction hvalues with
  | nil => exact .inl ⟨List.not_mem_nil, rfl⟩
  | @cons b x rest values hx hrest ih =>
    have hplace := h.columnPlace?_iff hm (hbound b List.mem_cons_self) hc
    unfold InsertPlan.given at ih ⊢
    rw [List.map_cons, List.map_cons, List.findIdx?_cons]
    by_cases hbc : b = c
    · subst hbc
      rw [hplace.mpr rfl, if_pos (beq_self_eq_true _)]
      exact .inr ⟨x, hx, rfl⟩
    · rw [if_neg (by rw [beq_iff_eq]; exact fun he => hbc (hplace.mp he))]
      rcases ih fun b hb => hbound b (List.mem_cons_of_mem _ hb) with ⟨hnot, hnone⟩ | ⟨y, hy, hsome⟩
      · refine .inl ⟨fun hmem => ?_, ?_⟩
        · rcases List.mem_cons.mp hmem with rfl | hmem
          · exact hbc rfl
          · exact hnot hmem
        · rw [Option.map_eq_none_iff] at hnone ⊢
          rw [hnone]
          rfl
      · refine .inr ⟨y, hy, ?_⟩
        rw [← hsome, Option.map_map]
        rfl

/-! ## The row of a record -/

theorem Cell.ofInt_of_fits {i : Int} (h : FitsInt64 i) :
    Cell.ofInt i = .integer (Int64.ofInt i) := by
  unfold Cell.ofInt int64?
  rw [if_pos h]

theorem Value.eq_null_of_toCell {v : Value} {ticks : Bool} (h : v.toCell ticks = .ok .null) :
    v = .null := by
  have hmap : ∀ x : Except TypeFault Int64, x.map Cell.integer ≠ .ok .null := by
    rintro (_ | i) hx <;> cases hx
  cases v with
  | null => rfl
  | timestamp t =>
    cases ticks with
    | true => exact absurd h (hmap _)
    | false => cases h
  | offsetTimestamp t => exact absurd h (hmap _)
  | interval d => exact absurd h (hmap _)
  | _ => cases h

theorem InsertPlan.fits_askedId {c : Cell} {id : Int} (h : askedId c = .ok (some id)) :
    FitsInt64 id := by
  unfold askedId at h
  split at h
  · cases h
  · split at h
    · cases h
      exact fitsInt64_toInt _
    · cases h

namespace Database

variable {d d' : Database} {t : Table} {mode : Sql.Conflict} {draft : Draft} {row : Row}
  {kept : List Row} {names : List String} {values : List Cell}

/-- The cells of a row are those of its draft, but for the row number. -/
theorem Puts.cells_eq (h : d.Puts t mode draft row kept d')
    (hf : ∀ c ∈ t.columns, c.fallback = none) :
    row.cells = match t.rowidColumn with
    | some i => draft.cells.set i (Cell.ofInt row.id)
    | none => draft.cells := by
  obtain ⟨cells, hcells, hrow⟩ := h.cells
  rw [← fillNulls_eq hf hcells]
  exact hrow

/-- What a new row has in a column that is not the row number. -/
theorem Puts.getElem? (h : d.Puts t mode draft row kept d')
    (hd : InsertPlan.Drafts t names values draft) (hf : ∀ c ∈ t.columns, c.fallback = none)
    {i : Nat} {c : StoredColumn} (hc : t.columns[i]? = some c) (hi : t.rowidColumn ≠ some i) :
    row.cells[i]? =
      some (((InsertPlan.given t names values i).getD .null).stored c.affinity) := by
  have hdraft := hd.cells hc
  rw [hf c (List.mem_of_getElem? hc)] at hdraft
  rw [h.cells_eq hf]
  cases hr : t.rowidColumn with
  | none => exact hdraft
  | some j =>
    have hne : j ≠ i := fun hji => hi (by rw [hr, hji])
    rw [List.getElem?_set_ne hne]
    exact hdraft

theorem Puts.fits (h : d.Puts t mode draft row kept d')
    (hd : InsertPlan.Drafts t names values draft) (ht : t.Stored) (hw : t.withoutRowid = false) :
    FitsInt64 row.id := by
  rcases h.id with hid | ⟨-, hid⟩
  · have hasked := hd.id hw
    unfold InsertPlan.wantedId at hasked
    split at hasked
    · rw [hid] at hasked
      exact InsertPlan.fits_askedId hasked
    · rw [hid] at hasked
      cases hasked
  · exact fitsInt64_nextId (ht.ids hw) hid

/-! ### What the columns show -/

variable {m : Mapping} {ticks : Bool} {key c : Column} {i : Nat}

/-- Nothing stands in for a missing cell of a mapping's table. -/
theorem Serves.fallback (h : d.Serves m ticks t) : ∀ s ∈ t.columns, s.fallback = none := by
  intro s hs
  obtain ⟨i, hi, rfl⟩ := List.mem_iff_getElem.mp hs
  have hi' : i < m.columns.length := h.mirrors.length ▸ hi
  obtain ⟨s, hs, hserves⟩ := h.mirrors.column (List.getElem?_eq_getElem hi')
  rw [List.getElem?_eq_getElem hi] at hs
  cases hs
  exact hserves.fallback

/-- What an insert of a record has put into its table: the row has the contents that are bound, and
the record has the number that the row got. -/
structure PutsRecord (d : Database) (t : Table) (m : Mapping) (ticks : Bool) (mode : InsertMode)
    (key : Column) (bound record : Record) (row : Row) (kept : List Row)
    (d' : Database) : Prop where
  serves : d.Serves m ticks t
  conforms : bound.Conforms m ticks
  put : ∃ values draft, List.Forall₂ (fun c x => (bound.content c).toCell ticks = .ok x)
      (m.boundColumns mode) values ∧
    InsertPlan.Drafts t ((m.boundColumns mode).map Column.name) values draft ∧
    d.Puts t mode.conflict draft row kept d'
  filled : record = bound.fill key (record.content key)
  counted : if key.autoIncrement then
      t.withoutRowid = false → record.content key = .int (Int64.ofInt row.id)
    else record = bound
  keyed : record.content key ≠ .null

variable {imode : InsertMode} {bound record : Record}

theorem bound_subset {b : Column} (hb : b ∈ m.boundColumns imode) : b ∈ m.columns := by
  cases imode with
  | plain => exact List.mem_of_mem_filter hb
  | replace => exact hb

/-- Only a key that counts up is not bound. -/
theorem mem_bound (hc : c ∈ m.columns) (ha : c.autoIncrement = false) :
    c ∈ m.boundColumns imode := by
  cases imode with
  | plain => exact List.mem_filter.mpr ⟨hc, by rw [ha]; rfl⟩
  | replace => exact hc

theorem PutsRecord.displays_number (h : PutsRecord d t m ticks imode key bound record row kept d')
    (hs : m.Sound) (hm : m.Placed) (ht : t.Stored) (hi : t.rowidColumn = some i)
    (hc : m.columns[i]? = some key) (hw : t.withoutRowid = false)
    (hinteger : key.storedType? ticks = some "integer") :
    (record.content key).toCell ticks = .ok (Cell.ofInt row.id) := by
  obtain ⟨values, draft, hvalues, hdraft, hputs⟩ := h.put
  have hfits := hputs.fits hdraft ht hw
  have hcounted := h.counted
  by_cases hauto : key.autoIncrement = true
  · rw [if_pos hauto] at hcounted
    rw [hcounted hw, Cell.ofInt_of_fits hfits]
    rfl
  · rw [if_neg hauto] at hcounted
    have hmem := List.mem_of_getElem? hc
    subst hcounted
    rcases h.serves.mirrors.given hs (fun b hb => bound_subset hb) hvalues hc with ⟨hnot,
      -⟩ | ⟨x, hx, hgiven⟩
    · exact absurd (mem_bound hmem (Bool.eq_false_of_not_eq_true hauto)) hnot
    · have hid := hdraft.id hw
      unfold InsertPlan.wantedId at hid
      rw [hi] at hid
      simp only [hgiven, Option.getD_some] at hid
      have hasked : ∀ j : Int64, InsertPlan.askedId (.integer j) = .ok (some j.toInt) :=
        fun _ => rfl
      rcases Column.null_or_integer (hm.counted _ hmem) (h.conforms.holds _ hmem).carries
        hx hinteger with
        rfl | ⟨j, rfl⟩
      · exact absurd (Value.eq_null_of_toCell hx) h.keyed
      · rw [hasked] at hid
        have hrow : row.id = j.toInt := by
          rcases hputs.id with hsome | ⟨hnone, -⟩
          · exact Option.some.inj (hsome.symm.trans (Except.ok.inj hid).symm)
          · rw [hnone] at hid
            cases hid
        rw [hx, hrow, Cell.ofInt_of_fits (fitsInt64_toInt j), Int64.ofInt_toInt]

theorem PutsRecord.displays_bound (h : PutsRecord d t m ticks imode key bound record row kept d')
    (hs : m.Sound) (hm : m.Placed) (hi : t.rowidColumn ≠ some i) (hc : m.columns[i]? = some c)
    (hb : c ∈ m.boundColumns imode) :
    ∃ x, (bound.content c).toCell ticks = .ok x ∧ row.cells[i]? = some x := by
  obtain ⟨values, draft, hvalues, hdraft, hputs⟩ := h.put
  rcases h.serves.mirrors.given hs (fun b hb => bound_subset hb) hvalues hc with ⟨hnot,
    -⟩ | ⟨x, hx, hgiven⟩
  · exact absurd hb hnot
  · obtain ⟨s, hcolumn, hserves⟩ := h.serves.mirrors.column hc
    obtain ⟨type, htype, -, haffinity⟩ := hserves.declared
    have hmem := List.mem_of_getElem? hc
    have hsettled := Column.settled (hm.counted _ hmem) (h.conforms.holds _ hmem).carries hx htype
    refine ⟨x, hx, ?_⟩
    rw [hputs.getElem? hdraft h.serves.fallback hcolumn hi, hgiven, haffinity]
    exact congrArg some hsettled

theorem Serves.of_rowidColumn (h : d.Serves m ticks t) (hm : m.Placed) (hkey : m.key? = some key)
    (hi : t.rowidColumn = some i) : m.columns[i]? = some key ∧ t.withoutRowid = false ∧
      key.storedType? ticks = some "integer" := by
  obtain ⟨j, hj⟩ := List.getElem?_of_mem (Mapping.mem_of_key? hkey).1
  cases h.key j (hm.place_key hkey hj) with
  | number hrowid hw hinteger =>
    obtain rfl : j = i := Option.some.inj (hrowid.symm.trans hi)
    exact ⟨hj, hw, hinteger key hj⟩
  | index hrowid =>
    rw [hi] at hrowid
    cases hrowid

/-- The number of a row is as its column stores it. -/
theorem Serves.settled_number (h : d.Serves m ticks t) (hm : m.Placed) (hkey : m.key? = some key)
    (hi : t.rowidColumn = some i) {c : StoredColumn} (hc : t.columns[i]? = some c) {id : Int}
    (hid : t.withoutRowid = false → FitsInt64 id) : (Cell.ofInt id).Settled c.affinity := by
  obtain ⟨hck, hw, hinteger⟩ := h.of_rowidColumn hm hkey hi
  obtain ⟨s, hs, hserves⟩ := h.mirrors.column hck
  obtain rfl := Option.some.inj (hc.symm.trans hs)
  obtain ⟨type, htype, -, haffinity⟩ := hserves.declared
  obtain rfl := Option.some.inj (hinteger.symm.trans htype)
  rw [haffinity, show Affinity.ofType "integer" = .integer by decide, Cell.ofInt_of_fits (hid hw)]
  rfl

theorem Serves.lt_of_rowidColumn (h : d.Serves m ticks t) (hm : m.Placed) (hkey : m.key? = some key)
    (hi : t.rowidColumn = some i) : i < t.columns.length := by
  rw [h.mirrors.length]
  exact (List.getElem?_eq_some_iff.mp (h.of_rowidColumn hm hkey hi).1).1

/-- The columns that an insert names are in the table. -/
theorem Serves.isSome_columnPlace? (h : d.Serves m ticks t) (hs : m.Sound) (imode : InsertMode) :
    ∀ name ∈ (m.boundColumns imode).map Column.name, (t.columnPlace? name).isSome := by
  intro name hname
  obtain ⟨b, hb, rfl⟩ := List.mem_map.mp hname
  have hb := bound_subset hb
  obtain ⟨i, hi⟩ := List.getElem?_of_mem hb
  rw [(h.mirrors.columnPlace?_iff hs hb hi).mpr rfl]
  rfl

/-- Every column of the table shows the content of the record. -/
theorem PutsRecord.displays (h : PutsRecord d t m ticks imode key bound record row kept d')
    (hs : m.Sound) (hm : m.Placed) (hkey : m.key? = some key) (ht : t.Stored)
    (hc : m.columns[i]? = some c) :
    (record.content c).toCell ticks = .ok (t.cell i row) := by
  have hmem := List.mem_of_getElem? hc
  have hplace : c = key → t.KeyedBy d.indices ticks m.columns i := fun hck =>
    h.serves.key i (hm.place_key hkey (hck ▸ hc))
  unfold Table.cell
  by_cases hi : t.rowidColumn = some i
  · rw [if_pos hi]
    obtain ⟨hck, hw, hinteger⟩ := h.serves.of_rowidColumn hm hkey hi
    obtain rfl := Option.some.inj (hc.symm.trans hck)
    exact h.displays_number hs hm ht hi hc hw hinteger
  · rw [if_neg hi]
    have hb : c ∈ m.boundColumns imode := by
      refine mem_bound hmem (Bool.eq_false_of_not_eq_true fun hauto => ?_)
      cases hplace (hm.eq_key hkey hmem (hs.counts c hmem hauto)) with
      | number hrowid => exact hi hrowid
      | index _ hno =>
        rw [hno c hc] at hauto
        cases hauto
    obtain ⟨x, hx, hcell⟩ := h.displays_bound hs hm hi hc hb
    have hsame : record.content c = bound.content c := by
      by_cases hck : c = key
      · cases hplace hck with
        | number hrowid => exact absurd hrowid hi
        | index _ hno =>
          have hcounted := h.counted
          rw [if_neg (by rw [← hck, hno c hc]; decide)] at hcounted
          rw [hcounted]
      · have hother : key.field ≠ c.field := fun hf =>
          hck (hm.eq_of_field (Mapping.mem_of_key? hkey).1 hmem hf).symm
        rw [h.filled, Record.content_fill_other hother]
    rw [hsame, hx, hcell]
    rfl

/-- The cells of the row are as the table stores them. -/
theorem PutsRecord.settles (h : PutsRecord d t m ticks imode key bound record row kept d')
    (hm : m.Placed) (hkey : m.key? = some key) (ht : t.Stored) : t.Settles row.cells := by
  intro i s hs
  obtain ⟨values, draft, -, hdraft, hputs⟩ := h.put
  by_cases hi : t.rowidColumn = some i
  · have hlen : i < draft.cells.length := by
      rw [hdraft.length]
      exact (List.getElem?_eq_some_iff.mp hs).1
    have hcell : row.cells[i]? = some (Cell.ofInt row.id) := by
      rw [hputs.cells_eq h.serves.fallback, hi]
      exact List.getElem?_set_self hlen
    rw [hcell]
    exact h.serves.settled_number hm hkey hi hs (hputs.fits hdraft ht)
  · rw [hputs.getElem? hdraft h.serves.fallback hs hi]
    exact Cell.settled_stored _ _

theorem PutsRecord.sound (h : PutsRecord d t m ticks imode key bound record row kept d')
    (hm : m.Placed) (hkey : m.key? = some key) (hd : d.Sound) : d'.Sound := by
  have hmem := List.mem_of_find?_eq_some h.serves.table
  have hstored := hd.stored t hmem
  have hsettles := h.settles hm hkey hstored
  obtain ⟨values, draft, -, hdraft, hputs⟩ := h.put
  exact hputs.sound hd hmem hsettles fun hw => hputs.fits hdraft hstored hw

end Database

/-! ## Inserts of records -/

section Values

variable {ticks : Bool} {v : Value} {x : Cell}

/-- What a field carries is bound as its cell. -/
theorem FieldType.Carries.bound {t : FieldType} (h : t.Carries v) (hx : v.toCell ticks = .ok x) :
    x.bound = x := by
  obtain ⟨content, optional⟩ := t
  rcases h with ⟨-, rfl⟩ | (h : content.Carries v)
  · cases hx
    rfl
  · cases h with
    | interval d =>
      obtain ⟨n, -, rfl⟩ := Content.of_map_integer hx
      rfl
    | timestamp t =>
      cases ticks with
      | true =>
        obtain ⟨n, -, rfl⟩ := Content.of_map_integer hx
        rfl
      | false =>
        cases hx
        rfl
    | offsetTimestamp t =>
      obtain ⟨n, -, rfl⟩ := Content.of_map_integer hx
      rfl
    | _ =>
      cases hx
      rfl

/-- The cells that are bound for the columns of a record are those of its contents. -/
theorem Record.Suits.cells_of_stored {r : Record} {m : Mapping} (h : r.Suits m)
    {columns : List Column} (hc : ∀ c ∈ columns, c ∈ m.columns) {values : List Value}
    {cells : List Cell} (hv : List.Forall₂ (fun c v => m.valueOf c r = .ok v) columns values)
    (hs : Stored ticks (values.map .scalar) cells) :
    List.Forall₂ (fun c x => (r.content c).toCell ticks = .ok x) columns cells := by
  induction hv generalizing cells with
  | nil =>
    cases hs
    exact .nil
  | @cons c v columns values hv _ ih =>
    obtain _ | ⟨hcell, hs⟩ := hs
    refine .cons ?_ (ih (fun c hc' => hc c (List.mem_cons_of_mem _ hc')) hs)
    obtain rfl := Except.ok.inj ((h.valueOf c).symm.trans hv)
    cases hx : (r.content c).toCell ticks with
    | error fault =>
      have hx' : (HostValue.scalar (r.content c)).toCell ticks = .error fault := hx
      rw [hx'] at hcell
      cases hcell
    | ok x =>
      have hx' : (HostValue.scalar (r.content c)).toCell ticks = .ok x := hx
      rw [hx'] at hcell
      cases hcell
      rw [(h.carries c (hc c List.mem_cons_self)).bound hx]

end Values

/-- A mapping that is decided was built for the declaration of its type. -/
theorem RecordTypes.built_of_decided? {types : RecordTypes} {requests : List Request}
    {name : String} {m : Mapping} (h : types.decided? requests name = some m) :
    ∃ conventions, Mapping.build conventions (types.describe name) = .ok m := by
  obtain ⟨q, -, hq⟩ := List.exists_of_findSome?_eq_some h
  split at hq
  · rename_i hname
    obtain rfl := hname
    refine ⟨q.conventions, ?_⟩
    exact ok_of_toOption hq
  · cases hq

/-- Inserts of records undo what they did before a fault, and leave no row out. -/
theorem InsertMode.undoes_conflict (mode : InsertMode) :
    mode.conflict.Undoes ∧ mode.conflict ≠ .ignore := by
  cases mode <;> exact ⟨⟨by decide, by decide⟩, by decide⟩

namespace Mapping

variable {m : Mapping}

/-- Only a mapping of one column that counts up binds nothing. -/
theorem Placed.of_boundColumns_nil (hm : m.Placed) (hs : m.Sound) (hne : m.columns ≠ [])
    {mode : InsertMode} (h : m.boundColumns mode = []) : mode = .plain ∧ m.columns.length = 1 := by
  cases mode with
  | replace => exact absurd h hne
  | plain =>
    refine ⟨rfl, Nat.le_antisymm ?_ (List.length_pos_iff.mpr hne)⟩
    have hkeys : m.columns.filter Column.isKey = m.columns :=
      List.filter_eq_self.mpr fun c hc => hs.counts c hc (autoIncrement_of_unbound h hc)
    have hone := hm.single
    rwa [hkeys] at hone

end Mapping

namespace Session

open RecordMapper.Action

variable {alone : Bool} {s t : Session}

theorem Quiet.current (h : Quiet s t) (hc : s.Current) : t.Current := by
  intro link hl
  rw [h.storage]
  exact hc link (h.link.symm.trans hl)

/-- A mapping is made without a change of the settings or the log. -/
theorem mapping_keeps (d : Declaration) (s : Session) :
    (mapping d s).2.connection.settings = s.connection.settings ∧ (mapping d s).2.log = s.log := by
  show (mappingWith s.connection.settings.conventions d s).2.connection.settings = _ ∧
    (mappingWith s.connection.settings.conventions d s).2.log = _
  unfold mappingWith
  rcases s.connection.catalog.request s.connection.settings.conventions d with ⟨x, catalog⟩
  exact ⟨rfl, rfl⟩

/-- Before its statement is executed, an insert leaves the settings alone. -/
theorem settings_of_prepareInsert {d : Declaration} {mode : InsertMode}
    {r r' : Record} {m : Mapping} {command : InsertCommand} {values : List Value}
    (h : prepareInsert d mode (s, r) = (.ok (m, command, values), t, r')) :
    t.connection.settings = s.connection.settings := by
  obtain ⟨-, -, -, supply, hcommand⟩ := of_prepareInsert h
  rw [← (Prod.mk.inj hcommand).2]
  exact (mapping_keeps d s).1

/-- The statement of an insert is that of its mapping. -/
theorem text_of_prepareInsert {types : RecordTypes} {requests : List Request} {name : String}
    (hmemory : s.memory.Agrees types requests) {mode : InsertMode} {r r' : Record} {m : Mapping}
    {command : InsertCommand} {values : List Value}
    (h : prepareInsert (types.describe name) mode (s, r) = (.ok (m, command, values), t, r')) :
    command.text = m.insertStatement mode := by
  obtain ⟨hm, -, -, supply, hcommand⟩ := of_prepareInsert h
  have hdecided := (Call.requested_iff hmemory s.connection.settings.conventions name m).mp hm
  obtain ⟨hname, -⟩ := RecordTypes.of_decided? hdecided
  have hasked := (hmemory.request ⟨s.connection.settings.conventions, name⟩).insertText
    hdecided hname mode
  rw [← Except.ok.inj (congrArg Prod.fst hcommand)]
  exact hasked

theorem mapped_insertWith {d : Declaration} {m : Mapping} (h : (mapping d s).1 = .ok m)
    (mode : InsertMode) (r : Record) :
    (insertWith d mode (s, r)).2.1.connection.catalog.get? d.typeName = some m := by
  have hcatalog : (insertWith d mode (s, r)).2.1.connection.catalog =
      (mapping d s).2.connection.catalog := by
    have hkept := memory_insertWith d mode s r
    rcases (prepareInsert_memory d mode s r).2 with hsame | ⟨_, -, hsame⟩ <;>
      exact (congrArg Memory.catalog hkept).trans (congrArg Memory.catalog hsame)
  rw [hcatalog]
  exact (Catalog.request_ok_iff s.connection.catalog s.connection.settings.conventions d).mp h

/-- What an insert of a record leaves of a session: the row of the record, in a database that can be
read. -/
structure Puts (s : Session) (table : Table) (m : Mapping) (mode : InsertMode) (key : Column)
    (record : Record) (row : Row) (kept : List Row) (t : Session) : Prop where
  rows : ∃ bound, Database.PutsRecord s.nesting.rows table m s.connection.settings.ticks mode
    key bound record
    row kept t.nesting.rows
  conforms : record.Conforms m s.connection.settings.ticks
  settings : t.connection.settings = s.connection.settings
  mapped : t.connection.catalog.get? m.typeName = some m
  reads : ∃ link, t.connection.link = some link ∧ Engine.Readable ⟨t.storage, link⟩

/-- An insert that comes to its end has put the row of its record into the table of the mapping. -/
theorem puts_insertWith {types : RecordTypes} {requests : List Request} (hs : s.Usable alone)
    (hc : s.Current) (hd : s.nesting.rows.Sound) (hmemory : s.memory.Agrees types requests)
    {name : String} {m : Mapping} (hm : (mapping (types.describe name) s).1 = .ok m) {table : Table}
    (htable : s.nesting.rows.Serves m s.connection.settings.ticks table) {key : Column}
    (hkey : m.key? = some key) {mode : InsertMode} {r r' : Record}
    (hr : r.Conforms m s.connection.settings.ticks) {n : Int}
    (h : insertWith (types.describe name) mode (s, r) = (.ok n, t, r'))
    (hknown : r'.content key ≠ .null) :
    ∃ row kept, Puts s table m mode key r' row kept t ∧ r' = r.fill key (r'.content key) := by
  have hdecided := (Call.requested_iff hmemory s.connection.settings.conventions name m).mp hm
  obtain ⟨hname, hsound⟩ := RecordTypes.of_decided? hdecided
  obtain ⟨conventions, hbuild⟩ := RecordTypes.built_of_decided? hdecided
  have hplaced := Mapping.placed_of_build hbuild
  obtain ⟨command, values, u, r₁, hp, hexecute, hr₁, hr', hfill, hfill₁, hcount⟩ :=
    of_insertWith hm hplaced hr hkey h
  obtain ⟨-, -, hvalues, -⟩ := of_prepareInsert hp
  have hquiet := quiet_prepareInsert (types.describe name) mode s r
  rw [hp] at hquiet
  have hsettings : u.connection.settings = s.connection.settings := settings_of_prepareInsert hp
  have htext := text_of_prepareInsert hmemory hp
  have hbinds : m.boundColumns mode = [] → mode = .plain ∧ m.columns.length = 1 :=
    hplaced.of_boundColumns_nil hsound (List.ne_nil_of_mem (Mapping.mem_of_key? hkey).1)
  obtain ⟨marks, ps, hread, hlen, hbound⟩ := m.readsAs_insertRow hbinds
  have hvalues := valuesOf_forall₂ hvalues
  have hnames := htable.isSome_columnPlace? hsound mode
  have hrowid : ∀ i, table.rowidColumn = some i → i < table.columns.length :=
    fun i hi => htable.lt_of_rowidColumn hplaced hkey hi
  have hnesting := hquiet.nesting
  have hmode := mode.undoes_conflict
  obtain ⟨rfl, cells, draft, row, kept, hstored, hdraft, hputs, hlast, hsteady, link,
    hlink, hreads⟩ :=
    executeText_insertRow (hquiet.stays hs).usable (hquiet.current hc) (hnesting.symm ▸ hd)
      (htext ▸ hread)
      (by rw [hlen, List.length_map]) hbound (hnesting.symm ▸ htable.table) hnames hrowid hmode.1
      hmode.2 (by rw [List.length_map, hvalues.length_eq]) hexecute
  rw [hsettings] at hstored
  rw [hnesting] at hputs
  refine ⟨row, kept, ⟨⟨r₁, ⟨htable, hr₁, ?_, hfill₁, ?_, hknown⟩⟩, hr', ?_, ?_, link, hlink, hreads⟩, hfill⟩
  · exact ⟨cells, draft, hr₁.suits.cells_of_stored (fun c hc => Database.bound_subset hc) hvalues hstored, hdraft,
      hputs⟩
  · have hcount := hcount Int.one_pos
    by_cases hauto : key.autoIncrement = true
    · rw [if_pos hauto] at hcount ⊢
      intro hw
      rw [hcount, hlast hw]
    · rw [if_neg hauto] at hcount ⊢
      exact hcount
  · exact hsteady.settings.trans hsettings
  · have hmapped := mapped_insertWith hm mode r
    rw [h, types.named] at hmapped
    rw [hname]
    exact hmapped

end Session

end RecordMapper
