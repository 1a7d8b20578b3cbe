import RecordMapper.Proofs.InsertedRecords
import RecordMapper.Proofs.UpdatedRows

/-!
# Records that are updated

An update of a record changes the row that has the key of the record, and nothing else.

1. `Mapping.Placed.updateColumns_cases`: what an update sets are the columns beside the key, or the
   key where it stands alone.
2. `Table.Mirrors.overwritten`: a column that is set gets its own value, and any other keeps
   what it has.
3. `Database.Serves.eq_of_shows`: in a consistent table at most one row has a key.
4. `Database.ExchangesRecord`: the row of a record in the place of the one with its key.
5. `Session.update_spec`: what an update leaves of a session, however it ends.
-/

namespace RecordMapper

/-! ## Columns that are set -/

namespace Mapping

variable {m : Mapping} {key c : Column}

/-- An update sets all columns but the key. Where there is no other, it sets the key. -/
theorem Placed.updateColumns_cases (hm : m.Placed) (hkey : m.key? = some key) :
    m.columns ≠ [key] ∧ m.updateColumns ≠ [] ∧
    (∀ c, c ∈ m.updateColumns ↔ c ∈ m.columns ∧ c ≠ key) ∨
      m.columns = [key] ∧ m.updateColumns = [key] := by
  obtain ⟨hmem, hiskey⟩ := mem_of_key? hkey
  have hother : ∀ c ∈ m.columns, (!c.isKey) = true ↔ c ≠ key := fun c hc => by
    rw [Bool.not_eq_true']
    refine ⟨fun hno hck => ?_, fun hne => Bool.eq_false_iff.mpr fun hk => hne (hm.eq_key hkey hc hk)⟩
    rw [hck, hiskey] at hno
    cases hno
  unfold updateColumns
  extract_lets others
  have hmem_others : ∀ c, c ∈ others ↔ c ∈ m.columns ∧ c ≠ key := fun c => by
    refine List.mem_filter.trans ⟨fun h => ⟨h.1, (hother c h.1).mp h.2⟩, fun h => ⟨h.1, (hother c h.1).mpr h.2⟩⟩
  cases hempty : others.isEmpty with
  | false =>
    have hne := List.isEmpty_eq_false_iff.mp hempty
    refine .inl ⟨fun halone => ?_, hne, hmem_others⟩
    obtain ⟨c, hc⟩ := List.exists_mem_of_ne_nil _ hne
    obtain ⟨hc, hck⟩ := (hmem_others c).mp hc
    rw [halone] at hc
    exact hck (List.mem_singleton.mp hc)
  | true =>
    have hall : ∀ c ∈ m.columns, c = key := fun c hc => by
      by_contra hne
      have hin := (hmem_others c).mpr ⟨hc, hne⟩
      rw [List.isEmpty_iff.mp hempty] at hin
      cases hin
    have hkeys : m.columns.filter Column.isKey = m.columns :=
      List.filter_eq_self.mpr fun c hc => hall c hc ▸ hiskey
    have hone := hm.single
    rw [hkeys] at hone
    have halone : m.columns = [key] := by
      rcases hcolumns : m.columns with _ | ⟨a, _ | ⟨b, rest⟩⟩
      · rw [hcolumns] at hmem
        cases hmem
      · rw [hall a (hcolumns ▸ List.mem_cons_self)]
      · rw [hcolumns] at hone
        simp at hone
    exact .inr ⟨halone, by rw [if_pos rfl, hkeys, halone]⟩

theorem Placed.updateColumns_ne_nil (hm : m.Placed) (hkey : m.key? = some key) :
    m.updateColumns ≠ [] := by
  rcases hm.updateColumns_cases hkey with ⟨-, hne, -⟩ | ⟨-, halone⟩
  · exact hne
  · rw [halone]
    exact List.cons_ne_nil _ _

theorem updateColumns_subset (hc : c ∈ m.updateColumns) : c ∈ m.columns := by
  unfold updateColumns at hc
  extract_lets others at hc
  split at hc
  · exact List.mem_of_mem_filter hc
  · exact List.mem_of_mem_filter hc

theorem Placed.mem_updateColumns (hm : m.Placed) (hkey : m.key? = some key) (hc : c ∈ m.columns) :
    c ∈ m.updateColumns ↔ c ≠ key ∨ m.columns = [key] := by
  rcases hm.updateColumns_cases hkey with ⟨hmore, -, hmem⟩ | ⟨halone, hset⟩
  · rw [hmem, and_iff_right hc, or_iff_left hmore]
  · rw [hset, ← halone]
    exact ⟨fun _ => .inr rfl, fun _ => hc⟩

end Mapping

/-! ## Cells that are overwritten -/

namespace Table

variable {t : Table} {m : Mapping} {ticks : Bool} {b c : Column} {i : Nat}
  {cells values : List Cell} {set : List Column}

/-- A column that is not the row number is what its own name means in a setting, and no other. -/
theorem Mirrors.target_iff (h : t.Mirrors m.columns ticks) (hm : m.Sound) (hb : b ∈ m.columns)
    (hc : m.columns[i]? = some c) (hi : t.rowidColumn ≠ some i) :
    UpdatePlan.target t b.name = some i ↔ b = c := by
  unfold UpdatePlan.target
  rw [Option.filter_eq_some_iff, h.columnPlace?_iff hm hb hc, bne_iff_ne]
  exact and_iff_left hi

theorem of_mem_assigned {P : Column → Cell → Prop} (h : List.Forall₂ P set values)
    {place : Option Nat} {v : Cell}
    (hv : (place, v) ∈ UpdatePlan.assigned t (set.map Column.name) values) :
    ∃ b ∈ set, P b v ∧ UpdatePlan.target t b.name = place := by
  unfold UpdatePlan.assigned at hv
  induction h with
  | nil => cases hv
  | @cons b x rest values hx _ ih =>
    rw [List.map_cons, List.zipWith_cons_cons] at hv
    rcases List.mem_cons.mp hv with hfirst | hv
    · obtain ⟨rfl, rfl⟩ := Prod.mk.inj hfirst
      exact ⟨b, List.mem_cons_self, hx, rfl⟩
    · obtain ⟨b', hb', hrest⟩ := ih hv
      exact ⟨b', List.mem_cons_of_mem _ hb', hrest⟩

theorem exists_mem_assigned {P : Column → Cell → Prop} (h : List.Forall₂ P set values)
    (hb : b ∈ set) :
    ∃ v, (UpdatePlan.target t b.name, v) ∈ UpdatePlan.assigned t (set.map Column.name) values := by
  unfold UpdatePlan.assigned
  induction h with
  | nil => cases hb
  | @cons a x rest values _ _ ih =>
    rw [List.map_cons, List.zipWith_cons_cons]
    rcases List.mem_cons.mp hb with rfl | hb
    · exact ⟨x, List.mem_cons_self⟩
    · obtain ⟨v, hv⟩ := ih hb
      exact ⟨v, List.mem_cons_of_mem _ hv⟩

/-- A column that is set gets its own value, and any other keeps what it has. -/
theorem Mirrors.overwritten (h : t.Mirrors m.columns ticks) (hm : m.Sound)
    {P : Column → Cell → Prop} (hset : ∀ b ∈ set, b ∈ m.columns)
    (hvalues : List.Forall₂ P set values) (hc : m.columns[i]? = some c)
    (hi : t.rowidColumn ≠ some i) {s : StoredColumn} (hs : t.columns[i]? = some s)
    (hlen : i < cells.length) :
    let written := UpdatePlan.overwrite t cells (UpdatePlan.assigned t (set.map Column.name) values)
    c ∉ set ∧ written[i]? = cells[i]? ∨ c ∈ set ∧ ∃ x, P c x ∧
    written[i]? = some (x.stored s.affinity) := by
  rcases UpdatePlan.getElem?_overwrite hs hlen (UpdatePlan.assigned t (set.map Column.name) values) with
    ⟨hno, hsame⟩ | ⟨x, hx, hwritten⟩
  · refine .inl ⟨fun hmem => ?_, hsame⟩
    obtain ⟨v, hv⟩ := exists_mem_assigned (t := t) hvalues hmem
    rw [(h.target_iff hm (hset c hmem) hc hi).mpr rfl] at hv
    exact hno v hv
  · obtain ⟨b, hb, hP, htarget⟩ := of_mem_assigned hvalues hx
    obtain rfl := (h.target_iff hm (hset b hb) hc hi).mp htarget
    exact .inr ⟨hb, x, hP, hwritten⟩

end Table

/-! ## The row of a key -/

namespace Table

variable {t : Table} {i : Nat} {r : Row}

/-- What an update of a record makes of the row that has its key: the row keeps its number, its
columns show the contents of the record, and a key that does not stand alone stays as it is. -/
structure Rewrites (t : Table) (m : Mapping) (key : Column) (ticks : Bool) (record : Record)
    (old new : Row) : Prop where
  id : new.id = old.id
  shown : ∀ {i : Nat} {c : Column}, m.columns[i]? = some c → c ≠ key ∨ m.columns = [key] →
    (record.content c).toCell ticks = .ok (t.cell i new)
  kept : m.columns ≠ [key] → ∀ {i : Nat}, m.columns[i]? = some key → t.cell i new = t.cell i old

/-- The rows that an update of a record leaves: that of its key is rewritten, and any other
stays. -/
def Rewritten (t : Table) (m : Mapping) (key : Column) (ticks : Bool) (record : Record)
    (i : Nat) (x : Cell) (rows : List Row) : Prop :=
  List.Forall₂ (fun old new =>
    if t.shows i x old then t.Rewrites m key ticks record old new else new = old) t.rows rows

theorem shows_null (t : Table) (i : Nat) (r : Row) : t.shows i .null r = false := by
  unfold shows compareWith Comparison.apply
  cases t.cell i r <;> rfl

end Table

namespace Database

variable {d d' : Database} {t : Table} {m : Mapping} {ticks : Bool} {key c : Column}
  {i : Nat} {x : Cell} {record : Record} {a b old new : Row}

theorem Serves.settled_key (h : d.Serves m ticks t) (hm : m.Placed) (hc : m.columns[i]? = some c)
    {s : StoredColumn} (hs : t.columns[i]? = some s) (hr : c.type.Carries (record.content c))
    (hx : (record.content c).toCell ticks = .ok x) : x.Settled s.affinity := by
  obtain ⟨s', hs', hserves⟩ := h.mirrors.column hc
  obtain rfl := Option.some.inj (hs.symm.trans hs')
  obtain ⟨type, htype, -, haffinity⟩ := hserves.declared
  rw [haffinity]
  exact Column.settled (hm.counted _ (List.mem_of_getElem? hc)) hr hx htype

/-- Where the rows keep to the constraints, one row at most shows a key. -/
theorem Serves.eq_of_shows (h : d.Serves m ticks t) (hm : m.Placed) (hkey : m.key? = some key)
    (ht : t.Stored) (hd : d.Consistent t) (hi : m.columns[i]? = some key) {s : StoredColumn}
    (hs : t.columns[i]? = some s) (hx : x.Settled s.affinity) (ha : a ∈ t.rows) (hb : b ∈ t.rows)
    (hxa : t.shows i x a = true) (hxb : t.shows i x b = true) : a.id = b.id := by
  have hids : ∀ r ∈ t.rows, t.withoutRowid = false → FitsInt64 r.id := fun r hr hw => ht.ids hw r hr
  have hsettled : ∀ r ∈ t.rows, (t.cell i r).Settled s.affinity := fun r hr =>
    h.settled_cell hm hkey hs (ht.cells r hr) (hids r hr)
  have hnull : x ≠ .null := by
    rintro rfl
    rw [Table.shows_null] at hxa
    cases hxa
  obtain ⟨hpresent, hsame⟩ := (Table.shows_iff hs hx (hsettled a ha) hnull).mp hxa
  obtain ⟨-, hsame'⟩ := (Table.shows_iff hs hx (hsettled b hb) hnull).mp hxb
  by_contra hne
  rw [Cell.same_comm] at hsame'
  rcases h.clash_of_same hm hkey hi (hids a ha) (hids b hb) hpresent
    (Cell.same_trans hsame hsame') with
    ⟨-, hid⟩ | ⟨ix, hix, hclash⟩
  · exact hne hid
  · rw [hd.apart a ha b hb hne ix hix] at hclash
    cases hclash

theorem Serves.length_shows_le (h : d.Serves m ticks t) (hm : m.Placed) (hkey : m.key? = some key)
    (ht : t.Stored) (hd : d.Consistent t) (hi : m.columns[i]? = some key) {s : StoredColumn}
    (hs : t.columns[i]? = some s) (hx : x.Settled s.affinity) :
    (t.rows.filter (t.shows i x)).length ≤ 1 := by
  have hshown : ∀ r ∈ t.rows.filter (t.shows i x), r ∈ t.rows ∧ t.shows i x r = true := fun r =>
    List.mem_filter.mp
  have hascending := hd.ascending.filter (t.shows i x)
  generalize t.rows.filter (t.shows i x) = shown at hshown hascending ⊢
  rcases shown with _ | ⟨a, _ | ⟨b, rest⟩⟩
  · exact Nat.zero_le _
  · exact Nat.le_refl _
  · obtain ⟨ha, hxa⟩ := hshown a List.mem_cons_self
    obtain ⟨hb, hxb⟩ := hshown b (List.mem_cons_of_mem _ List.mem_cons_self)
    have hlt := (List.pairwise_cons.mp hascending).1 b List.mem_cons_self
    exact absurd (h.eq_of_shows hm hkey ht hd hi hs hx ha hb hxa hxb) (ne_of_lt hlt)

theorem Serves.id_of_shows (h : d.Serves m ticks t) (hm : m.Placed) (hkey : m.key? = some key)
    (ht : t.Stored) (hi : t.rowidColumn = some i) (hr : key.type.Carries (record.content key))
    (hx : (record.content key).toCell ticks = .ok x) (ha : a ∈ t.rows)
    (hxa : t.shows i x a = true) :
    ∃ k : Int64, x = .integer k ∧ k.toInt = a.id := by
  obtain ⟨hc, hw, hinteger⟩ := h.of_rowidColumn hm hkey hi
  obtain ⟨s, hs, -⟩ := h.mirrors.column hc
  have hid := ht.ids hw a ha
  rcases Column.null_or_integer (hm.counted _ (Mapping.mem_of_key? hkey).1) hr hx hinteger with rfl | ⟨k, rfl⟩
  · rw [Table.shows_null] at hxa
    cases hxa
  · refine ⟨k, rfl, ?_⟩
    have hcell : t.cell i a = .integer (Int64.ofInt a.id) := by
      unfold Table.cell
      rw [if_pos hi, Cell.ofInt_of_fits hid]
    have hsettled := h.settled_cell hm hkey hs (ht.cells a ha) fun _ => hid
    obtain ⟨-, hsame⟩ := (Table.shows_iff hs (h.settled_key hm hc hs hr hx) hsettled nofun).mp hxa
    rw [hcell] at hsame
    rw [← Cell.same_integer _ hsame, toInt_of_int64? (if_pos hid)]

theorem Serves.number_assigned (h : d.Serves m ticks t) (hm : m.Sound) (hp : m.Placed)
    (hkey : m.key? = some key) (ht : t.Stored) (hr : record.Suits m) {values : List Cell}
    (hvalues : List.Forall₂ (fun c x => (record.content c).toCell ticks = .ok x) m.updateColumns values)
    (hx : (record.content key).toCell ticks = .ok x) (hi : m.columns[i]? = some key)
    (ha : a ∈ t.rows) (hxa : t.shows i x a = true) {y : Option Nat × Cell}
    (hy : y ∈ UpdatePlan.assigned t (m.updateColumns.map Column.name) values) (hnone : y.1 = none) :
    ∃ n : Int64, y.2.stored .numeric = .integer n ∧ n.toInt = a.id := by
  obtain ⟨place, v⟩ := y
  obtain ⟨b, hb, hv, htarget⟩ := Table.of_mem_assigned hvalues hy
  have hb := Mapping.updateColumns_subset hb
  obtain ⟨j, hj⟩ := List.getElem?_of_mem hb
  have hrowid : t.rowidColumn = some j := by
    by_contra hne
    have hsome := (h.mirrors.target_iff hm hb hj hne).mpr rfl
    rw [htarget.trans hnone] at hsome
    cases hsome
  obtain ⟨hck, -⟩ := h.of_rowidColumn hp hkey hrowid
  obtain rfl := Option.some.inj (hj.symm.trans hck)
  have hsame := hp.place_key hkey hi
  rw [hp.place_key hkey hj] at hsame
  obtain rfl := Option.some.inj hsame
  obtain ⟨k, rfl, hk⟩ := h.id_of_shows hp hkey ht hrowid (hr.carries b hb) hx ha hxa
  obtain rfl := Except.ok.inj (hv.symm.trans hx)
  exact ⟨k, rfl, hk⟩

/-! ## The row of a record -/

/-- The cells of a row in the place of another are those of its draft, but for the row number. -/
theorem Exchanges.cells_eq {mode : Sql.Conflict} {draft : Draft}
    (h : d.Exchanges t mode draft old new d') (hf : ∀ c ∈ t.columns, c.fallback = none) :
    new.cells = match t.rowidColumn with
      | some i => draft.cells.set i (Cell.ofInt new.id)
      | none => draft.cells := by
  obtain ⟨cells, hcells, hrow⟩ := h.cells
  rw [← fillNulls_eq hf hcells]
  exact hrow

/-- What an update of a record has put into its table: in the place of the row that has the key of
the record, a row with the contents that are set. -/
structure ExchangesRecord (d : Database) (t : Table) (m : Mapping) (ticks : Bool) (key : Column)
    (record : Record) (x : Cell) (old new : Row) (d' : Database) : Prop where
  serves : d.Serves m ticks t
  suits : record.Suits m
  keyed : (record.content key).toCell ticks = .ok x
  member : old ∈ t.rows
  shown : ∀ i, m.columns[i]? = some key → t.shows i x old = true
  exchange : ∃ values draft, List.Forall₂ (fun c x => (record.content c).toCell ticks = .ok x)
      m.updateColumns values ∧
    draft.cells = UpdatePlan.overwrite t old.cells
      (UpdatePlan.assigned t (m.updateColumns.map Column.name) values) ∧
    d.Exchanges t .abort draft old new d'
  id : new.id = old.id

namespace ExchangesRecord

/-- A column that is not the row number shows the content that is set, or what it showed before. -/
theorem getElem? (h : d.ExchangesRecord t m ticks key record x old new d') (hm : m.Sound)
    (hp : m.Placed) (hd : d.Consistent t) (hc : m.columns[i]? = some c)
    (hi : t.rowidColumn ≠ some i) :
    c ∉ m.updateColumns ∧ new.cells[i]? = old.cells[i]? ∨
      c ∈ m.updateColumns ∧ ∃ y, (record.content c).toCell ticks = .ok y ∧
      new.cells[i]? = some y := by
  obtain ⟨values, draft, hvalues, hdraft, hexchanges⟩ := h.exchange
  obtain ⟨s, hs, -⟩ := h.serves.mirrors.column hc
  have hlen : i < old.cells.length := by
    rw [hd.whole old h.member]
    exact (List.getElem?_eq_some_iff.mp hs).1
  have hcells : new.cells[i]? = draft.cells[i]? := by
    rw [hexchanges.cells_eq h.serves.fallback]
    cases hr : t.rowidColumn with
    | none => rfl
    | some j => exact List.getElem?_set_ne fun hji => hi (by rw [hr, hji])
  rw [hcells, hdraft]
  refine (h.serves.mirrors.overwritten hm (fun b hb => Mapping.updateColumns_subset hb) hvalues hc hi hs
    hlen).imp_right fun ⟨hmem, y, hy, hwritten⟩ => ⟨hmem, y, hy, hwritten.trans (congrArg some ?_)⟩
  exact h.serves.settled_key hp hc hs (h.suits.carries c (List.mem_of_getElem? hc)) hy

theorem rewrites (h : d.ExchangesRecord t m ticks key record x old new d') (hm : m.Sound)
    (hp : m.Placed) (hkey : m.key? = some key) (ht : t.Stored) (hd : d.Consistent t) :
    t.Rewrites m key ticks record old new where
  id := h.id
  shown {i c} hc hset := by
    unfold Table.cell
    by_cases hi : t.rowidColumn = some i
    · obtain ⟨hck, -⟩ := h.serves.of_rowidColumn hp hkey hi
      obtain rfl := Option.some.inj (hc.symm.trans hck)
      obtain ⟨k, rfl, hk⟩ := h.serves.id_of_shows hp hkey ht hi (h.suits.carries c (List.mem_of_getElem? hc))
        h.keyed h.member (h.shown i hc)
      rw [if_pos hi, h.id, ← hk, Cell.ofInt_of_fits (fitsInt64_toInt k), Int64.ofInt_toInt]
      exact h.keyed
    · have hmem := (hp.mem_updateColumns hkey (List.mem_of_getElem? hc)).mpr hset
      rcases h.getElem? hm hp hd hc hi with ⟨hno, -⟩ | ⟨-, y, hy, hcell⟩
      · exact absurd hmem hno
      · rw [if_neg hi, hcell]
        exact hy
  kept halone i hc := by
    unfold Table.cell
    by_cases hi : t.rowidColumn = some i
    · rw [if_pos hi, if_pos hi, h.id]
    · rcases h.getElem? hm hp hd hc hi with ⟨-, hcell⟩ | ⟨hmem, -⟩
      · rw [if_neg hi, if_neg hi, hcell]
      · exact (((hp.mem_updateColumns hkey (List.mem_of_getElem? hc)).mp hmem).elim
          (fun hne => hne rfl) halone).elim

theorem whole (h : d.ExchangesRecord t m ticks key record x old new d') (hd : d.Consistent t) :
    new.cells.length = t.columns.length := by
  obtain ⟨values, draft, -, hdraft, hexchanges⟩ := h.exchange
  have hlen : draft.cells.length = t.columns.length := by
    rw [hdraft, UpdatePlan.length_overwrite]
    exact hd.whole old h.member
  rw [hexchanges.cells_eq h.serves.fallback]
  cases t.rowidColumn with
  | none => exact hlen
  | some i => exact (List.length_set ..).trans hlen

/-- The cells of the row are as the table stores them. -/
theorem settles (h : d.ExchangesRecord t m ticks key record x old new d') (hm : m.Sound)
    (hp : m.Placed) (hkey : m.key? = some key) (ht : t.Stored) (hd : d.Consistent t) :
    t.Settles new.cells := by
  intro i s hs
  have hlen : i < t.columns.length := (List.getElem?_eq_some_iff.mp hs).1
  obtain ⟨c, hc⟩ : ∃ c, m.columns[i]? = some c :=
    ⟨_, List.getElem?_eq_getElem (h.serves.mirrors.length ▸ hlen)⟩
  by_cases hi : t.rowidColumn = some i
  · have hcell : new.cells[i]? = some (Cell.ofInt new.id) := by
      obtain ⟨values, draft, -, hdraft, hexchanges⟩ := h.exchange
      rw [hexchanges.cells_eq h.serves.fallback, hi]
      refine List.getElem?_set_self ?_
      rw [hdraft, UpdatePlan.length_overwrite, hd.whole old h.member]
      exact hlen
    rw [hcell]
    exact h.serves.settled_number hp hkey hi hs fun hw => h.id ▸ ht.ids hw old h.member
  · rcases h.getElem? hm hp hd hc hi with ⟨-, hcell⟩ | ⟨-, y, hy, hcell⟩
    · rw [hcell]
      exact ht.cells old h.member i s hs
    · rw [hcell]
      exact h.serves.settled_key hp hc hs (h.suits.carries c (List.mem_of_getElem? hc)) hy

/-- The table with the row, in a content that is sound and keeps to the constraints. -/
theorem left (h : d.ExchangesRecord t m ticks key record x old new d') (hm : m.Sound)
    (hp : m.Placed) (hkey : m.key? = some key) (hs : d.Sound) (hd : d.Consistent t) :
    d' = d.setTable (t.exchanged new) ∧ d'.Sound ∧ d'.Consistent (t.exchanged new) := by
  have ht := hs.stored t (List.mem_of_find?_eq_some h.serves.table)
  have hsettles := h.settles hm hp hkey ht hd
  have hwhole := h.whole hd
  have hid : t.withoutRowid = false → FitsInt64 new.id := fun hw => h.id ▸ ht.ids hw old h.member
  obtain ⟨values, draft, -, -, hexchanges⟩ := h.exchange
  have hleft := hexchanges.eq_setTable hd h.member h.id
  refine ⟨hleft, ?_, hexchanges.consistent hd h.id hwhole⟩
  rw [hleft]
  exact hs.setTable (ht.exchanged hsettles hid)

end ExchangesRecord

/-- What an update of a record has counted and left: there is no row of its key, or just one, which
is exchanged. -/
inductive UpdatesRecord (d : Database) (t : Table) (m : Mapping) (ticks : Bool) (key : Column)
    (record : Record) (i : Nat) (x : Cell) : Int → Database → Prop
  | absent : t.rows.filter (t.shows i x) = [] → UpdatesRecord d t m ticks key record i x 0 d
  | present {old new : Row} {d' : Database} : t.rows.filter (t.shows i x) = [old] →
      d.ExchangesRecord t m ticks key record x old new d' →
      UpdatesRecord d t m ticks key record i x 1 d'

theorem Sound.setTable_self (hd : d.Sound) (ht : t ∈ d.tables) : d.setTable t = d := by
  have hsame : (d.tables.map fun u => if sameFolded u.name t.name then t else u) = d.tables := by
    refine (List.map_congr_left fun u hu => ?_).trans (List.map_id _)
    split
    · rename_i hname
      exact (hd.eq_of_sameFolded ht hu hname).symm
    · rfl
  unfold Database.setTable
  rw [hsame]

/-- The rows that are left, in a content that is sound and keeps to the constraints. -/
theorem UpdatesRecord.left {n : Int} (h : d.UpdatesRecord t m ticks key record i x n d')
    (hm : m.Sound) (hp : m.Placed) (hkey : m.key? = some key) (hs : d.Sound) (ht : t ∈ d.tables)
    (hd : d.Consistent t) :
    n = (t.rows.filter (t.shows i x)).length ∧ n ≤ 1 ∧ ∃ rows,
      t.Rewritten m key ticks record i x rows ∧ d' = d.setTable { t with rows := rows } ∧
      d'.Sound ∧ d'.Consistent { t with rows := rows } := by
  cases h with
  | absent hnone =>
    refine ⟨by rw [hnone]; rfl, by decide, t.rows, List.forall₂_same.mpr fun r hr => ?_,
      (hs.setTable_self ht).symm, hs, hd⟩
    rw [if_neg (List.filter_eq_nil_iff.mp hnone r hr)]
  | @present old new _ hone hexchanges =>
    obtain ⟨hleft, hsound, hconsistent⟩ := hexchanges.left hm hp hkey hs hd
    refine ⟨by rw [hone]; rfl, Int.le_refl 1, _, ?_, hleft, hsound, hconsistent⟩
    refine List.forall₂_map_right_iff.mpr (List.forall₂_same.mpr fun r hr => ?_)
    by_cases hr' : r = old
    · subst hr'
      rw [if_pos (List.mem_filter.mp (hone ▸ List.mem_singleton_self r)).2,
        if_pos hexchanges.id.symm]
      exact hexchanges.rewrites hm hp hkey (hs.stored t ht) hd
    · have hother : t.shows i x r ≠ true := fun hshows =>
        hr' (List.mem_singleton.mp (hone ▸ List.mem_filter.mpr ⟨hr, hshows⟩))
      rw [if_neg hother, if_neg fun hid => hr' (hd.numbered r hr old hexchanges.member (hid.trans hexchanges.id))]

end Database

/-! ## Updates of records -/

namespace Session

open RecordMapper.Action

variable {alone : Bool} {s t : Session} {d : Declaration} {m : Mapping} {key : Column} {r : Record}
  {table : Table}

/-- A mapping that cannot be made is an error of the schema. -/
theorem schema_of_mapping_error {e : Error} (h : (mapping d s).1 = .error e) :
    ∃ fault, e = .schema fault := by
  have hrequest : (s.connection.catalog.request s.connection.settings.conventions d).1 = .error e :=
    h
  unfold Catalog.request at hrequest
  split at hrequest
  · cases hrequest
  · split at hrequest
    · cases hrequest
    · exact ⟨_, (Except.error.inj hrequest).symm⟩

/-- Without a key an update is refused before anything comes to the engine. -/
theorem update_keyless (h : ∀ m, (mapping d s).1 = .ok m → m.key? = none) (r : Record) :
    ∃ fault, update d r s = (.error (.schema fault), (mapping d s).2) := by
  unfold update
  rcases hm : mapping d s with ⟨e | m, u⟩
  · obtain ⟨fault, rfl⟩ := schema_of_mapping_error (congrArg Prod.fst hm)
    exact ⟨fault, bind_error hm⟩
  · rw [bind_ok hm, h m (congrArg Prod.fst hm)]
    exact ⟨_, rfl⟩

/-- What an update by a key comes to: its values are bound to its statement. -/
theorem update_apply (hm : (mapping d s).1 = .ok m) (hkey : m.key? = some key) {values : List Value}
    (hvalues : m.valuesOf (m.updateColumns ++ [key]) r = .ok values) : update d r s =
      ((executeText (m.updateStatement key) values (mapping d s).2).1.mapError (m.attach r),
        (executeText (m.updateStatement key) values (mapping d s).2).2) := by
  have hmapping : mapping d s = (.ok m, (mapping d s).2) := Prod.ext hm rfl
  unfold update
  rw [bind_ok hmapping, hkey]
  simp only [hvalues]
  rfl

theorem update_values_error (hm : (mapping d s).1 = .ok m) (hkey : m.key? = some key) {e : Error}
    (hvalues : m.valuesOf (m.updateColumns ++ [key]) r = .error e) :
    update d r s = (.error e, (mapping d s).2) := by
  have hmapping : mapping d s = (.ok m, (mapping d s).2) := Prod.ext hm rfl
  unfold update
  rw [bind_ok hmapping, hkey]
  simp only [hvalues]
  rfl

theorem update_error (hs : s.Usable alone) (hc : s.Current)
    (hm : ∀ m, (mapping d s).1 = .ok m → m.Placed) {e : Error} (h : update d r s = (.error e, t)) :
    Stays alone s t ∧ t.nesting.rows = s.nesting.rows := by
  have hquiet := quiet_mapping d s
  have hstays := hquiet.stays hs
  have hrows : (mapping d s).2.nesting.rows = s.nesting.rows := congrArg Nesting.rows hquiet.nesting
  by_cases hkeyless : ∀ m, (mapping d s).1 = .ok m → m.key? = none
  · obtain ⟨fault, hupdate⟩ := update_keyless hkeyless r
    obtain ⟨-, rfl⟩ := Prod.mk.inj (h.symm.trans hupdate)
    exact ⟨hstays, hrows⟩
  · obtain ⟨m, hmapping, key, hkey⟩ : ∃ m, (mapping d s).1 = .ok m ∧ ∃ key, m.key? = some key := by
      obtain ⟨m, hm⟩ := not_forall.mp hkeyless
      obtain ⟨hmapping, hkey⟩ := Classical.not_imp.mp hm
      exact ⟨m, hmapping, Option.ne_none_iff_exists'.mp hkey⟩
    cases hvalues : m.valuesOf (m.updateColumns ++ [key]) r with
    | error e' =>
      rw [update_values_error hmapping hkey hvalues] at h
      obtain ⟨-, rfl⟩ := Prod.mk.inj h
      exact ⟨hstays, hrows⟩
    | ok values =>
      rw [update_apply hmapping hkey hvalues] at h
      obtain ⟨hresult, hleft⟩ := Prod.mk.inj h
      have hlen : (m.updateColumns.map fun _ => Cell.null).length = m.updateColumns.length :=
        List.length_map _
      obtain ⟨places, a, ps, -, -, hread⟩ := Mapping.readsAs_updateStatement
        ((hm m hmapping).updateColumns_ne_nil hkey) key hlen .null
      rcases hx : executeText (m.updateStatement key) values (mapping d s).2 with ⟨e' | n, u⟩
      · obtain ⟨hkept, hsame⟩ :=
          executeText_update_error hstays.usable (hquiet.current hc) hread hx
        rw [hx] at hleft
        obtain rfl := hleft
        exact ⟨hstays.trans hkept, hsame.trans hrows⟩
      · rw [hx] at hresult
        cases hresult

theorem update_ok (hs : s.Usable alone) (hc : s.Current) (hd : s.nesting.rows.Sound)
    (hsound : m.Sound) (hm : m.Placed) (hmapping : (mapping d s).1 = .ok m)
    (hkey : m.key? = some key) (hserves : s.nesting.rows.Serves m s.connection.settings.ticks table)
    (hconsistent : s.nesting.rows.Consistent table) (hr : r.Suits m) {n : Int}
    (h : update d r s = (.ok n, t)) : ∃ i x, m.columns[i]? = some key ∧
      (r.content key).toCell s.connection.settings.ticks = .ok x ∧
      s.nesting.rows.UpdatesRecord table m s.connection.settings.ticks key r i x n t.nesting.rows ∧
      Stays alone s t ∧ t.Current := by
  have hquiet := quiet_mapping d s
  have hnesting := hquiet.nesting
  have hsettings := (mapping_keeps d s).1
  have hstored := hd.stored table (List.mem_of_find?_eq_some hserves.table)
  have hmem := (Mapping.mem_of_key? hkey).1
  obtain ⟨i, hi⟩ := List.getElem?_of_mem hmem
  obtain ⟨column, hcolumn, -⟩ := hserves.mirrors.column hi
  have hplace : ∀ {c j}, c ∈ m.columns → m.columns[j]? = some c →
      table.columnPlace? c.name = some j :=
    fun hc hj => (hserves.mirrors.columnPlace?_iff hsound hc hj).mpr rfl
  cases hvalues : m.valuesOf (m.updateColumns ++ [key]) r with
  | error e =>
    rw [update_values_error hmapping hkey hvalues] at h
    cases h
  | ok values =>
    rw [update_apply hmapping hkey hvalues] at h
    obtain ⟨own, v, hown, hlast, rfl⟩ := forall₂_concat (valuesOf_forall₂ hvalues)
    -- what is bound to the marks are the cells of the contents
    have hcell : ∀ x, Stored s.connection.settings.ticks [.scalar v] [x] →
        (r.content key).toCell s.connection.settings.ticks = .ok x := fun x hx => by
      obtain _ | ⟨hx, -⟩ := hr.cells_of_stored (List.forall_mem_singleton.mpr hmem)
        (.cons hlast .nil) hx
      exact hx
    have hcells : ∀ cells, Stored s.connection.settings.ticks (own.map .scalar) cells →
        List.Forall₂ (fun c x => (r.content c).toCell s.connection.settings.ticks = .ok x)
          m.updateColumns cells :=
      fun cells => hr.cells_of_stored (fun c => Mapping.updateColumns_subset) hown
    rcases hx : executeText (m.updateStatement key) (own ++ [v]) (mapping d s).2 with ⟨e | n', u⟩
    · rw [hx] at h
      cases h
    rw [hx] at h
    cases h
    rw [← hsettings] at hcell hcells ⊢
    rw [← hsettings] at hserves
    obtain ⟨cells, x, hset, hbound, hsteady, hleft⟩ := executeText_update (hquiet.stays hs).usable
      (hquiet.current hc) (hnesting.symm ▸ hd) (hm.updateColumns_ne_nil hkey)
      (hnesting.symm ▸ hserves.table)
      hconsistent.numbered
      (fun c hc => by
        obtain ⟨j, hj⟩ := List.getElem?_of_mem (Mapping.updateColumns_subset hc)
        rw [hplace (Mapping.updateColumns_subset hc) hj]
        rfl)
      (hplace hmem hi) hown.length_eq.symm
      (fun x hx => hserves.length_shows_le hm hkey hstored hconsistent hi hcolumn
        (hserves.settled_key hm hi hcolumn (hr.carries key hmem) (hcell x hx)))
      (fun cells x hset hx row hrow hshows y hy hnone => hserves.number_assigned hsound hm hkey hstored hr
        (hcells cells hset) (hcell x hx) hi hrow hshows hy hnone) hx
    rw [hnesting] at hleft
    refine ⟨i, x, hi, hcell x hbound, ?_, (hquiet.stays hs).trans hsteady.toStays, hsteady.current⟩
    rcases hleft with ⟨hnone, hsame, rfl⟩ | ⟨old, new, draft, hone, hid, hdraft, hexchanges, rfl⟩
    · rw [hsame]
      exact .absent hnone
    · obtain ⟨hold, hshows⟩ := List.mem_filter.mp (hone ▸ List.mem_singleton_self old)
      refine .present hone ⟨hserves, hr, hcell x hbound, hold, fun j hj => ?_,
        ⟨cells, draft, hcells cells hset, hdraft, hexchanges⟩, hid⟩
      have hsame := hm.place_key hkey hi
      rw [hm.place_key hkey hj] at hsame
      obtain rfl := Option.some.inj hsame
      exact hshows

/-- **An update changes the row of its key and nothing else.** A record type without a key is
refused with an error of the schema, before a statement comes to the engine. An update that fails
changes no row. One that is carried out counts the rows with the key of the record, where a creation
made the table for the mapping of the type, the engine knows the collations of the mapping, and the
rows keep to the constraints; there is one at most. This row keeps its number and shows the contents
of the record, with its key as before if there are other columns. Every other row stays, and the
rows keep to the constraints again. -/
theorem update_spec {types : RecordTypes} {requests : List Request} {name : String}
    (hs : s.Usable alone) (hc : s.Current) (hmemory : s.memory.Agrees types requests)
    {result : Except Error Int} (h : update (types.describe name) r s = (result, t)) :
    ((∀ m, (mapping (types.describe name) s).1 = .ok m → m.key? = none) →
      (∃ fault, result = .error (.schema fault)) ∧ Quiet s t ∧ t.log = s.log) ∧
    (∀ e, result = .error e → Stays alone s t ∧ t.nesting.rows = s.nesting.rows) ∧
    ∀ n m key table, result = .ok n → (mapping (types.describe name) s).1 = .ok m →
    m.key? = some key →
      s.CreatedFor (types.describe name) m table →
      (∀ c ∈ m.columns, ∀ collation, c.collation = some collation →
        (Collation.named? collation).isSome = true) →
      s.nesting.rows.Sound → s.nesting.rows.Consistent table → r.Suits m →
      ∃ i x rows, m.columns[i]? = some key ∧
        (r.content key).toCell s.connection.settings.ticks = .ok x ∧
        n = (table.rows.filter (table.shows i x)).length ∧ n ≤ 1 ∧
        table.Rewritten m key s.connection.settings.ticks r i x rows ∧
        t.nesting.rows = s.nesting.rows.setTable { table with rows := rows } ∧
        t.nesting.rows.Sound ∧ t.nesting.rows.Consistent { table with rows := rows } ∧
        Stays alone s t ∧ t.Current := by
  have hplaced : ∀ m, (mapping (types.describe name) s).1 = .ok m → m.Placed := fun m hm => by
    have hdecided := (Call.requested_iff hmemory s.connection.settings.conventions name m).mp hm
    obtain ⟨_, hbuild⟩ := RecordTypes.built_of_decided? hdecided
    exact Mapping.placed_of_build hbuild
  refine ⟨fun hkeyless => ?_, fun e he => ?_, ?_⟩
  · obtain ⟨fault, hupdate⟩ := update_keyless hkeyless r
    obtain ⟨rfl, rfl⟩ := Prod.mk.inj (h.symm.trans hupdate)
    exact ⟨⟨fault, rfl⟩, quiet_mapping _ s, (mapping_keeps _ s).2⟩
  · subst he
    exact update_error hs hc hplaced h
  · rintro n m key table rfl hmapping hkey hcreated hcollations hd hconsistent hr
    obtain ⟨hsound, hplaced, -, hserves, -⟩ := hcreated.served hmemory hmapping hcollations hkey
    obtain ⟨i, x, hi, hx, hupdates, hstays, hcurrent⟩ :=
      update_ok hs hc hd hsound hplaced hmapping hkey hserves hconsistent hr h
    obtain ⟨hn, hone, rows, hrewritten, hleft, hsound', hconsistent'⟩ :=
      hupdates.left hsound hplaced hkey hd (List.mem_of_find?_eq_some hserves.table) hconsistent
    exact ⟨i, x, rows, hi, hx, hn, hone, hrewritten, hleft, hsound', hconsistent', hstays, hcurrent⟩

/-! ### Tables with rows -/

/-- The session with some rows in every table of its storage. -/
def stocked (s : Session) (rows : List Row) : Session :=
  { s with storage.content.tables := s.storage.content.tables.map fun t => { t with rows } }

theorem Opened.stock {types : RecordTypes} {name : String} (h : Opened types name m table s)
    (rows : List Row) : Opened types name m { table with rows := rows } (s.stocked rows) := by
  obtain ⟨⟨link, hl, hsane, halone⟩, hcurrent, hidle, hticks, hagrees, hmapped,
    hcreated, htables⟩ := h
  have hnesting := nesting_of_link hl
  have hworking : link.working = none := by
    rw [hnesting] at hidle
    exact (hsane.clean (Option.map_eq_none_iff.mp hidle)).1
  have hcontent : s.nesting.rows = s.storage.content := by
    rw [hnesting]
    show link.working.getD _ = _
    rw [hworking]
    rfl
  have hstocked : (s.stocked rows).nesting.rows = (s.stocked rows).storage.content := by
    rw [nesting_of_link (s := s.stocked rows) hl]
    show link.working.getD _ = _
    rw [hworking]
    rfl
  have hbare : (s.stocked rows).storage.content.bare = s.storage.content.bare := by
    unfold Database.bare stocked
    simp only [List.map_map]
    rfl
  refine ⟨⟨link, hl, ⟨hsane.clean, hsane.bare⟩, halone⟩, fun link' hl' => ?_, ?_, hticks, hagrees,
    hmapped, ?_, ?_⟩
  · obtain rfl := Option.some.inj (hl'.symm.trans hl)
    have hcurrent := hcurrent link' hl
    unfold Engine.Current Engine.content at hcurrent ⊢
    rw [hworking] at hcurrent ⊢
    intro k hk hversion
    exact (hcurrent k hk hversion).trans hbare.symm
  · rw [nesting_of_link (s := s.stocked rows) hl]
    rw [hnesting] at hidle
    exact Option.map_eq_none_iff.mpr (Option.map_eq_none_iff.mp hidle)
  · obtain ⟨hu, hcu, hm, hfree, hdone, hmade, hretained, hkept⟩ := hcreated
    refine .intro hu hcu hm hfree hdone hmade ⟨?_, hretained.bare, ?_⟩ hkept
    · have hthere := hretained.table
      rw [hcontent] at hthere
      rw [hstocked]
      unfold Database.table? stocked at *
      simp only [List.find?_map, Function.comp_def, hthere, Option.map_some]
    · rw [hstocked]
      rw [hcontent] at hretained
      exact hretained.indices
  · rw [hcontent] at htables
    rw [hstocked]
    show List.map _ s.storage.content.tables = _
    rw [htables]
    rfl

/-- A table that was created on an empty database can have any rows. -/
theorem exists_stocked {types : RecordTypes} {name : String}
    (hbuild : Mapping.build .silent (types.describe name) = .ok m)
    (hcreated : (opened types name).1.toOption = some .created)
    (htables : ((opened types name).2.nesting.rows.tables.map fun t => (t.name, t.rows.isEmpty)) =
      [(m.table, true)]) (rows : List Row) :
    ∃ table, Opened types name m table (stocked (opened types name).2 rows) ∧
    table.rows = rows := by
  obtain ⟨table, h, -⟩ := exists_opened hbuild hcreated htables
  exact ⟨_, h.stock rows, rfl⟩

/-- Rows that suit columns of some classes: the cells are of these classes, and the numbers
ascend. -/
def Fitting (classes : List Affinity) (rows : List Row) : Prop :=
  (∀ r ∈ rows, List.Forall₂ Cell.Settled classes r.cells) ∧ (∀ r ∈ rows, FitsInt64 r.id) ∧
    rows.Pairwise fun a b => a.id < b.id

instance (classes : List Affinity) (rows : List Row) : Decidable (Fitting classes rows) :=
  inferInstanceAs (Decidable (_ ∧ _))

/-- Such rows are stored, and they keep to the constraints of a table without indices. -/
theorem Opened.fitting {types : RecordTypes} {name : String} (h : Opened types name m table s)
    {classes : List Affinity}
    (hclasses : (s.nesting.rows.tables.map fun t => t.columns.map StoredColumn.affinity) = [classes])
    (hindices : s.nesting.rows.indices.isEmpty = true) (hrows : Fitting classes table.rows) :
    s.nesting.rows.Sound ∧ s.nesting.rows.Consistent table := by
  obtain ⟨hcells, hids, hascending⟩ := hrows
  rw [h.tables] at hclasses
  have hclass : table.columns.map StoredColumn.affinity = classes := (List.cons.inj hclasses).1
  refine ⟨h.sound ⟨fun r hr i c hcolumn => ?_, fun _ => hids⟩, hascending, fun r hr => ?_,
    fun a _ b _ _ ix hix => ?_⟩
  · have hc : classes[i]? = some c.affinity := by
      rw [← hclass, List.getElem?_map, hcolumn]
      rfl
    obtain ⟨hlen, hsettled⟩ := List.forall₂_iff_get.mp (hcells r hr)
    obtain ⟨hi, hget⟩ := List.getElem?_eq_some_iff.mp hc
    rw [List.getElem?_eq_getElem (hlen ▸ hi)]
    exact hget ▸ hsettled i hi (hlen ▸ hi)
  · rw [← (hcells r hr).length_eq, ← hclass, List.length_map]
  · unfold Database.indicesOf at hix
    rw [List.isEmpty_iff.mp hindices] at hix
    cases hix

theorem exists_letters (counts : Bool) (rows : List Row) : ∃ table,
    Opened (letters counts) "Letter" (letterMapping counts) table
      (stocked (lettered counts).2 rows) ∧
      table.rows = rows := by
  obtain ⟨hcreated, htables⟩ := lettered_created counts
  exact exists_stocked (build_letterMapping counts) hcreated htables rows

def twoLetters : List Row :=
  [⟨1, [.integer 1, .text "a", .integer 5]⟩, ⟨2, [.integer 2, .text "b", .null]⟩]

/-- The session in which the table of letters was created, with two letters. -/
def answering : Session := stocked (lettered true).2 twoLetters

def answered : Except Error Int × Session :=
  update ((letters true).describe "Letter") (aLetter (.int 2)) answering

theorem answered_one : answered.1.toOption = some 1 ∧
    (answering.nesting.rows.tables.map fun t => t.columns.map StoredColumn.affinity) =
      [[.integer, .text, .integer]] ∧
    answering.nesting.rows.indices.isEmpty = true ∧
    Fitting [.integer, .text, .integer] twoLetters := by
  decide +kernel

/-- Of two letters the second gets another text and a time to wait; the first stays as it is. -/
theorem update_spec_answered : ∃ table i x rows,
    Opened (letters true) "Letter" (letterMapping true) table answering ∧ table.rows = twoLetters ∧
    answered = (.ok 1, answered.2) ∧ (table.rows.filter (table.shows i x)).length = 1 ∧
    table.Rewritten (letterMapping true) (letterKey true) true (aLetter (.int 2)) i x rows ∧
    answered.2.nesting.rows.tables = [{ table with rows := rows }] := by
  obtain ⟨hone, hclasses, hindices, hfitting⟩ := answered_one
  obtain ⟨table, h, hrows⟩ : ∃ table,
    Opened (letters true) "Letter" (letterMapping true) table answering ∧
    table.rows = twoLetters := exists_letters true twoLetters
  have hended : answered = (.ok 1, answered.2) := ends_of_toOption hone
  obtain ⟨hsound, hconsistent⟩ := h.fitting hclasses hindices (by rwa [hrows])
  have hconforms := conforms_aLetter (.inr (.int rfl (by decide)) : (letterKey true).type.Holds true (.int 2))
  obtain ⟨-, -, hspec⟩ := update_spec h.usable h.current h.agrees hended
  obtain ⟨i, x, rows, hi, hx, hn, -, hrewritten, hleft, -⟩ :=
    hspec 1 (letterMapping true) (letterKey true)
    table rfl h.mapped rfl h.created (by decide) hsound hconsistent hconforms.suits
  rw [h.ticks] at hrewritten
  refine ⟨table, i, x, rows, h, hrows, hended, Int.ofNat.inj hn.symm, hrewritten, ?_⟩
  have hset : ∀ d : Database, d.tables = [table] →
      (d.setTable { table with rows := rows }).tables = [{ table with rows := rows }] := by
    intro d hd
    unfold Database.setTable
    rw [hd, List.map_singleton, if_pos (sameFolded_refl _)]
  exact (congrArg Database.tables hleft).trans (hset _ h.tables)

/-- Notes with a key, before which a collation brings in a column of the same name. -/
def overtaken : RecordTypes where
  describe name := ⟨name, name, false,
    [⟨"Body", none, ⟨.plain .text, false⟩, [.collate "nocase, \"Id\" bigint) --"], .text ""⟩,
      ⟨"Id", none, ⟨.plain .int64, false⟩, [.primaryKey], .int 0⟩], []⟩
  named _ := rfl

def overtakenMapping : Mapping :=
  ⟨overtaken.describe "Note", [⟨"Body", "Body", ⟨.plain .text, false⟩, true,
      some "nocase, \"Id\" bigint) --", none, false, false, false, [], 0⟩,
    ⟨"Id", "Id", ⟨.plain .int64, false⟩, false, none, none, true, false, false, [], 1⟩]⟩

def twins : List Row := [⟨1, [.text "a", .integer 1]⟩, ⟨2, [.text "b", .integer 1]⟩]

/-- The session in which their table was created, with two notes of the same key. -/
def twinned : Session := stocked (opened overtaken "Note").2 twins

def aTwin : Record := ⟨"Note", [.text "c", .int 1]⟩

theorem overtaken_created :
    (Mapping.build .silent (overtaken.describe "Note")).toOption = some overtakenMapping ∧
      (opened overtaken "Note").1.toOption = some .created ∧
      ((opened overtaken "Note").2.nesting.rows.tables.map fun t => (t.name, t.rows.isEmpty)) =
        [("Note", true)] := by
  decide +kernel

theorem twinned_two : (update (overtaken.describe "Note") aTwin twinned).1.toOption = some 2 ∧
    (twinned.nesting.rows.tables.map fun t => t.columns.map StoredColumn.affinity) =
      [[.text, .integer]] ∧
    twinned.nesting.rows.indices.isEmpty = true ∧ Fitting [.text, .integer] twins := by
  decide +kernel

theorem suits_aTwin : aTwin.Suits overtakenMapping where
  type := rfl
  carries c hc := by
    rcases List.mem_cons.mp hc with rfl | hc
    · exact .inr (.text "c")
    · cases List.mem_singleton.mp hc
      exact .inr (.int rfl 1)

/-- An update does not always change one row at most: where a collation ends the definition of the
table, the engine knows of no key. -/
theorem not_always_update_spec : ¬ ∀ {types : RecordTypes} {requests : List Request} {name : String}
    {m : Mapping} {key : Column} {table : Table} {s t : Session} {r : Record} {n : Int},
    s.Usable true →
    s.Current → s.memory.Agrees types requests → (mapping (types.describe name) s).1 = .ok m →
    m.key? = some key → s.CreatedFor (types.describe name) m table → s.nesting.rows.Sound →
    s.nesting.rows.Consistent table → r.Suits m →
    update (types.describe name) r s = (.ok n, t) → n ≤ 1 := by
  intro hall
  obtain ⟨hbuild, hcreated, htables⟩ := overtaken_created
  obtain ⟨htwo, hclasses, hindices, hfitting⟩ := twinned_two
  obtain ⟨table, h, hrows⟩ : ∃ table, Opened overtaken "Note" overtakenMapping table twinned ∧
    table.rows = twins := exists_stocked (ok_of_toOption hbuild) hcreated htables twins
  obtain ⟨hsound, hconsistent⟩ := h.fitting hclasses hindices (by rwa [hrows])
  have hone : (2 : Int) ≤ 1 :=
    hall h.usable h.current h.agrees h.mapped rfl h.created hsound hconsistent
    suits_aTwin (ends_of_toOption htwo)
  exact absurd hone (by decide)

end Session

end RecordMapper
