import RecordMapper.Proofs.InsertedRows

/-!
# Tables that keep to their constraints

No two rows of a table clash, whatever is stored into it.

1. `Database.Consistent`: the rows of a table keep to its constraints.
2. `Database.Exchanges.consistent`: with a row in the place of the one that has its number, they
   keep to the constraints again.
3. `Database.Puts.consistent`: so they do with a new row.
-/

namespace RecordMapper

/-! ## Rows in their places -/

theorem Index.clash_comm (ix : Index) (xs ys : List Cell) : ix.clash xs ys = ix.clash ys xs := by
  have hcells : ∀ (c : Collation) (x y : Cell),
      (!x.isNull && Cell.same c x y) = (!y.isNull && Cell.same c y x) := fun c x y => by
    rw [Cell.same_comm c y x]
    cases h : Cell.same c x y with
    | true => rw [Cell.isNull_of_same h]
    | false => rw [Bool.and_false, Bool.and_false]
  unfold clash key
  rw [List.zip_map', List.zip_map', List.all_map, List.all_map]
  refine congrArg _ (congrArg (List.all ix.terms) (funext fun term => ?_))
  exact hcells term.collation _ _

namespace Table

variable {t : Table} {old r : Row} {rows : List Row}

/-- The table with a row in the place of the one that has its number. -/
def exchanged (t : Table) (r : Row) : Table :=
  { t with rows := t.rows.map fun o => if o.id = r.id then r else o }

theorem place_first (h : ∀ o ∈ rows, r.id < o.id) : place r rows = r :: rows := by
  cases rows with
  | nil => rfl
  | cons o rest => exact if_pos (h o List.mem_cons_self)

theorem place_exchange (h : rows.Pairwise fun a b => a.id < b.id) (hold : ∃ o ∈ rows, o.id = r.id) :
    place r (rows.filter fun o => o.id != r.id) =
      rows.map fun o => if o.id = r.id then r else o := by
  induction rows with
  | nil =>
    obtain ⟨o, ho, -⟩ := hold
    cases ho
  | cons a rest ih =>
    obtain ⟨ha, hrest⟩ := List.pairwise_cons.mp h
    by_cases hid : a.id = r.id
    · have hothers : ∀ o ∈ rest, o.id ≠ r.id := fun o ho => hid ▸ (ne_of_lt (ha o ho)).symm
      rw [List.filter_cons_of_neg (by rw [hid, bne_self_eq_false]; exact Bool.false_ne_true),
        List.filter_eq_self.mpr fun o ho => bne_iff_ne.mpr (hothers o ho),
        place_first fun o ho => hid ▸ ha o ho, List.map_cons, if_pos hid]
      congr 1
      exact (List.map_id' rest).symm.trans
        (List.map_congr_left fun o ho => (if_neg (hothers o ho)).symm)
    · obtain ⟨o, ho, hoid⟩ := hold
      have ho : o ∈ rest := (List.mem_cons.mp ho).resolve_left fun hoa => hid (hoa ▸ hoid)
      have hlt : ¬r.id < a.id := not_lt_of_gt (hoid ▸ ha o ho)
      rw [List.filter_cons_of_pos (by rwa [bne_iff_ne]), List.map_cons, if_neg hid]
      unfold place
      rw [if_neg hlt, ih hrest ⟨o, ho, hoid⟩]

theorem ascending_place (h : rows.Pairwise fun a b => a.id < b.id) (hne : ∀ o ∈ rows, o.id ≠ r.id) :
    (place r rows).Pairwise fun a b => a.id < b.id := by
  induction rows with
  | nil => exact List.pairwise_singleton _ _
  | cons a rest ih =>
    obtain ⟨ha, hrest⟩ := List.pairwise_cons.mp h
    unfold place
    split
    · rename_i hlt
      refine List.pairwise_cons.mpr ⟨fun o ho => ?_, h⟩
      rcases List.mem_cons.mp ho with rfl | ho
      · exact hlt
      · exact hlt.trans (ha o ho)
    · rename_i hlt
      refine List.pairwise_cons.mpr ⟨fun o ho => ?_, ih hrest fun o ho => hne o (List.mem_cons_of_mem _ ho)⟩
      rcases mem_place.mp ho with rfl | ho
      · exact lt_of_le_of_ne (not_lt.mp hlt) (hne a List.mem_cons_self)
      · exact ha o ho

theorem id_le_last (h : t.rows.Pairwise fun a b => a.id < b.id) {o : Row} (ho : o ∈ t.rows) :
    o.id ≤ t.lastId?.getD 0 := by
  unfold lastId?
  obtain ⟨kept, last, hrows⟩ :=
    List.eq_nil_or_concat' t.rows |>.resolve_left (List.ne_nil_of_mem ho)
  rw [hrows] at h ho ⊢
  rw [List.getLast?_concat]
  rcases List.mem_append.mp ho with ho | ho
  · exact ((List.pairwise_append.mp h).2.2 o ho last (List.mem_singleton_self _)).le
  · rw [List.mem_singleton.mp ho]
    exact le_rfl

theorem Stored.exchanged (h : t.Stored) (hcells : t.Settles r.cells)
    (hid : t.withoutRowid = false → FitsInt64 r.id) : (t.exchanged r).Stored where
  cells x hx := by
    obtain ⟨o, ho, rfl⟩ := List.mem_map.mp hx
    split
    · exact hcells
    · exact h.cells o ho
  ids hw x hx := by
    obtain ⟨o, ho, rfl⟩ := List.mem_map.mp hx
    split
    · exact hid hw
    · exact h.ids hw o ho

end Table

namespace Database

variable {d d' : Database} {t : Table} {mode : Sql.Conflict} {draft : Draft} {old r : Row}

/-- The rows of a table keep to its constraints: their numbers ascend, each has a cell for every
column, and no two of them clash. -/
structure Consistent (d : Database) (t : Table) : Prop where
  ascending : t.rows.Pairwise fun a b => a.id < b.id
  whole : ∀ r ∈ t.rows, r.cells.length = t.columns.length
  apart : ∀ a ∈ t.rows, ∀ b ∈ t.rows, a.id ≠ b.id →
    ∀ ix ∈ d.indicesOf t.name, ix.clash a.cells b.cells = false

/-- A row of the same number stands in the place of the other. -/
theorem Exchanges.eq_setTable (h : d.Exchanges t mode draft old r d') (hc : d.Consistent t)
    (hold : old ∈ t.rows) (hid : r.id = old.id) : d' = d.setTable (t.exchanged r) := by
  rw [h.left, ← hid, Table.place_exchange hc.ascending ⟨old, hold, hid.symm⟩]
  rfl

/-- With the row in the place of the other, the rows keep to the constraints. -/
theorem Exchanges.consistent (h : d.Exchanges t mode draft old r d') (hc : d.Consistent t)
    (hid : r.id = old.id) (hwhole : r.cells.length = t.columns.length) :
    d'.Consistent (t.exchanged r) := by
  have hnumber : ∀ o : Row, (if o.id = r.id then r else o).id = o.id := fun o => by
    split
    · rename_i ho
      exact ho.symm
    · rfl
  have hindices : d'.indicesOf (t.exchanged r).name = d.indicesOf t.name := by
    rw [h.left]
    rfl
  have hfree : ∀ x ∈ t.rows, x.id ≠ r.id → ∀ ix ∈ d.indicesOf t.name,
      ix.clash r.cells x.cells = false :=
    fun x hx hne => (h.apart x hx (hid ▸ hne)).2
  refine ⟨List.pairwise_map.mpr (hc.ascending.imp fun hlt => ?_), fun x hx => ?_,
    fun a ha b hb hne ix hix => ?_⟩
  · rw [hnumber, hnumber]
    exact hlt
  · obtain ⟨o, ho, rfl⟩ := List.mem_map.mp hx
    split
    · exact hwhole
    · exact hc.whole o ho
  · obtain ⟨x, hx, rfl⟩ := List.mem_map.mp ha
    obtain ⟨y, hy, rfl⟩ := List.mem_map.mp hb
    rw [hindices] at hix
    rw [hnumber, hnumber] at hne
    by_cases hxr : x.id = r.id
    · have hyr : y.id ≠ r.id := fun hyr => hne (hxr.trans hyr.symm)
      rw [if_pos hxr, if_neg hyr]
      exact hfree y hy hyr ix hix
    · by_cases hyr : y.id = r.id
      · rw [if_neg hxr, if_pos hyr, Index.clash_comm]
        exact hfree x hx hxr ix hix
      · rw [if_neg hxr, if_neg hyr]
        exact hc.apart x hx y hy hne ix hix

theorem Puts.ne_of_mem {names : List String} {values : List Cell} {kept : List Row}
    (h : d.Puts t mode draft r kept d') (hdraft : InsertPlan.Drafts t names values draft)
    (hc : d.Consistent t) : ∀ o ∈ kept, o.id ≠ r.id := by
  intro o ho
  cases hw : t.withoutRowid with
  | false => exact (h.apart o ho).1 hw
  | true =>
    have hlast := hdraft.last hw
    have hid : r.id = t.lastId?.getD 0 + 1 := by
      rcases h.id with hid | ⟨hid, -⟩
      · exact Option.some.inj (hid.symm.trans hlast)
      · rw [hid] at hlast
        cases hlast
    have hle := Table.id_le_last hc.ascending (h.subset o ho)
    omega

/-- With a new row the rows keep to the constraints. -/
theorem Puts.consistent {names : List String} {values : List Cell} {kept : List Row}
    (h : d.Puts t mode draft r kept d') (hdraft : InsertPlan.Drafts t names values draft)
    (hc : d.Consistent t) (hwhole : r.cells.length = t.columns.length) :
    d'.Consistent { t with rows := Table.place r kept } where
  ascending := Table.ascending_place (hc.ascending.sublist h.sublist) (h.ne_of_mem hdraft hc)
  whole x hx := by
    rcases Table.mem_place.mp hx with rfl | hx
    · exact hwhole
    · exact hc.whole x (h.subset x hx)
  apart a ha b hb hne ix hix := by
    have hindices : d'.indicesOf t.name = d.indicesOf t.name := by
      obtain ⟨sequences, rfl⟩ := h.left
      rfl
    have hmember : ix ∈ d.indicesOf t.name := hindices ▸ hix
    rcases Table.mem_place.mp ha with hnew | hkept
    · have hb : b ∈ kept := (Table.mem_place.mp hb).resolve_left fun hbr => hne (by rw [hnew, hbr])
      rw [hnew]
      exact (h.apart b hb).2 ix hmember
    · rcases Table.mem_place.mp hb with hnew | hkept'
      · rw [hnew, Index.clash_comm]
        exact (h.apart a hkept).2 ix hmember
      · exact hc.apart a (h.subset a hkept) b (h.subset b hkept') hne ix hmember

end Database

end RecordMapper
