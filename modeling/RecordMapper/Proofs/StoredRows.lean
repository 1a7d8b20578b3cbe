import RecordMapper.Proofs.Changing
import RecordMapper.Proofs.SettledCells
import Mathlib.Data.List.Pairwise

/-!
# Rows that are stored

What storing a row makes of its table.

1. `Table.Stored`: the rows of a table are such as the engine stores.
2. `Database.Puts`: a new row stands beside the rows that it does not clash with.
3. `Database.Exchanges`: a row takes the place of another.
-/

namespace RecordMapper

/-! ## Tables -/

namespace Table

/-- Cells as the columns of a table store them. -/
def Settles (t : Table) (cells : List Cell) : Prop :=
  ∀ (i : Nat) (c : StoredColumn), t.columns[i]? = some c →
  Cell.Settled c.affinity (cells[i]?.getD .null)

/-- The rows of a table are as the engine stores them: every cell is in the class that its column
prefers, and row numbers fit in sixty-four bits. -/
structure Stored (t : Table) : Prop where
  cells : ∀ r ∈ t.rows, t.Settles r.cells
  ids : t.withoutRowid = false → ∀ r ∈ t.rows, FitsInt64 r.id

theorem perm_place (r : Row) (rows : List Row) : (place r rows).Perm (r :: rows) := by
  induction rows with
  | nil => exact .refl _
  | cons a rest ih =>
    unfold place
    split
    · exact .refl _
    · exact (ih.cons a).trans (.swap r a rest)

theorem mem_place {r x : Row} {rows : List Row} : x ∈ place r rows ↔ x = r ∨ x ∈ rows :=
  (perm_place r rows).mem_iff.trans List.mem_cons

variable {t : Table}

/-- A table with one more row, and perhaps without some of the others. -/
theorem Stored.place (h : t.Stored) {r : Row} {kept : List Row} (hk : ∀ x ∈ kept, x ∈ t.rows)
    (hcells : t.Settles r.cells)
    (hid : t.withoutRowid = false → FitsInt64 r.id) :
    Stored { t with rows := Table.place r kept } where
  cells x hx := by
    rcases mem_place.mp hx with rfl | hx
    · exact hcells
    · exact h.cells x (hk x hx)
  ids hw x hx := by
    rcases mem_place.mp hx with rfl | hx
    · exact hid hw
    · exact h.ids hw x (hk x hx)

end Table

namespace Database

variable {d d' : Database} {t : Table} {mode : Sql.Conflict} {draft : Draft}

/-- The number of a new row fits where those of the others do. -/
theorem fitsInt64_nextId (ht : ∀ r ∈ t.rows, FitsInt64 r.id) {id : Int} (h : d.nextId t = .ok id) :
    FitsInt64 id := by
  have hlast : minInt64 ≤ t.lastId?.getD 0 := by
    cases hl : t.lastId? with
    | none => decide
    | some i =>
      obtain ⟨r, hr, rfl⟩ := Option.map_eq_some_iff.mp hl
      exact (ht r (List.mem_of_getLast? hr)).1
  unfold nextId at h
  extract_lets last floor at h
  have hfloor : minInt64 ≤ floor := by
    unfold floor
    split
    · exact le_max_of_le_left hlast
    · exact hlast
  split at h
  · rename_i hlt
    cases h
    unfold Table.maxId at hlt
    exact ⟨by omega, by omega⟩
  · split at h
    · cases h
    · split at h
      · rename_i i hi
        cases h
        have := List.find?_some hi
        rw [Bool.and_eq_true, decide_eq_true_iff] at this
        unfold Table.maxId at this
        exact ⟨by unfold minInt64; omega, by omega⟩
      · cases h

/-- The rows that stay beside a row that is stored: neither the one that it replaces nor any that it
clashes with. -/
def remaining (d : Database) (t : Table) (draft : Draft) (r : Row) : List Row :=
  let gone := (draft.old.toList ++ (d.clashes t r draft.old).map Prod.fst).map Row.id
  t.rows.filter fun o => !gone.contains o.id

/-- What a store that succeeds has done: a row with the cells of the draft stands in the table. -/
structure Places (d : Database) (t : Table) (mode : Sql.Conflict) (draft : Draft) (r : Row)
    (d' : Database) : Prop where
  /-- The number that the draft asks for, or the next one. -/
  id : draft.id = some r.id ∨ draft.id = none ∧ d.nextId t = .ok r.id
  cells : ∃ cells, fillNulls t mode draft.checked draft.cells = .ok cells ∧
    r.cells = match t.rowidColumn with
      | some i => cells.set i (Cell.ofInt r.id)
      | none => cells
  /-- Only a replacing statement takes away the rows that the row clashes with. -/
  free : mode ≠ .replace → d.clashes t r draft.old = []
  left : ∃ sequences, (draft.old.isSome → sequences = d.sequences) ∧
    d' = { d.setTable { t with rows := Table.place r (d.remaining t draft r) } with sequences }

theorem places_of_store {id : Int} (h : d.store t mode draft = .ok (d', id)) :
    ∃ r, r.id = id ∧ d.Places t mode draft r d' := by
  unfold store at h
  extract_lets finish at h
  obtain ⟨i, hi, h⟩ : ∃ i, (draft.id = some i ∨ draft.id = none ∧ d.nextId t = .ok i) ∧
      finish i = .ok (d', id) := by
    cases hd : draft.id with
    | some i =>
      rw [hd] at h
      exact ⟨i, .inl rfl, h⟩
    | none =>
      rw [hd] at h
      obtain ⟨i, hi, h⟩ := ok_of_bind h
      exact ⟨i, .inr ⟨rfl, hi⟩, h⟩
  obtain ⟨cells, hcells, h⟩ := ok_of_bind h
  extract_lets filled r found gone rest e e' put at h
  obtain ⟨-, -, h⟩ := ok_of_bind h
  obtain ⟨hnone, h⟩ : (mode ≠ .replace → found = []) ∧ put () = .ok (d', id) := by
    clear_value found
    rcases found with _ | ⟨⟨x, fault⟩, more⟩
    · exact ⟨fun _ => rfl, h⟩
    · dsimp only at h
      by_cases hmode : mode = .replace
      · rw [if_neg (not_not_intro hmode)] at h
        exact ⟨fun hne => absurd hmode hne, h⟩
      · rw [if_pos hmode] at h
        cases h
  obtain ⟨rfl, rfl⟩ := Prod.mk.inj (Except.ok.inj h)
  refine ⟨r, rfl, hi, ⟨cells, hcells, rfl⟩, hnone, ?_⟩
  unfold e'
  split
  · rename_i hnew
    have hold : draft.old.isSome = true → ∀ x, x = d.sequences := fun hold => by
      obtain ⟨-, hnone⟩ := Bool.and_eq_true_iff.mp hnew
      rw [Option.isNone_iff_eq_none] at hnone
      rw [hnone] at hold
      cases hold
    unfold setSequence
    split
    · exact ⟨_, fun h => hold h _, rfl⟩
    · exact ⟨_, fun h => hold h _, rfl⟩
  · exact ⟨_, fun _ => rfl, rfl⟩

section Clashes

variable {r x : Row} {old : Option Row}

theorem mem_clashes_number (hw : t.withoutRowid = false) (hx : x ∈ t.rows)
    (hold : old.all (fun q => q.id != x.id) = true) (hid : x.id = r.id) :
    x ∈ (d.clashes t r old).map Prod.fst := by
  unfold clashes
  extract_lets others byNumber numberFault byIndex
  have hothers : x ∈ others := List.mem_filter.mpr ⟨hx, hold⟩
  have hnumber : x ∈ byNumber := by
    unfold byNumber
    rw [hw]
    exact List.mem_filter.mpr ⟨hothers, beq_iff_eq.mpr hid⟩
  exact List.mem_map.mpr ⟨(x, numberFault), List.mem_append_left _ (List.mem_map_of_mem hnumber), rfl⟩

theorem mem_clashes_index {ix : Index} (hix : ix ∈ d.indicesOf t.name) (hx : x ∈ t.rows)
    (hold : old.all (fun q => q.id != x.id) = true) (hclash : ix.clash r.cells x.cells = true) :
    x ∈ (d.clashes t r old).map Prod.fst := by
  unfold clashes
  extract_lets others byNumber numberFault byIndex
  have hothers : x ∈ others := List.mem_filter.mpr ⟨hx, hold⟩
  have hindex : (x, ix.violation t) ∈ byIndex :=
    List.mem_flatMap.mpr ⟨ix, hix, List.mem_map_of_mem (List.mem_filter.mpr ⟨hothers, hclash⟩)⟩
  exact List.mem_map.mpr ⟨_, List.mem_append_right _ hindex, rfl⟩

theorem apart_of_not_mem (hx : x ∈ t.rows) (hold : old.all (fun q => q.id != x.id) = true)
    (h : x ∉ (d.clashes t r old).map Prod.fst) : (t.withoutRowid = false → x.id ≠ r.id) ∧
      ∀ ix ∈ d.indicesOf t.name, ix.clash r.cells x.cells = false := by
  refine ⟨fun hw hid => h (mem_clashes_number hw hx hold hid), fun ix hix => ?_⟩
  by_contra hclash
  exact h (mem_clashes_index hix hx hold (Bool.eq_true_of_not_eq_false hclash))

end Clashes

/-! ### New rows -/

/-- What storing a new row leaves: the row stands in its table, beside the rows that it does not
clash with. -/
structure Puts (d : Database) (t : Table) (mode : Sql.Conflict) (draft : Draft) (r : Row)
    (kept : List Row) (d' : Database) : Prop where
  /-- The number that the draft asks for, or the next one. -/
  id : draft.id = some r.id ∨ draft.id = none ∧ d.nextId t = .ok r.id
  cells : ∃ cells, fillNulls t mode draft.checked draft.cells = .ok cells ∧
    r.cells = match t.rowidColumn with
      | some i => cells.set i (Cell.ofInt r.id)
      | none => cells
  sublist : kept.Sublist t.rows
  /-- Only a replacing insert takes rows away. -/
  whole : mode ≠ .replace → kept = t.rows
  apart : ∀ x ∈ kept, (t.withoutRowid = false → x.id ≠ r.id) ∧
    ∀ ix ∈ d.indicesOf t.name, ix.clash r.cells x.cells = false
  left : ∃ sequences,
    d' = { d.setTable { t with rows := Table.place r kept } with sequences }

theorem Puts.subset {r : Row} {kept : List Row} (h : d.Puts t mode draft r kept d') :
    ∀ x ∈ kept, x ∈ t.rows := fun _ hx => h.sublist.subset hx

theorem of_store {id : Int} (hold : draft.old = none) (h : d.store t mode draft = .ok (d', id)) :
    ∃ r kept, r.id = id ∧ d.Puts t mode draft r kept d' := by
  obtain ⟨r, hr, hid, hcells, hfree, sequences, -, hleft⟩ := places_of_store h
  have hkept : d.remaining t draft r = t.rows.filter fun o =>
      !(((d.clashes t r none).map Prod.fst).map Row.id).contains o.id := by
    unfold remaining
    rw [hold]
    rfl
  rw [hold] at hfree
  have hmem : ∀ x ∈ d.remaining t draft r,
      x ∈ t.rows ∧ x ∉ (d.clashes t r none).map Prod.fst := by
    intro x hx
    rw [hkept] at hx
    obtain ⟨hx, hg⟩ := List.mem_filter.mp hx
    refine ⟨hx, fun hf => ?_⟩
    rw [List.contains_iff_mem.mpr (List.mem_map_of_mem hf)] at hg
    cases hg
  refine ⟨r, d.remaining t draft r, hr, hid, hcells, List.filter_sublist, fun hne => ?_,
    fun x hx => ?_, sequences, hleft⟩
  · rw [hkept, hfree hne]
    exact List.filter_eq_self.mpr fun _ _ => rfl
  · exact apart_of_not_mem (hmem x hx).1 rfl (hmem x hx).2

/-! ### Rows that take the place of others -/

/-- What storing a row in the place of another leaves, where it clashes with none of the rest. -/
structure Exchanges (d : Database) (t : Table) (mode : Sql.Conflict) (draft : Draft) (old r : Row)
    (d' : Database) : Prop where
  id : draft.id = some r.id
  cells : ∃ cells, fillNulls t mode draft.checked draft.cells = .ok cells ∧
    r.cells = match t.rowidColumn with
      | some i => cells.set i (Cell.ofInt r.id)
      | none => cells
  apart : ∀ x ∈ t.rows, x.id ≠ old.id → (t.withoutRowid = false → x.id ≠ r.id) ∧
    ∀ ix ∈ d.indicesOf t.name, ix.clash r.cells x.cells = false
  left : d' = d.setTable { t with rows := Table.place r (t.rows.filter fun o => o.id != old.id) }

theorem exchanges_of_store {old : Row} {i id : Int} (hold : draft.old = some old)
    (hid : draft.id = some i) (hmode : mode ≠ .replace) (h : d.store t mode draft = .ok (d', id)) :
    ∃ r, r.id = i ∧ d.Exchanges t mode draft old r d' := by
  obtain ⟨r, -, hr, hcells, hfree, sequences, hsame, hleft⟩ := places_of_store h
  have hnone := hfree hmode
  rw [hold] at hnone
  have hnumber : draft.id = some r.id := by
    rcases hr with hr | ⟨hr, -⟩
    · exact hr
    · rw [hid] at hr
      cases hr
  have hkept : d.remaining t draft r = t.rows.filter fun o => o.id != old.id := by
    unfold remaining
    rw [hold, hnone]
    refine List.filter_congr fun o _ => ?_
    show (!([old.id] : List Int).contains o.id) = _
    rw [List.contains_cons, List.contains_nil, Bool.or_false]
    rfl
  refine ⟨r, (Option.some.inj (hid.symm.trans hnumber)).symm, hnumber, hcells,
    fun x hx hne => ?_, ?_⟩
  · have hother : (some old).all (fun q => q.id != x.id) = true := bne_iff_ne.mpr hne.symm
    refine apart_of_not_mem hx hother ?_
    rw [hnone]
    exact List.not_mem_nil
  · rw [hleft, hsame (by rw [hold]; rfl), hkept]
    rfl

/-- A content as the engine keeps it: tables have names of their own, and their rows are stored. -/
structure Sound (d : Database) : Prop where
  apart : d.tables.Pairwise fun t u => sameFolded t.name u.name = false
  stored : ∀ t ∈ d.tables, t.Stored

theorem Sound.eq_of_sameFolded (h : d.Sound) {u : Table} (ht : t ∈ d.tables) (hu : u ∈ d.tables)
    (hname : sameFolded u.name t.name = true) : u = t := by
  have hsymm : Std.Symm fun t u : Table => sameFolded t.name u.name = false :=
    ⟨fun a b h => by rw [sameFolded_comm, h]⟩
  by_contra hne
  rw [h.apart.forall hu ht hne] at hname
  cases hname

section Exchange

variable {rows : List Row}

/-- Other rows of a table leave the definitions as they are. -/
theorem Sound.bare_setTable (hd : d.Sound) (ht : t ∈ d.tables) :
    (d.setTable { t with rows := rows }).bare = d.bare := by
  unfold Database.bare setTable
  simp only [List.map_map]
  congr 1
  refine List.map_congr_left fun u hu => ?_
  show Table.bare (if _ then _ else u) = _
  split
  · rename_i hname
    rw [hd.eq_of_sameFolded ht hu hname]
    rfl
  · rfl

/-- A content is sound with other rows of a table, where these are stored. -/
theorem Sound.setTable (hd : d.Sound) (hrows : Table.Stored { t with rows := rows }) :
    (d.setTable { t with rows := rows }).Sound := by
  have hname : ∀ (u : Table) (name : String), sameFolded (if sameFolded u.name t.name then
      { t with rows := rows } else u).name name = sameFolded u.name name := by
    intro u name
    split
    · rename_i hsame
      unfold sameFolded at hsame ⊢
      rw [beq_iff_eq.mp hsame]
    · rfl
  refine ⟨?_, fun u hu => ?_⟩
  · refine List.pairwise_map.mpr (hd.apart.imp fun {a b} hab => ?_)
    rw [hname, sameFolded_comm, hname, sameFolded_comm]
    exact hab
  · obtain ⟨w, hw, rfl⟩ := List.mem_map.mp hu
    split
    · exact hrows
    · exact hd.stored w hw

end Exchange

variable {r : Row} {kept : List Row}

theorem Puts.bare (h : d.Puts t mode draft r kept d') (hd : d.Sound) (ht : t ∈ d.tables) :
    d'.bare = d.bare := by
  obtain ⟨sequences, rfl⟩ := h.left
  exact hd.bare_setTable ht

theorem Puts.sound (h : d.Puts t mode draft r kept d') (hd : d.Sound) (ht : t ∈ d.tables)
    (hcells : t.Settles r.cells) (hid : t.withoutRowid = false → FitsInt64 r.id) : d'.Sound := by
  have hsound := hd.setTable ((hd.stored t ht).place h.subset hcells hid)
  obtain ⟨sequences, rfl⟩ := h.left
  exact ⟨hsound.apart, hsound.stored⟩

end Database

end RecordMapper
