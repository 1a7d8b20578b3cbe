import RecordMapper.Proofs.Indexing
import RecordMapper.Proofs.StoredRows

/-!
# Tables with a key

What the creation of a table makes of a mapping with a key.

1. `Table.Mirrors`: a table has the columns of a mapping in their order.
2. `Definition.Draft.Follows`: a draft mirrors some columns, and their key is the row number or has
   an index of its own. Every constraint keeps this.
3. `Database.Serves`: a database has the table of a mapping with its key. A creation leaves one that
   does, and so does every later change that keeps the table and its indices.
-/

namespace RecordMapper

/-! ## Columns -/

/-- A column of a table as a column of a mapping declares it. -/
structure StoredColumn.Serves (s : StoredColumn) (c : Column) (ticks : Bool) : Prop where
  name : s.name = c.name
  declared : ∃ type, c.storedType? ticks = some type ∧ s.type = Definition.describedType type ∧
    s.affinity = Affinity.ofType type
  fallback : s.fallback = none

namespace Table

def collationAt (t : Table) (i : Nat) : Collation :=
  (t.columns[i]?.map StoredColumn.collation).getD .binary

/-- The columns of a table are those of a list, first to last. -/
structure Mirrors (t : Table) (cs : List Column) (ticks : Bool) : Prop where
  length : t.columns.length = cs.length
  column : ∀ {i : Nat} {c : Column}, cs[i]? = some c →
    ∃ s : StoredColumn, t.columns[i]? = some s ∧ s.Serves c ticks

variable {t t' : Table} {cs : List Column} {c : Column} {ticks : Bool}

theorem Mirrors.snoc (h : t.Mirrors cs ticks) {s : StoredColumn} (hs : s.Serves c ticks)
    (ht : t'.columns = t.columns ++ [s]) : t'.Mirrors (cs ++ [c]) ticks where
  length := by rw [ht, List.length_append, List.length_append, h.length]; rfl
  column {i d} hd := by
    rw [ht, List.getElem?_append, h.length]
    rw [List.getElem?_append] at hd
    by_cases hi : i < cs.length
    · rw [if_pos hi] at hd ⊢
      exact h.column hd
    · rw [if_neg hi] at hd ⊢
      generalize i - cs.length = j at hd ⊢
      cases j with
      | zero =>
        cases hd
        exact ⟨s, rfl, hs⟩
      | succ j => cases hd

/-- Columns may change in what the mapping does not say of them. -/
theorem Mirrors.map (h : t.Mirrors cs ticks) (hlen : t'.columns.length = t.columns.length)
    (hc : ∀ {i : Nat} {s : StoredColumn}, t.columns[i]? = some s → ∃ s' : StoredColumn,
      t'.columns[i]? = some s' ∧ s'.name = s.name ∧ s'.type = s.type ∧ s'.affinity = s.affinity ∧
        s'.fallback = s.fallback) : t'.Mirrors cs ticks where
  length := hlen.trans h.length
  column hd := by
    obtain ⟨s, hs, hserves⟩ := h.column hd
    obtain ⟨s', hs', hname, htype, haffinity, hfallback⟩ := hc hs
    refine ⟨s', hs', hname.trans hserves.name, ?_, hfallback.trans hserves.fallback⟩
    rw [htype, haffinity]
    exact hserves.declared

end Table

/-! ## Drafts -/

theorem Definition.sameFolded_describedType (type : String) :
    sameFolded (describedType type) type = true := by
  unfold describedType
  cases h : standardTypes.find? fun s => sameFolded s type with
  | none => exact sameFolded_refl type
  | some s =>
    have hs := List.find?_some h
    exact hs

theorem Column.integer_of_storedType? {c : Column} {ticks : Bool} {type : String}
    (h : c.storedType? ticks = some type)
    (hi : sameFolded (Definition.describedType type) "integer" = true) : type = "integer" := by
  rw [sameFolded_comm] at hi
  have hfolded := sameFolded_trans hi (Definition.sameFolded_describedType type)
  unfold storedType? at h
  split at h
  · exact (Option.some.inj h).symm
  · generalize c.dataType = t at h
    cases t with
    | bool | int8 | int16 | int32 | uint8 | uint16 | enumeration => exact (Option.some.inj h).symm
    | unsupported name => cases h
    | text =>
      generalize c.maxLength = size at h
      cases size with
      | none =>
        cases h
        exact absurd hfolded (by decide)
      | some n =>
        cases h
        have hhead := congrArg (fun s : String => s.toList.head?) (beq_iff_eq.mp hfolded)
        simp only [foldCase, String.toList_ofList, String.toList_append, List.map_append] at hhead
        cases hhead
    | datetime =>
      cases ticks <;> (cases h; exact absurd hfolded (by decide))
    | _ =>
      cases h
      exact absurd hfolded (by decide)

namespace Definition.Draft

variable {ticks : Bool} {cs : List Column} {place : Option Nat} {d d' : Draft} {c : Column}

/-- Where the key of a draft stands: its column is the row number, or there is an index for it and
no other. -/
def KeyAt (d : Draft) (ticks : Bool) (cs : List Column) : Option Nat → Prop
  | none => d.keyed = false ∧ d.table.rowidColumn = none ∧ d.indices = []
  | some i => d.keyed = true ∧ i < cs.length ∧
      (d.table.rowidColumn = some i ∧ d.indices = [] ∧ (∀ c, cs[i]? = some c →
          c.storedType? ticks = some "integer" ∧ c.autoIncrement = d.table.autoIncrement) ∨
        d.table.rowidColumn = none ∧ (∀ c, cs[i]? = some c → c.autoIncrement = false) ∧
          ∃ name origin,
            d.indices = [⟨name, d.table.name, true, [⟨some i, d.table.collationAt i⟩], origin⟩])

/-- A draft follows some columns of a mapping, with its key at a place. -/
structure Follows (ticks : Bool) (cs : List Column) (place : Option Nat) (d : Draft) : Prop where
  mirrors : d.table.Mirrors cs ticks
  key : d.KeyAt ticks cs place
  numbered : d.table.withoutRowid = false

theorem Follows.opened (h : Follows ticks cs place d) {spec : Sql.ColumnSpec}
    (hc : c.spec? ticks = some spec) : Follows ticks (cs ++ [c]) place (d.opened spec) := by
  obtain ⟨type, htype, rfl⟩ := Option.map_eq_some_iff.mp hc
  refine ⟨h.mirrors.snoc ⟨rfl, ⟨type, htype, rfl, rfl⟩, rfl⟩ rfl, ?_, h.numbered⟩
  have hkey := h.key
  cases place with
  | none => exact hkey
  | some i =>
    obtain ⟨hkeyed, hi, hkey⟩ := hkey
    have hi' : i < d.table.columns.length := h.mirrors.length ▸ hi
    have hat : (d.opened ⟨c.name, type, c.constraints⟩).table.collationAt i =
        d.table.collationAt i := by
      unfold Table.collationAt opened
      rw [List.getElem?_append_left hi']
    refine ⟨hkeyed, by rw [List.length_append]; omega, hkey.imp ?_ ?_⟩
    · rintro ⟨hrowid, hindices, hinteger⟩
      refine ⟨hrowid, hindices, ?_⟩
      rw [List.getElem?_append_left hi]
      exact hinteger
    · rintro ⟨hrowid, hauto, name, origin, hindices⟩
      refine ⟨hrowid, ?_, name, origin, ?_⟩
      · rw [List.getElem?_append_left hi]
        exact hauto
      · rw [hat]
        exact hindices

/-- A change of the last column leaves the others as they are. -/
theorem getElem?_setColumn (d : Draft) (f : StoredColumn → StoredColumn) (i : Nat) :
    (d.setColumn f).table.columns[i]? = d.table.columns[i]?.map fun s =>
      if d.table.columns.length - 1 = i then f s else s :=
  List.getElem?_modify ..

theorem mirrors_setColumn (h : d.table.Mirrors cs ticks) {f : StoredColumn → StoredColumn}
    (hf : ∀ s, (f s).name = s.name ∧ (f s).type = s.type ∧ (f s).affinity = s.affinity ∧
      (f s).fallback = s.fallback) : (d.setColumn f).table.Mirrors cs ticks := by
  refine h.map (List.length_modify ..) ?_
  intro i s hs
  rw [getElem?_setColumn, hs]
  refine ⟨_, rfl, ?_⟩
  split
  · exact hf s
  · exact ⟨rfl, rfl, rfl, rfl⟩

theorem Follows.notNull (h : Follows ticks cs place d) :
    Follows ticks cs place (d.setColumn fun s => { s with notNull := true }) := by
  refine ⟨mirrors_setColumn h.mirrors fun _ => ⟨rfl, rfl, rfl, rfl⟩, ?_, h.numbered⟩
  have hkey := h.key
  cases place with
  | none => exact hkey
  | some i =>
    have hat : (d.setColumn fun s => { s with notNull := true }).table.collationAt i =
        d.table.collationAt i := by
      unfold Table.collationAt
      rw [getElem?_setColumn, Option.map_map]
      refine congrArg (fun g => (Option.map g _).getD _) (funext fun s => ?_)
      show StoredColumn.collation (if _ then _ else _) = _
      split <;> rfl
    obtain ⟨hkeyed, hi, hkey⟩ := hkey
    refine ⟨hkeyed, hi, hkey.imp id ?_⟩
    rintro ⟨hrowid, hauto, name, origin, hindices⟩
    refine ⟨hrowid, hauto, name, origin, ?_⟩
    rw [hat]
    exact hindices

/-- The collation of the last column is that of its key, too. -/
theorem Follows.collate (h : Follows ticks cs place d) {name k : String}
    (hd : d.constrain name (.collate k) = .ok d') : Follows ticks cs place d' := by
  simp only [constrain] at hd
  split at hd
  · rename_i collation _
    cases hd
    refine ⟨mirrors_setColumn h.mirrors fun _ => ⟨rfl, rfl, rfl, rfl⟩, ?_, h.numbered⟩
    have hkey := h.key
    cases place with
    | none =>
      obtain ⟨hkeyed, hrowid, hindices⟩ := hkey
      refine ⟨hkeyed, hrowid, ?_⟩
      show List.map _ d.indices = []
      rw [hindices]
      rfl
    | some i =>
      obtain ⟨hkeyed, hi, hkey⟩ := hkey
      refine ⟨hkeyed, hi, hkey.imp ?_ ?_⟩
      · rintro ⟨hrowid, hindices, hinteger⟩
        refine ⟨hrowid, ?_, hinteger⟩
        show List.map _ d.indices = []
        rw [hindices]
        rfl
      · rintro ⟨hrowid, hauto, name, origin, hindices⟩
        refine ⟨hrowid, hauto, name, origin, ?_⟩
        show List.map _ d.indices = _
        rw [hindices]
        unfold Table.collationAt
        rw [List.map_singleton]
        show [(⟨name, d.table.name, true, [if some i = some (d.table.columns.length - 1) then _ else _],
          origin⟩ : Index)] = [⟨name, d.table.name, true, [⟨some i, _⟩], origin⟩]
        rw [getElem?_setColumn, List.getElem?_eq_getElem (h.mirrors.length ▸ hi)]
        by_cases hlast : d.table.columns.length - 1 = i
        · simp only [hlast, if_true, Option.map_some, Option.getD_some]
        · rw [if_neg fun he => hlast (Option.some.inj he).symm]
          simp only [hlast, if_false, Option.map_some, Option.getD_some]
  · cases hd

theorem addIndex_nil (terms : List IndexTerm) (origin : IndexOrigin) (h : d.indices = []) :
    ∃ name, d.addIndex terms origin =
      { d with indices := [⟨name, d.table.name, true, terms, origin⟩] } := by
  refine ⟨Listing.automatic ++ d.table.name ++ "_" ++ toString (d.indices.length + 1), ?_⟩
  unfold addIndex
  rw [h]
  rfl

/-- The last column becomes the key, if there is none before. -/
theorem Follows.primaryKey (h : Follows ticks (cs ++ [c]) place d) {name : String}
    (hd : d.constrain name (.primaryKey false c.autoIncrement) = .ok d') :
    place = none ∧ Follows ticks (cs ++ [c]) (some cs.length) d' := by
  have hlen : d.table.columns.length = cs.length + 1 := by
    rw [h.mirrors.length, List.length_append]
    rfl
  simp only [constrain, hlen, Nat.add_sub_cancel] at hd
  obtain ⟨hkeyed, hd⟩ := of_addKey hd
  obtain rfl : place = none := by
    cases place with
    | none => rfl
    | some i => exact absurd h.key.1 (Bool.eq_false_iff.mp hkeyed)
  refine ⟨rfl, ?_⟩
  obtain ⟨-, hrowid, hindices⟩ := h.key
  have hi : cs.length < (cs ++ [c]).length := by
    rw [List.length_append]
    exact Nat.lt_succ_self _
  have hself : ∀ k, (cs ++ [c])[cs.length]? = some k → k = c := by
    intro k hk
    rw [List.getElem?_concat_length] at hk
    exact (Option.some.inj hk).symm
  obtain ⟨i, hterms, htype, rfl⟩ | ⟨hauto, rfl⟩ := hd
  · obtain rfl : cs.length = i := (List.cons.inj hterms).1
    refine ⟨⟨h.mirrors.length, h.mirrors.column⟩, ⟨rfl, hi, .inl ⟨rfl, hindices, ?_⟩⟩, h.numbered⟩
    intro k hk
    obtain ⟨s, hs, hserves⟩ := h.mirrors.column hk
    obtain ⟨type, hstored, hspelled, -⟩ := hserves.declared
    unfold isIntegerType at htype
    rw [hs, Option.any_some, hspelled] at htype
    exact ⟨by rw [hstored, Column.integer_of_storedType? hstored htype], by rw [hself k hk]⟩
  · obtain ⟨name, hadd⟩ := addIndex_nil (d := d.withKey [cs.length])
      [⟨some cs.length, d.table.collationAt cs.length⟩] .primaryKey hindices
    show Follows _ _ _ (addIndex (d.withKey [cs.length])
      [⟨some cs.length, d.table.collationAt cs.length⟩] .primaryKey)
    rw [hadd]
    refine ⟨⟨h.mirrors.length, h.mirrors.column⟩, ⟨rfl, hi, .inr ⟨hrowid, ?_, _, _, rfl⟩⟩, h.numbered⟩
    intro k hk
    rw [hself k hk]
    exact hauto _ rfl

/-- A column behind the others keeps the key, or it is the key. -/
theorem Follows.addColumn (h : Follows ticks cs place d) {spec : Sql.ColumnSpec}
    (hc : c.spec? ticks = some spec) (hd : d.addColumn spec = .ok d') :
    Follows ticks (cs ++ [c]) (place.or (if c.isKey then some cs.length else none)) d' := by
  have hopened := h.opened hc
  rw [addColumn_eq] at hd
  split at hd
  · cases hd
  obtain ⟨type, -, rfl⟩ := Option.map_eq_some_iff.mp hc
  generalize d.opened ⟨c.name, type, c.constraints⟩ = q at hd hopened
  simp only [Column.constraints, List.foldlM_append] at hd
  obtain ⟨r, hr, hd⟩ := ok_of_bind hd
  obtain ⟨q', hq', hr⟩ := ok_of_bind hr
  have hkeyed : Follows ticks (cs ++ [c]) (place.or (if c.isKey then some cs.length else none)) q' := by
    by_cases hkey : c.isKey = true
    · rw [if_pos hkey] at hq' ⊢
      rw [List.foldlM_cons] at hq'
      obtain ⟨p, hp, hq'⟩ := ok_of_bind hq'
      cases hq'
      obtain ⟨rfl, hp⟩ := hopened.primaryKey hp
      exact hp
    · rw [if_neg hkey] at hq' ⊢
      cases hq'
      rw [Option.or_none]
      exact hopened
  have hnull : Follows ticks (cs ++ [c]) (place.or (if c.isKey then some cs.length else none)) r := by
    by_cases hnull : c.nullable = true
    · rw [if_pos hnull] at hr
      cases hr
      exact hkeyed
    · rw [if_neg hnull] at hr
      cases hr
      exact hkeyed.notNull
  cases hcollation : c.collation with
  | none =>
    rw [hcollation] at hd
    cases hd
    exact hnull
  | some k =>
    rw [hcollation] at hd
    obtain ⟨p, hp, hd⟩ := ok_of_bind hd
    cases hd
    exact hnull.collate hp

/-- The columns of a mapping one after the other: the key stands where the mapping has it. -/
theorem Follows.addColumns {more : List Column} {specs : List Sql.ColumnSpec}
    (hspecs : List.Forall₂ (fun c spec => c.spec? ticks = some spec) more specs)
    (h : Follows ticks cs (cs.findIdx? Column.isKey) d)
    (hd : specs.foldlM Draft.addColumn d = .ok d') :
    Follows ticks (cs ++ more) ((cs ++ more).findIdx? Column.isKey) d' := by
  induction hspecs generalizing cs d with
  | nil =>
    cases hd
    rw [List.append_nil]
    exact h
  | @cons c spec more specs hc _ ih =>
    rw [List.foldlM_cons] at hd
    obtain ⟨q, hq, hd⟩ := ok_of_bind hd
    have hplace : (cs ++ [c]).findIdx? Column.isKey =
        (cs.findIdx? Column.isKey).or (if c.isKey then some cs.length else none) := by
      rw [List.findIdx?_append, List.findIdx?_singleton]
      by_cases hkey : c.isKey = true
      · rw [if_pos hkey, if_pos hkey, Option.map_some, Nat.zero_add]
      · rw [if_neg hkey, if_neg hkey, Option.map_none]
    have hnext := ih (hplace ▸ h.addColumn hc hq) hd
    rwa [List.append_assoc] at hnext

/-- Without row numbers, the key has an index of its own. -/
theorem Follows.withoutRowid (h : Follows ticks cs place d) (hd : d.withoutRowid = .ok d') :
    d'.table.Mirrors cs ticks ∧ d'.table.rowidColumn = none ∧ ∀ i, place = some i →
      (∀ c, cs[i]? = some c → c.autoIncrement = false) ∧ ∃ name origin,
        d'.indices = [⟨name, d'.table.name, true, [⟨some i, d'.table.collationAt i⟩], origin⟩] := by
  have hat : ∀ i : Nat, d.numberless.table.collationAt i = d.table.collationAt i := by
    intro i
    unfold Table.collationAt
    rw [getElem?_numberless, Option.map_map]
    refine congrArg (fun g => (Option.map g _).getD _) (funext fun s => ?_)
    show StoredColumn.collation (if _ then _ else _) = _
    split <;> rfl
  have hmirrors : d.numberless.table.Mirrors cs ticks := by
    refine h.mirrors.map ?_ ?_
    · show (d.table.columns.zipIdx.map _).length = _
      rw [List.length_map, List.length_zipIdx]
    · intro i s hs
      refine ⟨_, (getElem?_numberless d i).trans (congrArg _ hs), ?_⟩
      dsimp only
      split <;> exact ⟨rfl, rfl, rfl, rfl⟩
  have hkey := h.key
  obtain ⟨hauto, ⟨i, hrowid, rfl⟩ | ⟨hrowid, rfl⟩⟩ := of_withoutRowid hd
  · cases place with
    | none =>
      rw [hkey.2.1] at hrowid
      cases hrowid
    | some j =>
      obtain ⟨-, -, ⟨hsome, hindices, hinteger⟩ | ⟨hnone, -⟩⟩ := hkey
      · obtain rfl : j = i := Option.some.inj (hsome.symm.trans hrowid)
        obtain ⟨name, hadd⟩ := addIndex_nil (d := d.numberless) [⟨some j,
          (d.numberless.table.columns[j]?.map StoredColumn.collation).getD .binary⟩]
            .primaryKey hindices
        rw [hadd]
        refine ⟨hmirrors, rfl, ?_⟩
        rintro _ ⟨⟩
        refine ⟨fun c hc => ?_, name, .primaryKey, rfl⟩
        rw [(hinteger c hc).2]
        exact hauto
      · rw [hnone] at hrowid
        cases hrowid
  · refine ⟨hmirrors, rfl, ?_⟩
    rintro i rfl
    obtain ⟨-, -, ⟨hsome, -⟩ | ⟨-, hno, name, origin, hindices⟩⟩ := hkey
    · rw [hrowid] at hsome
      cases hsome
    · refine ⟨hno, name, origin, ?_⟩
      show d.indices = [⟨_, _, _, [⟨_, d.numberless.table.collationAt i⟩], _⟩]
      rw [hat]
      exact hindices

end Definition.Draft

/-! ## Tables -/

/-- The key of a table at a place: it is the row number, or an index keeps the rows apart by it. -/
inductive Table.KeyedBy (t : Table) (indices : List Index) (ticks : Bool) (cs : List Column)
    (i : Nat) : Prop
  | number : t.rowidColumn = some i → t.withoutRowid = false →
      (∀ c, cs[i]? = some c → c.storedType? ticks = some "integer") → KeyedBy t indices ticks cs i
  | index {ix : Index} : t.rowidColumn = none → (∀ c, cs[i]? = some c → c.autoIncrement = false) →
      ix ∈ indices → ix.table = t.name → ix.unique = true → ix.terms = [⟨some i, t.collationAt i⟩] →
      KeyedBy t indices ticks cs i

theorem Definition.keyed_drafted {m : Mapping} {ticks : Bool} {definition : Sql.DefinitionText}
    {offset : Nat} {specs : List Sql.ColumnSpec} {draft : Definition.Draft}
    (hspecs : List.Forall₂ (fun c spec => c.spec? ticks = some spec) m.columns specs)
    (h : drafted ⟨m.table, definition, offset, specs, [], m.record.withoutRowid⟩ = .ok draft) :
    draft.table.Mirrors m.columns ticks ∧ ∀ i, m.columns.findIdx? Column.isKey = some i →
      draft.table.KeyedBy draft.indices ticks m.columns i := by
  unfold drafted at h
  obtain ⟨first, hfirst, h⟩ := ok_of_bind h
  obtain ⟨second, hsecond, h⟩ := ok_of_bind h
  cases hsecond
  have hempty : Draft.Follows ticks [] (([] : List Column).findIdx? Column.isKey)
      { table := { (default : Table) with name := m.table } } :=
    ⟨⟨rfl, nofun⟩, ⟨rfl, rfl, rfl⟩, rfl⟩
  have hfollows := hempty.addColumns hspecs hfirst
  rw [List.nil_append] at hfollows
  by_cases hwithout : m.record.withoutRowid = true
  · rw [if_pos hwithout] at h
    obtain ⟨hmirrors, hrowid, hkey⟩ := hfollows.withoutRowid h
    refine ⟨hmirrors, fun i hi => ?_⟩
    obtain ⟨hno, name, origin, hindices⟩ := hkey i hi
    exact .index hrowid hno (hindices ▸ List.mem_singleton_self _) rfl rfl rfl
  · rw [if_neg hwithout] at h
    cases h
    refine ⟨hfollows.mirrors, fun i hi => ?_⟩
    have hkey := hfollows.key
    rw [hi] at hkey
    obtain ⟨-, -, ⟨hrowid, -, hinteger⟩ | ⟨hrowid, hno, name, origin, hindices⟩⟩ := hkey
    · exact .number hrowid hfollows.numbered fun c hc => (hinteger c hc).1
    · exact .index hrowid hno (hindices ▸ List.mem_singleton_self _) rfl rfl rfl

/-- A database has the table of a mapping, with the columns of the mapping and its key. -/
structure Database.Serves (d : Database) (m : Mapping) (ticks : Bool) (t : Table) : Prop where
  table : d.table? m.table = some t
  mirrors : t.Mirrors m.columns ticks
  key : ∀ i, m.columns.findIdx? Column.isKey = some i → t.KeyedBy d.indices ticks m.columns i

namespace Database

variable {d d' : Database} {m : Mapping} {ticks : Bool} {t t' : Table}

/-- In a later database a table is as it was, whatever rows it has by now, and its indices are
there. -/
structure Retains (d d' : Database) (t t' : Table) : Prop where
  table : d'.table? t.name = some t'
  bare : t'.bare = t.bare
  indices : ∀ ix ∈ d.indices, ix.table = t.name → ix ∈ d'.indices

/-- A table that is retained still serves its mapping. -/
theorem Serves.retained (h : d.Serves m ticks t) (hr : d.Retains d' t t') :
    d'.Serves m ticks t' := by
  have hcolumns : t'.bare.columns = t.bare.columns := congrArg Table.columns hr.bare
  have hcolumns : t'.columns = t.columns := hcolumns
  have hat : ∀ i, t'.collationAt i = t.collationAt i := by
    intro i
    unfold Table.collationAt
    rw [hcolumns]
  refine ⟨?_, ⟨hcolumns ▸ h.mirrors.length, fun hc => hcolumns ▸ h.mirrors.column hc⟩,
    fun i hi => ?_⟩
  · rw [← table?_congr (sameFolded_of_table? h.table)]
    exact hr.table
  · cases h.key i hi with
    | number hrowid hnumbered hinteger =>
      exact .number ((congrArg Table.rowidColumn hr.bare).trans hrowid)
        ((congrArg Table.withoutRowid hr.bare).trans hnumbered) hinteger
    | index hrowid hno hix htable hunique hterms =>
      refine .index ((congrArg Table.rowidColumn hr.bare).trans hrowid) hno
        (hr.indices _ hix htable) ?_
        hunique (hterms.trans ?_)
      · exact htable.trans (congrArg Table.name hr.bare).symm
      · rw [hat]

/-- The statement that creates a table where its name is free adds what is drafted from the columns
of the mapping. -/
theorem drafted_createStatement {text : String} (h : m.createStatement ticks = .ok text)
    (hd : d.redefine? text = some d') (hfree : d.table? m.table = none) (hne : m.columns ≠ [])
    (hc : ∀ c ∈ m.columns, c.Declarable) : ∃ specs definition offset draft,
      List.Forall₂ (fun c spec => c.spec? ticks = some spec) m.columns specs ∧
      Definition.drafted ⟨m.table, definition, offset, specs, [], m.record.withoutRowid⟩ =
        .ok draft ∧
      d'.table? m.table = some draft.table ∧ d'.indices = draft.indices ++ d.indices := by
  obtain ⟨specs, definition, offset, parameters, hspecs, hread⟩ :=
    Mapping.readsAs_createStatement hc hne h
  obtain ⟨changed, hof, hrun⟩ := of_redefine?_readsAs hd hread
  obtain ⟨_, hdefinition, hof⟩ := ok_of_bind hof
  cases hof
  rcases Definition.of_ofCreateTable hdefinition with ⟨ht, -⟩ | ⟨-, -, draft, hdraft, rfl⟩
  · rw [hfree] at ht
    cases ht
  · cases hrun
    refine ⟨specs, definition, offset, draft, hspecs, hdraft, ?_, rfl⟩
    unfold table? at hfree ⊢
    have hsame : sameFolded draft.table.name m.table = true := by
      rw [(of_drafted hdraft).1]
      exact sameFolded_refl _
    rw [List.find?_append, hfree, Option.none_or, List.find?_singleton, hsame]
    rfl

theorem serves_createStatement {text : String} (h : m.createStatement ticks = .ok text)
    (hd : d.redefine? text = some d') (hfree : d.table? m.table = none) (hne : m.columns ≠ [])
    (hc : ∀ c ∈ m.columns, c.Declarable) : ∃ t, d'.Serves m ticks t := by
  obtain ⟨specs, definition, offset, draft, hspecs, hdraft, htable, hleft⟩ :=
    drafted_createStatement h hd hfree hne hc
  obtain ⟨hmirrors, hkey⟩ := Definition.keyed_drafted hspecs hdraft
  refine ⟨draft.table, htable, hmirrors, fun i hi => ?_⟩
  cases hkey i hi with
  | number hrowid hnumbered hinteger => exact .number hrowid hnumbered hinteger
  | index hrowid hno hix htable hunique hterms =>
    exact .index hrowid hno (hleft ▸ List.mem_append_left _ hix) htable hunique hterms

/-- The statements of indices leave the table as it is. -/
theorem Serves.planned (h : d.Serves m ticks t) {plans : List IndexPlan}
    (hne : ∀ p ∈ plans, p.members ≠ [])
    (hd : d.redefineAll? (plans.map (planText m.table)) = some d') :
    d'.Serves m ticks t := by
  obtain ⟨-, htables, hindices⟩ := of_redefineAll?_indices hne h.table hd
  refine ⟨?_, h.mirrors, fun i hi => ?_⟩
  · unfold table?
    rw [htables]
    exact h.table
  · cases h.key i hi with
    | number hrowid hnumbered hinteger => exact .number hrowid hnumbered hinteger
    | index hrowid hno hix htable hunique hterms =>
      exact .index hrowid hno ((hindices _).mpr (.inl hix)) htable hunique hterms

end Database

namespace Session

variable {alone : Bool} {s t : Session}

/-- A creation of a table has executed the statement of the table and those of its indices. -/
theorem executed_of_created (hs : s.Usable alone) (hc : s.Current) {conventions : Conventions}
    {d : Declaration} {m : Mapping} (hm : (mappingWith conventions d s).1 = .ok m)
    (h : createTableWith conventions d s = (.ok .created, t)) :
    ∃ text e, m.createStatement s.connection.settings.ticks = .ok text ∧
      s.nesting.rows.redefine? text = some e ∧ ∃ plans : List IndexPlan,
      (∀ p ∈ plans, p.members ≠ []) ∧
        e.redefineAll? (plans.map (Database.planText m.table)) = some t.nesting.rows := by
  have hcreates := creates_createTableWith hs hc conventions d
  rw [h] at hcreates
  generalize hcreation : Creation.created = creation at hcreates
  cases hcreates with
  | @done _ m' plans present texts _ _ _ _ _ _ hprepares hscript hrows =>
    obtain rfl : m' = m := Except.ok.inj (hprepares.mapping.symm.trans hm)
    have hpresent : present.isEmpty = true := by
      by_contra hp
      rw [if_neg hp] at hcreation
      cases hcreation
    obtain ⟨text, e, htext, he, hplans⟩ := Database.of_created hpresent hscript hrows
    exact ⟨text, e, htext, he, plans, (IndexPlan.planned_ofMapping hprepares.plans).inhabited, hplans⟩

/-- A creation of a table leaves one that serves its mapping. -/
theorem exists_serves_of_created (hs : s.Usable alone) (hc : s.Current) {conventions : Conventions}
    {d : Declaration} {m : Mapping} (hm : (mappingWith conventions d s).1 = .ok m)
    (hcolumns : ∀ c ∈ m.columns, c.Declarable) (hne : m.columns ≠ [])
    (hfree : s.nesting.rows.table? m.table = none)
    (h : createTableWith conventions d s = (.ok .created, t)) :
    ∃ table, t.nesting.rows.Serves m s.connection.settings.ticks table := by
  obtain ⟨text, e, htext, he, plans, hplans, hrows⟩ := executed_of_created hs hc hm h
  obtain ⟨table, hserves⟩ := Database.serves_createStatement htext he hfree hne hcolumns
  exact ⟨table, hserves.planned hplans hrows⟩

end Session

end RecordMapper
