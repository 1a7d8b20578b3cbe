import RecordMapper.Proofs.Floats
import RecordMapper.Proofs.MissingValues
import RecordMapper.Proofs.NullComparisons
import RecordMapper.Proofs.RequiredColumns
import RecordMapper.Proofs.UpdatedRecords

/-!
# Violated constraints

A record that is refused because a column has to have a value is reported with its contents.

1. `Value.bound_eq_null_iff`: null is bound for a content that is null, and for one that is
   not a number.
2. `Cell.isNull_stored`: storing a cell makes no null of it.
3. `Mapping.Blames`: an error has the contents of the record and blames a column that needs a value.
   It lists the column unless the content is not a number.
4. `Session.blames_of_notNull`: so do the errors of inserts and updates.
-/

namespace RecordMapper

/-! ## Values that are bound as null -/

/-- Not a number: a float that is none, or a decimal whose float is none. -/
def Value.isNaN : Value → Bool
  | .float x => BinaryView.ofFloat x == .nan
  | .decimal d => BinaryView.ofFloat d.toFloat == .nan
  | _ => false

namespace Cell

theorem ofFloat_eq_null_iff {x : Float} : ofFloat x = .null ↔ BinaryView.ofFloat x = .nan := by
  unfold ofFloat
  split
  · rename_i h
    exact ⟨fun _ => h, fun _ => rfl⟩
  · rename_i h
    exact ⟨Cell.noConfusion, fun hx => absurd hx h⟩

end Cell

/-- Null is bound for null, and for what is not a number. -/
theorem Value.bound_eq_null_iff {v : Value} {ticks : Bool} :
    (v.toCell ticks).map Cell.bound = .ok .null ↔ v = .null ∨ v.isNaN = true := by
  have hfloat : ∀ x : Float,
    Except.map Cell.bound (.ok (.real x) : Except TypeFault Cell) = .ok .null ↔
      (BinaryView.ofFloat x == .nan) = true := fun x => by
    rw [beq_iff_eq, ← Cell.ofFloat_eq_null_iff]
    exact ⟨Except.ok.inj, congrArg Except.ok⟩
  have hcount : ∀ x : Except TypeFault Int64, (x.map Cell.integer).map Cell.bound ≠ .ok .null := by
    rintro (_ | i) hx <;> cases hx
  have hother : ∀ {p : Prop}, ¬p → ∀ {v : Value}, v ≠ .null → v.isNaN = false →
      (p ↔ v = .null ∨ v.isNaN = true) := by
    intro p hp v hv hnan
    refine ⟨fun h => absurd h hp, fun h => ?_⟩
    rcases h with h | h
    · exact absurd h hv
    · rw [hnan] at h
      cases h
  have hbound : ∀ {c : Cell}, c ≠ .null → (Except.ok c : Except TypeFault Cell) ≠ .ok .null :=
    fun h hc => h (Except.ok.inj hc)
  cases v with
  | null => exact ⟨fun _ => .inl rfl, fun _ => rfl⟩
  | float x => exact (hfloat x).trans ⟨.inr, fun h => h.resolve_left Value.noConfusion⟩
  | decimal d => exact (hfloat d.toFloat).trans ⟨.inr, fun h => h.resolve_left Value.noConfusion⟩
  | timestamp t =>
    cases ticks with
    | true => exact hother (hcount _) Value.noConfusion rfl
    | false => exact hother (hbound Cell.noConfusion) Value.noConfusion rfl
  | offsetTimestamp t => exact hother (hcount _) Value.noConfusion rfl
  | interval d => exact hother (hcount _) Value.noConfusion rfl
  | _ => exact hother (hbound Cell.noConfusion) Value.noConfusion rfl

namespace Cell

/-- Storing a cell makes no null of it, and no other cell of null. -/
theorem isNull_stored (a : Affinity) (c : Cell) : (c.stored a).isNull = c.isNull := by
  have hnumeric : (c.stored .numeric).isNull = c.isNull := by
    rw [← isNull_numericText c]
    unfold stored
    dsimp only
    split
    · rename_i x hx
      rw [hx]
      rcases integralReal_cases x with ⟨i, hi⟩ | hi
      · rw [hi]
        rfl
      · rw [hi]
    · rfl
  cases a with
  | blob => rfl
  | text => cases c <;> rfl
  | numeric => exact hnumeric
  | integer => exact hnumeric
  | real =>
    rw [← isNull_numericText c]
    unfold stored
    dsimp only
    split
    · rename_i i hi
      rw [hi]
      exact isNull_ofFloat (BinaryView.ofInt_ne_nan _)
    · rfl

end Cell

/-! ## Errors that have a record -/

namespace Mapping

variable {m : Mapping} {r : Record} {c : Column}

theorem valueOf_eq (h : r.typeName = m.typeName) (c : Column) :
    m.valueOf c r = .ok (r.content c) := if_pos h

theorem of_valueOf {v : Value} (h : m.valueOf c r = .ok v) :
    r.typeName = m.typeName ∧ v = r.content c := by
  unfold valueOf at h
  split at h
  · rename_i htype
    exact ⟨htype, (Except.ok.inj h).symm⟩
  · cases h

theorem report_eq (h : r.typeName = m.typeName) :
    m.report r = m.columns.map fun c => ⟨c.name, c.nullable, r.content c⟩ := by
  unfold report
  simp only [valueOf_eq h]

/-- An error blames a column that needs a value, with the contents of the record that lacks it. It
lists the column as one without a value, unless the content is not a number. -/
structure Blames (m : Mapping) (t : Table) (r : Record) (c : Column) (e : Error) : Prop where
  member : c ∈ m.columns
  required : c.nullable = false
  message : e.message =
    "NOT NULL constraint violation: " ++ ("NOT NULL constraint failed: " ++ (t.name ++ "." ++ c.name))
  values : e.values = some (m.columns.map r.content)
  content : r.content c = .null ∨ (r.content c).isNaN = true
  listed : c.name ∈ e.notNullColumns ↔ (r.content c).isNaN = false

theorem Sound.mem_notNullColumns (hm : m.Sound) (htype : r.typeName = m.typeName)
    (hc : c ∈ m.columns) (message : String) :
    c.name ∈ (Error.notNull message (some (m.report r))).notNullColumns ↔
      c.nullable = false ∧ r.content c = .null := by
  show c.name ∈ ((m.report r).filter fun c => !c.nullable && c.value.isNull).map ColumnReport.name ↔
    _
  rw [report_eq htype, List.filter_map, List.map_map, List.mem_map]
  constructor
  · rintro ⟨b, hb, hname⟩
    obtain ⟨hb, hlacks⟩ := List.mem_filter.mp hb
    obtain rfl := hm.eq_of_sameFolded hb hc (hname ▸ sameFolded_refl _)
    rwa [Function.comp_apply, Bool.and_eq_true, Bool.not_eq_true', Value.isNull_iff] at hlacks
  · intro hlacks
    refine ⟨c, List.mem_filter.mpr ⟨hc, ?_⟩, rfl⟩
    rwa [Function.comp_apply, Bool.and_eq_true, Bool.not_eq_true', Value.isNull_iff]

theorem Sound.blames (hm : m.Sound) (htype : r.typeName = m.typeName) (hc : c ∈ m.columns)
    (hrequired : c.nullable = false) {t : Table} {ticks : Bool}
    (hbound : ((r.content c).toCell ticks).map Cell.bound = .ok .null) {message : String}
    (hmessage : message = (EngineFault.notNull (t.name ++ "." ++ c.name)).message) :
    m.Blames t r c (.notNull message (some (m.report r))) where
  member := hc
  required := hrequired
  message := congrArg ("NOT NULL constraint violation: " ++ ·) hmessage
  values := by
    show some ((m.report r).map ColumnReport.value) = _
    rw [report_eq htype, List.map_map]
    rfl
  content := Value.bound_eq_null_iff.mp hbound
  listed := by
    rw [hm.mem_notNullColumns htype hc, and_iff_right hrequired]
    rcases Value.bound_eq_null_iff.mp hbound with hnull | hnan
    · rw [hnull]
      exact ⟨fun _ => rfl, fun _ => rfl⟩
    · refine ⟨fun h => ?_, fun h => ?_⟩
      · rw [h]
        rfl
      · rw [h] at hnan
        cases hnan

end Mapping

/-! ## Columns that are bound -/

namespace Database

variable {d : Database} {t : Table} {m : Mapping} {ticks : Bool} {imode : InsertMode}
  {c : Column} {i : Nat}

theorem Serves.exists_column (h : d.Serves m ticks t) {s : StoredColumn}
    (hs : t.columns[i]? = some s) :
    ∃ c, m.columns[i]? = some c := by
  have hi : i < m.columns.length := by
    rw [← h.mirrors.length]
    exact (List.getElem?_eq_some_iff.mp hs).1
  exact ⟨_, List.getElem?_eq_getElem hi⟩

theorem Serves.mem_boundColumns (h : d.Serves m ticks t) (hs : m.Sound) (hm : m.Placed)
    (hc : m.columns[i]? = some c) (hi : t.rowidColumn ≠ some i) : c ∈ m.boundColumns imode := by
  have hmem := List.mem_of_getElem? hc
  by_cases hauto : c.autoIncrement = true
  · have hiskey := hs.counts c hmem hauto
    obtain ⟨key, hkey⟩ := Option.isSome_iff_exists.mp (List.find?_isSome.mpr ⟨c, hmem, hiskey⟩)
    obtain rfl := hm.eq_key hkey hmem hiskey
    cases h.key i (hm.place_key hkey hc) with
    | number hrowid => exact absurd hrowid hi
    | index _ hno =>
      rw [hno c hc] at hauto
      cases hauto
  · exact mem_bound hmem (Bool.eq_false_of_not_eq_true hauto)

/-- A row to be stored that misses its value has been given none: the column is blamed with the
contents of the record that were bound. -/
theorem Serves.blames (h : d.Serves m ticks t) (hs : m.Sound) (hr : t.Requires m.columns)
    {draft : Draft} {fault : EngineFault} {s : StoredColumn} (hmisses : draft.Misses t fault i s)
    (hc : m.columns[i]? = some c) {r : Record} {x : Cell}
    (hx : r.typeName = m.typeName ∧ ((r.content c).toCell ticks).map Cell.bound = .ok x)
    {a : Affinity} (hcell : draft.cells[i]? = some (x.stored a)) {message : String}
    (hmessage : message = fault.message) :
    m.Blames t r c (.notNull message (some (m.report r))) := by
  have hnull : (x.stored a).isNull = true := by
    rw [show x.stored a = .null by simpa only [hcell, Option.getD_some] using hmisses.null]
    rfl
  rw [Cell.isNull_stored, Cell.isNull_iff] at hnull
  subst hnull
  obtain ⟨s', hs', hserves⟩ := h.mirrors.column hc
  obtain rfl := Option.some.inj (hs'.symm.trans hmisses.column)
  refine hs.blames hx.1 (List.mem_of_getElem? hc) (hr.required hmisses.column hc hmisses.wanted) hx.2 ?_
  rw [hmessage, hmisses.fault, hserves.name]

end Database

/-- What is bound for columns are the cells of the contents of a record of the mapping's type, with
null for what is not a number. -/
theorem Record.bound_of_stored {r : Record} {m : Mapping} {ticks : Bool} {columns : List Column}
    {values : List Value} {cells : List Cell}
    (hv : List.Forall₂ (fun c v => m.valueOf c r = .ok v) columns values)
    (hs : Stored ticks (values.map .scalar) cells) :
    List.Forall₂ (fun c x => r.typeName = m.typeName ∧ ((r.content c).toCell ticks).map Cell.bound = .ok x)
      columns cells := by
  induction hv generalizing cells with
  | nil =>
    cases hs
    exact .nil
  | @cons c v columns values hv _ ih =>
    obtain _ | ⟨hcell, hs⟩ := hs
    obtain ⟨htype, rfl⟩ := Mapping.of_valueOf hv
    exact .cons ⟨htype, hcell⟩ (ih hs)

/-! ## Steps that report no violated constraint -/

namespace Action

variable {σ τ α β : Type}

/-- A step that reports no violated constraint, whatever else it reports. -/
def Spares (x : Action σ α) : Prop :=
  ∀ s message record t, x s ≠ (.error (.notNull message record), t)

theorem Spares.bind {x : Action σ α} {f : α → Action σ β} (hx : x.Spares) (hf : ∀ a, (f a).Spares) :
    (x >>= f).Spares := by
  intro s message record t h
  rcases of_bind_error h with h | ⟨a, u, -, h⟩
  · exact hx s message record t h
  · exact hf a u message record t h

theorem Spares.get_bind {f : σ → Action σ β} (hf : ∀ s, (f s).Spares) :
    ((get : Action σ σ) >>= f).Spares :=
  fun s => hf s s

theorem spares_of_ok {x : Action σ α} (h : ∀ s, ∃ a, (x s).1 = .ok a) : x.Spares := by
  intro s message record t hx
  obtain ⟨a, ha⟩ := h s
  rw [hx] at ha
  cases ha

theorem spares_ofExcept {x : Except Error α}
    (h : ∀ message record, x ≠ .error (.notNull message record)) :
    (Action.ofExcept x : Action σ α).Spares :=
  fun _ message record _ hx => h message record (Prod.mk.inj hx).1

theorem Spares.first {x : Action σ α} (hx : x.Spares) : (x.first : Action (σ × τ) α).Spares := by
  rintro ⟨s, t⟩ message record ⟨u, v⟩ h
  obtain ⟨hfails, hrest⟩ := Prod.mk.inj h
  exact hx s message record u (Prod.ext hfails (Prod.mk.inj hrest).1)

end Action

namespace Mapping

variable {m : Mapping} {c : Column} {r : Record} {message : String}
  {record : Option (List ColumnReport)}

theorem valueOf_ne_notNull : m.valueOf c r ≠ .error (.notNull message record) := by
  intro h
  unfold valueOf at h
  split at h <;> cases h

theorem assign_ne_notNull {v : Value} : m.assign c r v ≠ .error (.notNull message record) := by
  intro h
  unfold assign at h
  split at h
  · split at h <;> cases h
  · cases h

theorem valuesOf_ne_notNull {columns : List Column} :
    m.valuesOf columns r ≠ .error (.notNull message record) := by
  intro h
  obtain ⟨c, -, hc⟩ := error_of_mapM h
  exact valueOf_ne_notNull hc

theorem of_attach {e : Error} (h : m.attach r e = .notNull message record) :
    record = some (m.report r) ∧ ∃ inner, e = .notNull message inner := by
  unfold attach at h
  split at h
  · cases h
    exact ⟨rfl, _, rfl⟩
  · rename_i hother
    exact absurd h (hother message record)

end Mapping

namespace Session

open RecordMapper.Action

variable {alone : Bool} {s t : Session} {d : Declaration} {mode : InsertMode} {r r' : Record}
  {message : String} {record : Option (List ColumnReport)}

theorem spares_mapping (d : Declaration) : (mapping d).Spares := by
  intro s message record t h
  obtain ⟨fault, hfault⟩ := schema_of_mapping_error (congrArg Prod.fst h)
  cases hfault

theorem spares_assignIdentifier (m : Mapping) : (assignIdentifier m).Spares := by
  unfold assignIdentifier
  split
  · exact spares_of_ok fun _ => ⟨(), rfl⟩
  · refine .get_bind fun x => ?_
    refine (spares_ofExcept fun _ _ => Mapping.valueOf_ne_notNull).bind fun v => ?_
    split
    · refine (Spares.first (spares_of_ok fun s => ⟨_, rfl⟩)).bind fun u => ?_
      refine (spares_ofExcept fun _ _ => Mapping.assign_ne_notNull).bind fun r => ?_
      exact spares_of_ok fun _ => ⟨_, rfl⟩
    · exact spares_of_ok fun _ => ⟨(), rfl⟩

theorem spares_prepareInsert (d : Declaration) (mode : InsertMode) :
    (prepareInsert d mode).Spares := by
  unfold prepareInsert
  refine (spares_mapping d).first.bind fun m => ?_
  refine (spares_assignIdentifier m).bind fun _ => ?_
  refine .get_bind fun x => ?_
  refine (spares_ofExcept fun _ _ => Mapping.valuesOf_ne_notNull).bind fun values => ?_
  refine (Spares.first (spares_of_ok fun s => ⟨_, rfl⟩)).bind fun command => ?_
  exact spares_of_ok fun _ => ⟨_, rfl⟩

theorem spares_writeBackKey (m : Mapping) : (writeBackKey m).Spares := by
  rintro ⟨s, r⟩ message record t h
  rcases writeBackKey_apply m s r with hw | ⟨key, e, -, -, ha, hw⟩
  · rw [hw] at h
    cases h
  · rw [hw] at h
    obtain ⟨he, -⟩ := Prod.mk.inj h
    exact Mapping.assign_ne_notNull (ha.trans (congrArg Except.error (Except.error.inj he)))

theorem of_insertWith_notNull (h : insertWith d mode (s, r) = (.error (.notNull message record), t, r')) :
    ∃ m command values u inner, prepareInsert d mode (s, r) = (.ok (m, command, values), u, r') ∧
      executeText command.text values u = (.error (.notNull message inner), t) ∧
      record = some (m.report r') := by
  unfold insertWith at h
  rcases of_bind_error h with h | ⟨⟨m, command, values⟩, ⟨u, r₁⟩, hprepare, h⟩
  · exact absurd h (spares_prepareInsert d mode _ _ _ _)
  dsimp only at h
  rw [get_bind] at h
  dsimp only at h
  rcases of_bind_error h with h | ⟨n, ⟨v, r₂⟩, -, h⟩
  · rw [first_apply, mapError_apply] at h
    obtain ⟨he, hrest⟩ := Prod.mk.inj h
    obtain ⟨rfl, rfl⟩ := Prod.mk.inj hrest
    dsimp only at he
    rcases hx : executeText command.text values u with ⟨e | n, w⟩
    · rw [hx] at he
      obtain ⟨rfl, inner, rfl⟩ := Mapping.of_attach (Except.error.inj he)
      exact ⟨m, command, values, u, inner, hprepare, hx, rfl⟩
    · rw [hx] at he
      cases he
  · split at h
    · rcases of_bind_error h with h | ⟨_, _, -, h⟩
      · exact absurd h (spares_writeBackKey m _ _ _ _)
      · cases h
    · cases h

theorem blames_of_insertWith {types : RecordTypes} {requests : List Request}
    {name : String} {m : Mapping} {table : Table} (hs : s.Usable alone) (hc : s.Current)
    (hmemory : s.memory.Agrees types requests) (hm : (mapping (types.describe name) s).1 = .ok m)
    (hsound : m.Sound) (hplaced : m.Placed) (hne : m.columns ≠ [])
    (hserves : s.nesting.rows.Serves m s.connection.settings.ticks table)
    (hrequires : table.Requires m.columns)
    (h : insertWith (types.describe name) mode (s, r) = (.error (.notNull message record), t, r')) :
    ∃ c, m.Blames table r' c (.notNull message record) := by
  obtain ⟨m', command, values, u, inner, hp, hexecute, rfl⟩ := of_insertWith_notNull h
  obtain ⟨hm', -, hvalues, -⟩ := of_prepareInsert hp
  obtain rfl := Except.ok.inj (hm'.symm.trans hm)
  have hquiet := quiet_prepareInsert (types.describe name) mode s r
  rw [hp] at hquiet
  have hsettings : u.connection.settings = s.connection.settings := settings_of_prepareInsert hp
  have hvalues := valuesOf_forall₂ hvalues
  obtain ⟨marks, ps, hread, hlen, hbound⟩ :=
    m'.readsAs_insertRow (hplaced.of_boundColumns_nil hsound hne)
  have hmode := mode.undoes_conflict
  obtain ⟨cells, draft, fault, i, stored, hstored, hmisses, hmessage, hcell⟩ :=
    misses_of_executeText_insertRow (hquiet.stays hs).usable (hquiet.current hc)
      (text_of_prepareInsert hmemory hp ▸ hread) (by rw [hlen, List.length_map]) hbound
      (hquiet.nesting.symm ▸ hserves.table)
      (hserves.isSome_columnPlace? hsound mode) hmode.1 hmode.2
      hserves.fallback hrequires.unchecked (by rw [List.length_map, hvalues.length_eq]) hexecute
  rw [hsettings] at hstored
  obtain ⟨c, hci⟩ := hserves.exists_column hmisses.column
  rcases hserves.mirrors.given hsound (fun b hb => Database.bound_subset hb)
    (Record.bound_of_stored hvalues hstored)
    hci with ⟨hunbound, -⟩ | ⟨x, hx, hgiven⟩
  · exact absurd (hserves.mem_boundColumns hsound hplaced hci hmisses.numbered) hunbound
  · rw [hgiven] at hcell
    exact ⟨c, hserves.blames hsound hrequires hmisses hci hx hcell hmessage⟩

theorem blames_of_update {types : RecordTypes} {name : String} {m : Mapping} {table : Table}
    (hs : s.Usable alone) (hc : s.Current) (hm : (mapping (types.describe name) s).1 = .ok m)
    (hsound : m.Sound) (hplaced : m.Placed)
    (hserves : s.nesting.rows.Serves m s.connection.settings.ticks table)
    (hrequires : table.Requires m.columns) (hwhole : table.Whole)
    (h : update (types.describe name) r s = (.error (.notNull message record), t)) :
    ∃ c, m.Blames table r c (.notNull message record) := by
  cases hkey : m.key? with
  | none =>
    obtain ⟨fault, hupdate⟩ := update_keyless (d := types.describe name) (s := s)
      (fun m' hm' => by rwa [← Except.ok.inj (hm.symm.trans hm')]) r
    rw [hupdate] at h
    cases h
  | some key =>
    have hmem := (Mapping.mem_of_key? hkey).1
    obtain ⟨i, hi⟩ := List.getElem?_of_mem hmem
    have hplace : ∀ {c j}, c ∈ m.columns → m.columns[j]? = some c →
        table.columnPlace? c.name = some j :=
      fun hc hj => (hserves.mirrors.columnPlace?_iff hsound hc hj).mpr rfl
    cases hvalues : m.valuesOf (m.updateColumns ++ [key]) r with
    | error e =>
      rw [update_values_error hm hkey hvalues] at h
      cases h
      exact absurd hvalues Mapping.valuesOf_ne_notNull
    | ok values =>
      rw [update_apply hm hkey hvalues] at h
      obtain ⟨own, v, hown, -, rfl⟩ := forall₂_concat (valuesOf_forall₂ hvalues)
      have hquiet := quiet_mapping (types.describe name) s
      have hsettings := (mapping_keeps (types.describe name) s).1
      rcases hx : executeText (m.updateStatement key) (own ++ [v])
        (mapping (types.describe name) s).2 with ⟨e | n, u⟩
      · rw [hx] at h
        obtain ⟨rfl, inner, rfl⟩ := Mapping.of_attach (Except.error.inj (Prod.mk.inj h).1)
        obtain ⟨bound, cells, draft, fault, j, stored, hstored, hlen, hcells, ⟨b, hb, htarget⟩,
          hmisses, hmessage⟩ :=
          misses_of_executeText_update (hquiet.stays hs).usable (hquiet.current hc)
            (hplaced.updateColumns_ne_nil hkey) (hquiet.nesting.symm ▸ hserves.table)
            (fun c hc => by
              obtain ⟨j, hj⟩ := List.getElem?_of_mem (Mapping.updateColumns_subset hc)
              rw [hplace (Mapping.updateColumns_subset hc) hj]
              rfl)
            (hplace hmem hi) hserves.fallback hrequires.unchecked hwhole hown.length_eq.symm hx
        rw [hsettings] at hstored
        obtain ⟨c, hci⟩ := hserves.exists_column hmisses.column
        obtain rfl := (hserves.mirrors.target_iff hsound (Mapping.updateColumns_subset hb) hci hmisses.numbered).mp
          htarget
        have hlt : j < cells.length := by
          rw [hlen]
          exact (List.getElem?_eq_some_iff.mp hmisses.column).1
        rcases hserves.mirrors.overwritten hsound (fun b hb => Mapping.updateColumns_subset hb)
          (Record.bound_of_stored hown hstored) hci hmisses.numbered hmisses.column hlt with
          ⟨hunset, -⟩ | ⟨-, x, hx, hwritten⟩
        · exact absurd hb hunset
        · rw [← hcells] at hwritten
          exact ⟨b, hserves.blames hsound hrequires hmisses hci hx hwritten hmessage⟩
      · rw [hx] at h
        cases h

/-- **A violated constraint blames a column that needs a value.** A creation made the table for the
mapping of a record type, whose collations the engine knows. An insert in either mode, or an update,
that reports a violated constraint carries a content for each mapped column. The column that the
engine reported may not be null, and its content is null or not a number. The error lists the column
if the content is null; not a number is bound as null too, but it is not listed. -/
theorem blames_of_notNull {types : RecordTypes} {requests : List Request}
    {name : String} {m : Mapping} {table : Table} (hs : s.Usable alone) (hc : s.Current)
    (hmemory : s.memory.Agrees types requests) (hm : (mapping (types.describe name) s).1 = .ok m)
    (hcreated : s.CreatedFor (types.describe name) m table)
    (hcollations : ∀ c ∈ m.columns, ∀ collation, c.collation = some collation →
      (Collation.named? collation).isSome = true) :
    (∀ mode r message record t r',
      insertWith (types.describe name) mode (s, r) = (.error (.notNull message record), t, r') →
        ∃ c, m.Blames table r' c (.notNull message record)) ∧
    (table.Whole → ∀ r message record t,
      update (types.describe name) r s = (.error (.notNull message record), t) →
        ∃ c, m.Blames table r c (.notNull message record)) := by
  have hdecided := (Call.requested_iff hmemory s.connection.settings.conventions name m).mp hm
  obtain ⟨-, hsound⟩ := RecordTypes.of_decided? hdecided
  obtain ⟨_, hbuild⟩ := RecordTypes.built_of_decided? hdecided
  have hplaced := Mapping.placed_of_build hbuild
  have hdeclarable : ∀ c ∈ m.columns, c.Declarable :=
    fun c hc => ⟨hsound.counts c hc, hcollations c hc⟩
  obtain ⟨hne, hrequires⟩ := hcreated.requires hdeclarable (Mapping.required_of_isKey hbuild)
  have hserves := hcreated.serves hdeclarable hne
  exact ⟨fun _ _ _ _ _ _ => blames_of_insertWith hs hc hmemory hm hsound hplaced hne hserves hrequires,
    fun hwhole _ _ _ _ => blames_of_update hs hc hm hsound hplaced hserves hrequires hwhole⟩

/-! ### Notes with a score -/

/-- Notes with a key and a score that has to be there. -/
def scores : RecordTypes where
  describe name := ⟨name, name, false, [⟨"Id", none, ⟨.plain .int64, false⟩, [.primaryKey], .int 0⟩,
    ⟨"Score", none, ⟨.plain .float64, true⟩, [.notNull], .null⟩], []⟩
  named _ := rfl

def scoresMapping : Mapping :=
  ⟨scores.describe "Note", [⟨"Id", "Id", ⟨.plain .int64, false⟩, false, none, none, true, false, false, [], 0⟩,
    ⟨"Score", "Score", ⟨.plain .float64, true⟩, false, none, none, false, false, false, [], 1⟩]⟩

/-- The session in which their table was created, with one note. -/
def scored : Session := stocked (opened scores "Note").2 [⟨1, [.integer 1, .real 0.5]⟩]

def aScore (key : Int64) (score : Value) : Record := ⟨"Note", [.int key, score]⟩

def noScore (r : Record) : Error :=
  .notNull "NOT NULL constraint failed: Note.Score" (some (scoresMapping.report r))

theorem scores_created : (Mapping.build .silent (scores.describe "Note")).toOption =
    some scoresMapping ∧
    (opened scores "Note").1.toOption = some .created ∧
    ((opened scores "Note").2.nesting.rows.tables.map fun t => (t.name, t.rows.isEmpty)) =
      [("Note", true)] := by
  decide +kernel

theorem scored_refuses :
    (insertWith (scores.describe "Note") .plain (scored, aScore 2 .null)).1 =
      .error (noScore (aScore 2 .null)) ∧
    (insertWith (scores.describe "Note") .plain (scored, aScore 2 .null)).2.2 = aScore 2 .null ∧
    (update (scores.describe "Note") (aScore 1 .null) scored).1 =
      .error (noScore (aScore 1 .null)) ∧
    (noScore (aScore 1 .null)).notNullColumns = ["Score"] ∧
    (scored.nesting.rows.tables.map fun t => t.columns.length) = [2] := by
  decide +kernel

theorem ends_of_parts {x : Except Error Int × Session × Record} {result : Except Error Int}
    (h : x.1 = result) (hr : x.2.2 = r) : x = (result, x.2.1, r) := Prod.ext h (Prod.ext rfl hr)

theorem ends_of_result {x : Except Error Int × Session} {result : Except Error Int}
    (h : x.1 = result) :
    x = (result, x.2) := Prod.ext h rfl

/-- A note without a score is refused, whether it is inserted or updated, and the score is
listed. -/
theorem blames_of_notNull_scores :
    ∃ table c c', Opened scores "Note" scoresMapping table scored ∧ table.Whole ∧
    (insertWith (scores.describe "Note") .plain (scored, aScore 2 .null)).1 =
      .error (noScore (aScore 2 .null)) ∧
    scoresMapping.Blames table (aScore 2 .null) c (noScore (aScore 2 .null)) ∧
    (update (scores.describe "Note") (aScore 1 .null) scored).1 =
      .error (noScore (aScore 1 .null)) ∧
    scoresMapping.Blames table (aScore 1 .null) c' (noScore (aScore 1 .null)) ∧
    (noScore (aScore 1 .null)).notNullColumns = ["Score"] := by
  obtain ⟨hbuild, hcreated, htables⟩ := scores_created
  obtain ⟨hinsert, hrecord, hupdate, hlisted, hwidth⟩ := scored_refuses
  obtain ⟨table, h, hrows⟩ : ∃ table, Opened scores "Note" scoresMapping table scored ∧
    table.rows = [⟨1, [.integer 1, .real 0.5]⟩] :=
      exists_stocked (ok_of_toOption hbuild) hcreated htables _
  rw [h.tables] at hwidth
  have hwidth : table.columns.length = 2 := (List.cons.inj hwidth).1
  have hwhole : table.Whole := fun r hr => by
    rw [hrows] at hr
    rw [List.mem_singleton.mp hr, hwidth]
    rfl
  obtain ⟨hinserts, hupdates⟩ :=
    blames_of_notNull h.usable h.current h.agrees h.mapped h.created (by decide)
  obtain ⟨c, hc⟩ := hinserts _ _ _ _ _ _ (ends_of_parts hinsert hrecord)
  obtain ⟨c', hc'⟩ := hupdates hwhole _ _ _ _ (ends_of_result hupdate)
  exact ⟨table, c, c', h, hwhole, hinsert, hc, hupdate, hc', hlisted⟩

def noNumber : Record := aScore 2 (.float (0.0 / 0.0))

theorem scored_refuses_noNumber :
    (insertWith (scores.describe "Note") .plain (scored, noNumber)).1 = .error (noScore noNumber) ∧
    (insertWith (scores.describe "Note") .plain (scored, noNumber)).2.2 = noNumber ∧
    (noScore noNumber).notNullColumns = [] := by
  decide +kernel

/-- The column that the engine reports is not always listed: what is not a number is bound as null,
and the record has it as it is. -/
theorem not_always_blamed : ¬ ∀ {types : RecordTypes} {requests : List Request}
    {name : String} {m : Mapping} {table : Table} {s t : Session} {mode : InsertMode}
    {r r' : Record} {message : String} {record : Option (List ColumnReport)}, s.Usable true →
    s.Current → s.memory.Agrees types requests →
    (mapping (types.describe name) s).1 = .ok m → s.CreatedFor (types.describe name) m table →
    insertWith (types.describe name) mode (s, r) = (.error (.notNull message record), t, r') →
    ∃ c ∈ m.columns, message = (EngineFault.notNull (table.name ++ "." ++ c.name)).message ∧
      c.name ∈ (Error.notNull message record).notNullColumns := by
  intro hall
  obtain ⟨hbuild, hcreated, htables⟩ := scores_created
  obtain ⟨hinsert, hrecord, hlisted⟩ := scored_refuses_noNumber
  obtain ⟨table, h, -⟩ : ∃ table, Opened scores "Note" scoresMapping table scored ∧
    table.rows = [⟨1, [.integer 1, .real 0.5]⟩] :=
      exists_stocked (ok_of_toOption hbuild) hcreated htables _
  obtain ⟨c, -, -, hmem⟩ :=
    hall h.usable h.current h.agrees h.mapped h.created (ends_of_parts hinsert hrecord)
  have hnone : c.name ∈ (noScore noNumber).notNullColumns := hmem
  rw [hlisted] at hnone
  cases hnone

end Session

end RecordMapper
