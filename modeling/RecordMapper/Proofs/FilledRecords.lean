import RecordMapper.Proofs.Remembering
import RecordMapper.Proofs.RoundTrips

/-!
# Records that an insert fills in

An insert changes at most the key of a record: it gives an identifier to an empty key before, or the
number of the row to a counting key after.

1. `Mapping.Placed`: the columns of a mapping stand for fields of their own.
2. `Record.Conforms`: the fields of a record hold its contents.
3. `Session.of_insertWith`: what an insert that comes to its end makes of a record.
-/

namespace RecordMapper

/-! ## Places of columns -/

namespace Mapping

/-- The columns of a mapping that was built: they stand for fields of their own, at most one is the
key, and keys that are filled in have the type that this takes. -/
structure Placed (m : Mapping) : Prop where
  fields : m.columns.Pairwise fun a b => a.field < b.field
  within : ∀ c ∈ m.columns, c.field < m.record.fields.length
  single : (m.columns.filter Column.isKey).length ≤ 1
  counted : ∀ c ∈ m.columns, c.autoIncrement = true → c.dataType.isInteger = true
  identified : ∀ c ∈ m.columns, c.autoIdentifier = true → c.dataType = .uuid

/-- Every mapping that is built has its columns at places of their own. -/
theorem placed_of_build {conventions : Conventions} {d : Declaration} {m : Mapping}
    (h : build conventions d = .ok m) : m.Placed := by
  obtain ⟨rfl, hcolumns, hkeys, -⟩ := of_build h
  obtain ⟨hall, hmap⟩ := of_mapM hcolumns
  have hcolumn : ∀ c ∈ m.columns, ∃ x ∈ storedFields m.record, c.field = x.2 ∧
      (c.autoIncrement = true → c.dataType.isInteger = true) ∧
      (c.autoIdentifier = true → c.dataType = .uuid) := by
    intro c hc
    rw [hmap] at hc
    obtain ⟨x, hx, rfl⟩ := List.mem_map.mp hc
    obtain ⟨hof, -, hcounts⟩ := of_column (hall x hx)
    rw [hof]
    exact ⟨x, hx, rfl, fun ha => (hcounts ha).2,
      fun ha => beq_iff_eq.mp (Bool.and_eq_true_iff.mp ha).2⟩
  have hplaces : (storedFields m.record).Pairwise fun x y => x.2 < y.2 := by
    refine List.Pairwise.filter _ (List.pairwise_map.mp ?_)
    rw [List.zipIdx_map_snd]
    exact List.pairwise_lt_range'
  refine ⟨?_, fun c hc => ?_, hkeys, fun c hc => ?_, fun c hc => ?_⟩
  · rw [hmap]
    refine List.pairwise_map.mpr (hplaces.imp_of_mem fun ha hb hab => ?_)
    rw [(of_column (hall _ ha)).1, (of_column (hall _ hb)).1]
    exact hab
  · obtain ⟨x, hx, hfield, -⟩ := hcolumn c hc
    rw [hfield]
    exact List.snd_lt_of_mem_zipIdx (List.mem_of_mem_filter hx)
  · obtain ⟨x, -, -, hcounted, -⟩ := hcolumn c hc
    exact hcounted
  · obtain ⟨x, -, -, -, hidentified⟩ := hcolumn c hc
    exact hidentified

theorem Placed.eq_of_field {m : Mapping} (h : m.Placed) {a b : Column} (ha : a ∈ m.columns)
    (hb : b ∈ m.columns) (hab : a.field = b.field) : a = b := by
  have hsymm : Std.Symm fun a b : Column => a.field ≠ b.field := ⟨fun a b h => h.symm⟩
  by_contra hne
  exact (h.fields.imp fun h => Nat.ne_of_lt h).forall ha hb hne hab

theorem mem_of_key? {m : Mapping} {key : Column} (h : m.key? = some key) :
    key ∈ m.columns ∧ key.isKey = true :=
  ⟨List.mem_of_find?_eq_some h, List.find?_some h⟩

theorem Placed.eq_key {m : Mapping} (h : m.Placed) {key c : Column} (hkey : m.key? = some key)
    (hc : c ∈ m.columns) (hk : c.isKey = true) : c = key := by
  obtain ⟨hmem, hiskey⟩ := mem_of_key? hkey
  have hone := h.single
  have hc' := List.mem_filter.mpr ⟨hc, hk⟩
  have hkey' := List.mem_filter.mpr ⟨hmem, hiskey⟩
  generalize m.columns.filter Column.isKey = keys at hone hc' hkey'
  rcases keys with _ | ⟨k, _ | ⟨k', rest⟩⟩
  · cases hc'
  · rw [List.mem_singleton.mp hc', List.mem_singleton.mp hkey']
  · simp at hone

theorem Placed.place_key {m : Mapping} (hm : m.Placed) {key : Column}
    (hkey : m.key? = some key) {i : Nat} (hc : m.columns[i]? = some key) :
    m.columns.findIdx? Column.isKey = some i := by
  obtain ⟨hi, hget⟩ := List.getElem?_eq_some_iff.mp hc
  rw [List.findIdx?_eq_some_iff_getElem]
  refine ⟨hi, hget ▸ (mem_of_key? hkey).2, fun j hj hk => ?_⟩
  have hsame : m.columns[j] = key := hm.eq_key hkey (List.getElem_mem _) hk
  have hlt := List.pairwise_iff_getElem.mp hm.fields j i (hj.trans hi) hi hj
  rw [hsame, hget] at hlt
  exact Nat.lt_irrefl _ hlt

theorem Placed.within_blank {m : Mapping} (hm : m.Placed) {c : Column} (hc : c ∈ m.columns) :
    c.field < m.record.blank.contents.length := by
  have hfield := hm.within c hc
  unfold Declaration.blank
  rw [List.length_append, List.length_map]
  exact Nat.lt_add_right _ hfield

end Mapping

/-! ## Contents of records -/

namespace Record

def content (r : Record) (c : Column) : Value := r.contents[c.field]?.getD .null

/-- The record with another content of a column's field. -/
def fill (r : Record) (c : Column) (v : Value) : Record :=
  { r with contents := r.contents.set c.field v }

/-- A record of the type of a mapping whose fields carry its contents. -/
structure Suits (r : Record) (m : Mapping) : Prop where
  type : r.typeName = m.typeName
  carries : ∀ c ∈ m.columns, c.type.Carries (r.content c)

/-- A record of the type of a mapping whose fields hold its contents. -/
structure Conforms (r : Record) (m : Mapping) (ticks : Bool) : Prop where
  type : r.typeName = m.typeName
  whole : r.contents.length = m.record.blank.contents.length
  holds : ∀ c ∈ m.columns, c.type.Holds ticks (r.content c)

variable {r : Record} {m : Mapping} {ticks : Bool} {c c' : Column} {v : Value}

theorem content_fill (h : c.field < r.contents.length) : (r.fill c v).content c = v := by
  unfold content fill
  rw [List.getElem?_set_self h]
  rfl

theorem content_fill_other (h : c.field ≠ c'.field) : (r.fill c v).content c' = r.content c' := by
  unfold content fill
  rw [List.getElem?_set_ne h]

theorem fill_content (h : c.field < r.contents.length) : r.fill c (r.content c) = r := by
  unfold content fill
  rw [List.getElem?_eq_getElem h, Option.getD_some, List.set_getElem_self]

theorem fill_fill {w : Value} : (r.fill c v).fill c w = r.fill c w := by
  unfold fill
  rw [List.set_set]

/-! ### Contents of several columns -/

section Several

variable {cs : List Column} {v : Column → Value}

/-- The record with other contents of some columns' fields. -/
def fillAll (r : Record) (cs : List Column) (v : Column → Value) : Record :=
  cs.foldl (fun r c => r.fill c (v c)) r

theorem typeName_fillAll : (r.fillAll cs v).typeName = r.typeName := by
  unfold fillAll
  induction cs generalizing r with
  | nil => rfl
  | cons c rest ih => exact ih

/-- Fields of other columns stay as they are. -/
theorem getElem?_fillAll {i : Nat} (h : ∀ c ∈ cs, c.field ≠ i) :
    (r.fillAll cs v).contents[i]? = r.contents[i]? := by
  unfold fillAll
  induction cs generalizing r with
  | nil => rfl
  | cons c rest ih =>
    refine (ih fun c hc => h c (List.mem_cons_of_mem _ hc)).trans ?_
    exact List.getElem?_set_ne (h c List.mem_cons_self)

/-- Columns of different fields get their contents. -/
theorem content_fillAll (h : cs.Pairwise fun a b => a.field < b.field)
    (hin : ∀ c ∈ cs, c.field < r.contents.length) (hc : c ∈ cs) :
    (r.fillAll cs v).content c = v c := by
  induction cs generalizing r with
  | nil => cases hc
  | cons b rest ih =>
    obtain ⟨hb, hrest⟩ := List.pairwise_cons.mp h
    rcases List.mem_cons.mp hc with rfl | hc
    · have hother : ((r.fill c (v c)).fillAll rest v).contents[c.field]? =
          (r.fill c (v c)).contents[c.field]? :=
            getElem?_fillAll fun b' hb' => Nat.ne_of_gt (hb b' hb')
      show (((r.fill c (v c)).fillAll rest v).contents[c.field]?).getD .null = _
      rw [hother]
      exact content_fill (hin c List.mem_cons_self)
    · refine ih hrest (fun c hc => ?_) hc
      show _ < (r.contents.set _ _).length
      rw [List.length_set]
      exact hin c (List.mem_cons_of_mem _ hc)

end Several

theorem Conforms.within (h : r.Conforms m ticks) (hm : m.Placed) (hc : c ∈ m.columns) :
    c.field < r.contents.length := h.whole ▸ hm.within_blank hc

theorem Conforms.suits (h : r.Conforms m ticks) : r.Suits m :=
  ⟨h.type, fun c hc => (h.holds c hc).carries⟩

theorem Suits.valueOf (h : r.Suits m) (c : Column) : m.valueOf c r = .ok (r.content c) := by
  unfold Mapping.valueOf
  rw [if_pos h.type]
  rfl

/-- A record conforms with another content that the field holds. -/
theorem Conforms.fill (h : r.Conforms m ticks) (hm : m.Placed) (hc : c ∈ m.columns)
    (hv : c.type.Holds ticks v) : (r.fill c v).Conforms m ticks where
  type := h.type
  whole := (List.length_set ..).trans h.whole
  holds b hb := by
    by_cases hfield : c.field = b.field
    · rw [← hm.eq_of_field hc hb hfield, content_fill (h.within hm hc)]
      exact hv
    · rw [content_fill_other hfield]
      exact h.holds b hb

end Record

/-! ## Keys that are filled in -/

namespace FieldType

variable {t : FieldType}

theorem take_uuid (h : t.dataType = .uuid) (ticks : Bool) (u : Uuid) :
    t.take (.uuid u) = .ok (.uuid u) ∧ t.Holds ticks (.uuid u) := by
  obtain ⟨content, optional⟩ := t
  have htake : FieldType.take ⟨content, optional⟩ (.uuid u) = content.take (.uuid u) := by
    cases optional <;> rfl
  rw [htake]
  cases content with
  | enumeration e => cases h
  | plain type =>
    obtain rfl : type = .uuid := h
    exact ⟨rfl, .inr (.uuid u)⟩

theorem of_take_int (h : t.dataType.isInteger = true) (ticks : Bool) {i : Int64} {v : Value}
    (hv : t.take (.int i) = .ok v) : v = .int i ∧ t.Holds ticks (.int i) := by
  obtain ⟨content, optional⟩ := t
  have hcontent : FieldType.take ⟨content, optional⟩ (.int i) = content.take (.int i) := by
    cases optional <;> rfl
  rw [hcontent] at hv
  cases content with
  | enumeration e => cases h
  | plain type =>
    have hinteger : type.isInteger = true := h
    have htake : Content.take (.plain type) (.int i) = Value.inRange i type := by
      cases type <;> first | rfl | cases hinteger
    rw [htake] at hv
    unfold Value.inRange at hv
    split at hv
    · rename_i hrange
      cases hv
      exact ⟨rfl, .inr (.int hinteger hrange)⟩
    · cases hv

end FieldType

theorem Mapping.of_assign {m : Mapping} {c : Column} {r r' : Record} {v : Value}
    (h : m.assign c r v = .ok r') : ∃ content, c.type.take v = .ok content ∧
    r' = r.fill c content := by
  unfold assign at h
  split at h
  · split at h
    · rename_i content hcontent
      cases h
      exact ⟨content, hcontent, rfl⟩
    · cases h
  · cases h

namespace Session

open RecordMapper.Action

variable {s t : Session} {m : Mapping} {r r' : Record}

theorem of_assignIdentifier (h : assignIdentifier m (s, r) = (.ok (), t, r')) :
    r' = r ∨ ∃ key u, m.key? = some key ∧ key.autoIdentifier = true ∧
      m.assign key r (.uuid u) = .ok r' := by
  unfold assignIdentifier at h
  cases hkey : m.key?.filter Column.autoIdentifier with
  | none =>
    rw [hkey] at h
    cases h
    exact .inl rfl
  | some key =>
    rw [hkey] at h
    simp only at h
    rw [get_bind] at h
    obtain ⟨v, ⟨s₁, r₁⟩, hv, h⟩ := of_bind_ok h
    obtain ⟨-, hv⟩ := Prod.mk.inj hv
    obtain ⟨rfl, rfl⟩ := Prod.mk.inj hv
    split at h
    · obtain ⟨u, ⟨s₂, r₂⟩, hu, h⟩ := of_bind_ok h
      rw [first_apply] at hu
      obtain ⟨-, hu⟩ := Prod.mk.inj hu
      obtain ⟨-, rfl⟩ := Prod.mk.inj hu
      obtain ⟨r₃, ⟨s₃, r₄⟩, ha, h⟩ := of_bind_ok h
      obtain ⟨ha, -⟩ := Prod.mk.inj ha
      cases h
      obtain ⟨hkey, hauto⟩ := Option.filter_eq_some_iff.mp hkey
      exact .inr ⟨key, u, hkey, hauto, ha⟩
    · cases h
      exact .inl rfl

theorem of_writeBackKey (h : writeBackKey m (s, r) = (.ok (), t, r')) :
    t = s ∧ ∀ key, m.key? = some key → if key.autoIncrement then
      m.assign key r (.int (Int64.ofInt s.lastRowid)) = .ok r' else r' = r := by
  unfold writeBackKey Mapping.hasAutoIncrementKey at h
  cases hkey : m.key? with
  | none =>
    rw [hkey] at h
    cases h
    exact ⟨rfl, fun _ hk => absurd hk.symm (Option.some_ne_none _)⟩
  | some key =>
    rw [hkey] at h
    simp only at h
    by_cases hauto : key.autoIncrement = true
    · rw [if_pos hauto, get_bind] at h
      obtain ⟨r₁, ⟨s₁, r₂⟩, ha, h⟩ := of_bind_ok h
      obtain ⟨hassign, hs⟩ := Prod.mk.inj ha
      obtain ⟨rfl, rfl⟩ := Prod.mk.inj hs
      cases h
      refine ⟨rfl, ?_⟩
      rintro _ ⟨⟩
      rw [if_pos hauto]
      exact hassign
    · rw [if_neg hauto] at h
      cases h
      refine ⟨rfl, ?_⟩
      rintro _ ⟨⟩
      rw [if_neg hauto]

variable {d : Declaration} {mode : InsertMode} {ticks : Bool} {n : Int}

theorem conforms_prepareInsert {command : InsertCommand} {values : List Value} {key : Column}
    (hm : m.Placed) (hr : r.Conforms m ticks) (hkey : m.key? = some key)
    (h : prepareInsert d mode (s, r) = (.ok (m, command, values), t, r')) :
    r'.Conforms m ticks ∧ r' = r.fill key (r'.content key) := by
  unfold prepareInsert at h
  obtain ⟨m', ⟨s₁, r₁⟩, hmapping, h⟩ := of_bind_ok h
  obtain ⟨_, ⟨s₂, r₂⟩, ha, h⟩ := of_bind_ok h
  rw [get_bind] at h
  obtain ⟨values', ⟨s₃, r₃⟩, hv, h⟩ := of_bind_ok h
  obtain ⟨command', ⟨s₄, r₄⟩, hc, h⟩ := of_bind_ok h
  cases h
  rw [first_apply] at hmapping hc
  obtain ⟨-, hx⟩ := Prod.mk.inj hmapping
  obtain ⟨-, rfl⟩ := Prod.mk.inj hx
  obtain ⟨-, hx⟩ := Prod.mk.inj hv
  obtain ⟨-, rfl⟩ := Prod.mk.inj hx
  obtain ⟨-, hx⟩ := Prod.mk.inj hc
  obtain ⟨-, rfl⟩ := Prod.mk.inj hx
  have hmem := (Mapping.mem_of_key? hkey).1
  have hwithin := hr.within hm hmem
  rcases of_assignIdentifier ha with rfl | ⟨key', u, hkey', hauto, ha⟩
  · exact ⟨hr, (Record.fill_content hwithin).symm⟩
  · obtain rfl : key = key' := Option.some.inj (hkey.symm.trans hkey')
    obtain ⟨content, htake, rfl⟩ := Mapping.of_assign ha
    obtain ⟨htake', hholds⟩ := FieldType.take_uuid (hm.identified _ hmem hauto) ticks u
    obtain rfl : content = .uuid u := Except.ok.inj (htake.symm.trans htake')
    refine ⟨hr.fill hm hmem hholds, ?_⟩
    rw [Record.content_fill hwithin]

/-- An insert that comes to its end has executed its statement, and changed at most the key of the
record: a key that counts up is the number of the row that was stored last. -/
theorem of_insertWith {key : Column} (hmapping : (mapping d s).1 = .ok m) (hm : m.Placed)
    (hr : r.Conforms m ticks) (hkey : m.key? = some key)
    (h : insertWith d mode (s, r) = (.ok n, t, r')) : ∃ command values u r₁,
      prepareInsert d mode (s, r) = (.ok (m, command, values), u, r₁) ∧
      executeText command.text values u = (.ok n, t) ∧ r₁.Conforms m ticks ∧ r'.Conforms m ticks ∧
      r' = r.fill key (r'.content key) ∧ r' = r₁.fill key (r'.content key) ∧
      (0 < n → if key.autoIncrement then r'.content key = .int (Int64.ofInt t.lastRowid) else r' = r₁) := by
  unfold insertWith at h
  obtain ⟨⟨m', command, values⟩, ⟨u, r₁⟩, hp, h⟩ := of_bind_ok h
  obtain rfl : m' = m := Except.ok.inj ((of_prepareInsert hp).1.symm.trans hmapping)
  dsimp only at h
  rw [get_bind] at h
  obtain ⟨n', ⟨u', r₂⟩, he, h⟩ := of_bind_ok h
  rw [first_apply, mapError_apply] at he
  obtain ⟨hcount, hx⟩ := Prod.mk.inj he
  obtain ⟨hu, rfl⟩ := Prod.mk.inj hx
  obtain ⟨hr₁, hfill⟩ := conforms_prepareInsert hm hr hkey hp
  have hmem := (Mapping.mem_of_key? hkey).1
  have hwithin := hr₁.within hm hmem
  have hexecute : executeText command.text values u = (.ok n', u') := by
    refine Prod.ext ?_ hu
    cases hx : (executeText command.text values u).1 with
    | error e =>
      rw [hx] at hcount
      cases hcount
    | ok k =>
      rw [hx] at hcount
      exact hcount
  have hsame : r₁ = r₁.fill key (r₁.content key) := (Record.fill_content hwithin).symm
  by_cases hn : 0 < n'
  · rw [if_pos hn] at h
    obtain ⟨_, ⟨v, r₂⟩, hw, h⟩ := of_bind_ok h
    cases h
    obtain ⟨rfl, hwritten⟩ := of_writeBackKey hw
    have hwritten := hwritten key hkey
    refine ⟨command, values, u, r₁, hp, hexecute, hr₁, ?_⟩
    by_cases hauto : key.autoIncrement = true
    · rw [if_pos hauto] at hwritten
      obtain ⟨content, htake, rfl⟩ := Mapping.of_assign hwritten
      obtain ⟨rfl, hholds⟩ := FieldType.of_take_int (hm.counted _ hmem hauto) ticks htake
      have hcontent : (r₁.fill key (.int (Int64.ofInt t.lastRowid))).content key =
          .int (Int64.ofInt t.lastRowid) := Record.content_fill hwithin
      refine ⟨hr₁.fill hm hmem hholds, ?_, ?_, fun _ => ?_⟩
      · rw [hcontent, hfill, Record.fill_fill]
      · rw [hcontent]
      · rw [if_pos hauto]
        exact hcontent
    · rw [if_neg hauto] at hwritten ⊢
      subst hwritten
      exact ⟨hr₁, hfill, hsame, fun _ => rfl⟩
  · rw [if_neg hn] at h
    cases h
    exact ⟨command, values, u, _, hp, hexecute, hr₁, hr₁, hfill, hsame, fun h => absurd h hn⟩

end Session

end RecordMapper
