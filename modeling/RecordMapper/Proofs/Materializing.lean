import RecordMapper.Proofs.Lookups

/-!
# The layout of a result

What a row makes of a record is told column by column: by the cells that stand under the name of the
column, ASCII case aside.

1. `Mapping.Reads`: the record that a row stands for, without any order of its columns.
2. `Mapping.Sound.materialize_iff`: materializing gives this record, and fails where there is none.
3. `Mapping.Relaid`: layouts of a row, none of which changes the cells of a mapped column.
-/

namespace RecordMapper

/-- The cells of a row for a column: those under its name, ASCII case aside. -/
def Column.cellsIn (c : Column) (row : List (String × Cell)) : List Cell :=
  (row.filter fun x => sameFolded c.name x.1).map Prod.snd

namespace Column

variable {c : Column} {row : List (String × Cell)} {x : String × Cell}

theorem cellsIn_cons_of_same (h : sameFolded c.name x.1 = true) :
    c.cellsIn (x :: row) = x.2 :: c.cellsIn row := by
  unfold cellsIn
  rw [List.filter_cons, if_pos h, List.map_cons]

theorem cellsIn_cons_of_other (h : sameFolded c.name x.1 = false) :
    c.cellsIn (x :: row) = c.cellsIn row := by
  unfold cellsIn
  rw [List.filter_cons, h, if_neg Bool.false_ne_true]

theorem mem_cellsIn {y : Cell} : y ∈ c.cellsIn row ↔
    ∃ x ∈ row, sameFolded c.name x.1 = true ∧ x.2 = y := by
  unfold cellsIn
  simp only [List.mem_map, List.mem_filter, and_assoc]

theorem length_cellsIn_le (c : Column) (h : row.Pairwise fun x y => sameFolded x.1 y.1 = false) :
    (c.cellsIn row).length ≤ 1 := by
  induction row with
  | nil => exact Nat.zero_le _
  | cons x rest ih =>
    obtain ⟨hx, hrest⟩ := List.pairwise_cons.mp h
    cases hsame : sameFolded c.name x.1 with
    | false =>
      rw [cellsIn_cons_of_other hsame]
      exact ih hrest
    | true =>
      have hnone : c.cellsIn rest = [] := by
        refine List.eq_nil_iff_forall_not_mem.mpr fun y hy => ?_
        obtain ⟨z, hz, hname, -⟩ := mem_cellsIn.mp hy
        have htwice := sameFolded_trans (sameFolded_comm c.name x.1 ▸ hsame) hname
        rw [hx z hz] at htwice
        cases htwice
      rw [cellsIn_cons_of_same hsame, hnone]
      exact Nat.le_refl 1

theorem cellsIn_recased {row' : List (String × Cell)}
    (h : List.Forall₂ (fun x y => sameFolded x.1 y.1 = true ∧ x.2 = y.2) row row') :
    c.cellsIn row = c.cellsIn row' := by
  induction h with
  | nil => rfl
  | @cons x y rest rest' hxy _ ih =>
    obtain ⟨hname, hcell⟩ := hxy
    cases hsame : sameFolded c.name x.1 with
    | true =>
      rw [cellsIn_cons_of_same hsame, cellsIn_cons_of_same (sameFolded_trans hsame hname), ih,
        hcell]
    | false =>
      have hother : sameFolded c.name y.1 = false := by
        refine Bool.eq_false_iff.mpr fun h => ?_
        rw [sameFolded_trans h (sameFolded_comm x.1 y.1 ▸ hname)] at hsame
        cases hsame
      rw [cellsIn_cons_of_other hsame, cellsIn_cons_of_other hother, ih]

end Column

namespace Mapping

/-! ## Rows as they are read -/

/-- What a cell makes of a record that is read from a row. -/
def take (m : Mapping) (r : Record) (x : String × Cell) : Except Error Record :=
  match m.resultColumn x.1 with
  | none => .ok r
  | some c => do m.assign c r (← (x.2.read c.dataType).mapError Error.type)

theorem materialize_row (m : Mapping) (row : List (String × Cell)) :
    Session.materialize m (row.map Prod.fst) (row.map Prod.snd) =
      row.foldlM m.take m.record.blank := by
  have hfold : ∀ (rest front : List (String × Cell)) (r : Record),
      ((rest.map Prod.fst).zipIdx front.length).foldlM (m.readInto ((front ++ rest).map Prod.snd)) r =
        rest.foldlM m.take r := by
    intro rest
    induction rest with
    | nil => exact fun _ _ => rfl
    | cons x rest ih =>
      intro front r
      have hcell : Session.cellAt ((front ++ x :: rest).map Prod.snd) front.length = .ok x.2 := by
        unfold Session.cellAt
        rw [List.map_append, List.getElem?_append_right (Nat.le_of_eq (List.length_map _)),
          List.length_map, Nat.sub_self]
        rfl
      have hread : m.readInto ((front ++ x :: rest).map Prod.snd) r (x.1, front.length) =
          m.take r x := by
        unfold readInto take
        rw [hcell]
        rfl
      rw [List.map_cons, List.zipIdx_cons, List.foldlM_cons, List.foldlM_cons, hread]
      refine congrArg _ (funext fun r' => ?_)
      have hrest := ih (front ++ [x]) r'
      rwa [List.append_assoc, List.singleton_append, List.length_append, List.length_singleton] at hrest
  rw [materialize_eq_foldlM]
  exact hfold row [] m.record.blank

/-! ## The record of a row -/

/-- A record that has what a row tells of the columns, and otherwise what a record had before: the
cells of a column are what its field takes, and the fields without a cell keep their contents. -/
structure Reads (m : Mapping) (before : Record) (row : List (String × Cell))
    (r : Record) : Prop where
  type : r.typeName = before.typeName
  whole : r.contents.length = before.contents.length
  present : ∀ c ∈ m.columns, ∀ x ∈ row, sameFolded c.name x.1 = true →
    (do c.type.take (← x.2.read c.dataType)) = .ok (r.content c)
  absent : ∀ i, (∀ c ∈ m.columns, c.field = i → ∀ x ∈ row, sameFolded c.name x.1 = false) →
    r.contents[i]? = before.contents[i]?

section Reading

variable {m : Mapping} {before r : Record} {row rest : List (String × Cell)}
  {x : String × Cell} {c : Column}

theorem reads_nil : m.Reads before [] r ↔ r = before := by
  refine ⟨fun h => ?_, ?_⟩
  · have hcontents : r.contents = before.contents :=
      List.ext_getElem? fun i => h.absent i fun _ _ _ _ hx => absurd hx List.not_mem_nil
    rw [show r = ⟨r.typeName, r.contents⟩ from rfl, h.type, hcontents]
  · rintro rfl
    exact ⟨rfl, rfl, fun _ _ _ hx => absurd hx List.not_mem_nil, fun _ _ => rfl⟩

theorem reads_cons_foreign (hx : ∀ c ∈ m.columns, sameFolded c.name x.1 = false) :
    m.Reads before (x :: rest) r ↔ m.Reads before rest r := by
  refine ⟨fun h => ⟨h.type, h.whole, fun c hc y hy => h.present c hc y (List.mem_cons_of_mem _ hy),
    fun i hi => h.absent i fun c hc hfield y hy => ?_⟩,
    fun h => ⟨h.type, h.whole, fun c hc y hy hsame => ?_,
      fun i hi => h.absent i fun c hc hfield y hy => hi c hc hfield y (List.mem_cons_of_mem _ hy)⟩⟩
  · rcases List.mem_cons.mp hy with rfl | hy
    · exact hx c hc
    · exact hi c hc hfield y hy
  · rcases List.mem_cons.mp hy with rfl | hy
    · rw [hx c hc] at hsame
      cases hsame
    · exact h.present c hc y hy hsame

theorem Sound.reads_cons (hm : m.Sound) (hp : m.Placed) (hc : c ∈ m.columns)
    (hsame : sameFolded c.name x.1 = true) (hrest : c.cellsIn rest = [])
    (hwithin : c.field < before.contents.length) :
    m.Reads before (x :: rest) r ↔
    ∃ content, (do c.type.take (← x.2.read c.dataType)) = .ok content ∧
      m.Reads (before.fill c content) rest r := by
  have hothers : ∀ y ∈ rest, sameFolded c.name y.1 = false := by
    intro y hy
    refine Bool.eq_false_iff.mpr fun h => ?_
    have hmem := Column.mem_cellsIn.mpr ⟨y, hy, h, rfl⟩
    rw [hrest] at hmem
    cases hmem
  refine ⟨fun h => ⟨_, h.present c hc x List.mem_cons_self hsame, h.type, ?_, ?_, fun i hi => ?_⟩, ?_⟩
  · exact h.whole.trans (List.length_set ..).symm
  · exact fun b hb y hy => h.present b hb y (List.mem_cons_of_mem _ hy)
  · by_cases hfield : c.field = i
    · subst hfield
      show _ = (before.contents.set _ _)[_]?
      rw [List.getElem?_set_self hwithin]
      unfold Record.content
      rw [List.getElem?_eq_getElem (h.whole ▸ hwithin)]
      rfl
    · show _ = (before.contents.set _ _)[_]?
      rw [List.getElem?_set_ne hfield]
      refine h.absent i fun b hb hplace y hy => ?_
      rcases List.mem_cons.mp hy with rfl | hy
      · refine Bool.eq_false_iff.mpr fun hname => hfield ?_
        rw [hm.eq_of_sameFolded hc hb (sameFolded_trans hsame (sameFolded_comm b.name y.1 ▸ hname))]
        exact hplace
      · exact hi b hb hplace y hy
  · rintro ⟨content, hcontent, h⟩
    have hheld : r.content c = content := by
      have hkept := h.absent c.field fun b hb hplace y hy =>
        hp.eq_of_field hb hc hplace ▸ hothers y hy
      unfold Record.content
      rw [hkept]
      exact Record.content_fill hwithin
    refine ⟨h.type, h.whole.trans (List.length_set ..), fun b hb y hy hname => ?_, fun i hi => ?_⟩
    · rcases List.mem_cons.mp hy with rfl | hy
      · rw [hm.eq_of_sameFolded hb hc (sameFolded_trans hname (sameFolded_comm c.name y.1 ▸ hsame)), hheld]
        exact hcontent
      · exact h.present b hb y hy hname
    · have hfield : c.field ≠ i := fun hplace => by
        rw [hi c hc hplace x List.mem_cons_self] at hsame
        cases hsame
      refine (h.absent i fun b hb hplace y hy => hi b hb hplace y (List.mem_cons_of_mem _ hy)).trans ?_
      exact List.getElem?_set_ne hfield

end Reading

/-! ## Materializing -/

section Rows

variable {m : Mapping} {r r' : Record} {row row' : List (String × Cell)}
  {x : String × Cell} {c : Column}

theorem of_resultColumn {name : String} (h : m.resultColumn name = some c) :
    c ∈ m.columns ∧ sameFolded c.name name = true := by
  rcases Option.or_eq_some_iff.mp h with h | ⟨-, h⟩
  · have hname := List.find?_some (p := fun b : Column => b.name == name) h
    refine ⟨List.mem_of_find?_eq_some h, ?_⟩
    rw [eq_of_beq hname]
    exact sameFolded_refl name
  · have hname := List.find?_some h
    exact ⟨List.mem_of_find?_eq_some h, hname⟩

theorem of_resultColumn_none {name : String} (h : m.resultColumn name = none) :
    ∀ c ∈ m.columns, sameFolded c.name name = false := by
  intro c hc
  have hnone := List.find?_eq_none.mp (Option.or_eq_none_iff.mp h).2 c hc
  exact Bool.eq_false_iff.mpr hnone

theorem take_eq_ok_iff {c : Column} (hc : m.resultColumn x.1 = some c)
    (hr : r.typeName = m.typeName) :
    m.take r x = .ok r' ↔ ∃ content, (do c.type.take (← x.2.read c.dataType)) = .ok content ∧
      r' = r.fill c content := by
  unfold take
  rw [hc]
  simp only [bind, Except.bind]
  cases x.2.read c.dataType with
  | error fault => exact ⟨nofun, fun ⟨_, h, _⟩ => nomatch h⟩
  | ok v =>
    refine ⟨of_assign, ?_⟩
    rintro ⟨content, hcontent, rfl⟩
    simp only at hcontent
    show m.assign c r v = _
    unfold assign
    rw [if_pos hr, hcontent]
    rfl

theorem Sound.foldlM_take_iff (hm : m.Sound) (hp : m.Placed)
    (hcells : ∀ c ∈ m.columns, (c.cellsIn row).length ≤ 1) (hr : r.typeName = m.typeName)
    (hwithin : ∀ c ∈ m.columns, c.field < r.contents.length) :
    row.foldlM m.take r = .ok r' ↔ m.Reads r row r' := by
  induction row generalizing r with
  | nil =>
    rw [reads_nil]
    exact ⟨fun h => (Except.ok.inj h).symm, fun h => congrArg Except.ok h.symm⟩
  | cons x rest ih =>
    have hcells' : ∀ c ∈ m.columns, (c.cellsIn rest).length ≤ 1 := fun c hc =>
      (((List.sublist_cons_self x rest).filter _).map _).length_le.trans (hcells c hc)
    rw [List.foldlM_cons]
    cases hx : m.resultColumn x.1 with
    | none =>
      have htake : m.take r x = .ok r := by
        unfold take
        rw [hx]
      rw [htake, reads_cons_foreign (of_resultColumn_none hx)]
      exact ih hcells' hr hwithin
    | some c =>
      obtain ⟨hc, hsame⟩ := of_resultColumn hx
      have hrest : c.cellsIn rest = [] := by
        have hone := hcells c hc
        rw [Column.cellsIn_cons_of_same hsame, List.length_cons] at hone
        exact List.eq_nil_of_length_eq_zero (by omega)
      have hfilled : ∀ content, (rest.foldlM m.take (r.fill c content) = .ok r' ↔
          m.Reads (r.fill c content) rest r') := fun content =>
        ih hcells' (r := r.fill c content) hr fun b hb =>
          (hwithin b hb).trans_eq (List.length_set ..).symm
      rw [hm.reads_cons hp hc hsame hrest (hwithin c hc)]
      constructor
      · intro h
        obtain ⟨r₁, htake, h⟩ := ok_of_bind h
        obtain ⟨content, hcontent, rfl⟩ := (take_eq_ok_iff hx hr).mp htake
        exact ⟨content, hcontent, (hfilled content).mp h⟩
      · rintro ⟨content, hcontent, h⟩
        rw [(take_eq_ok_iff hx hr).mpr ⟨content, hcontent, rfl⟩]
        exact (hfilled content).mpr h

/-- The record of a row is the one that has what the row tells of the columns, and is otherwise
blank. -/
theorem materialize_iff {conventions : Conventions} {d : Declaration}
    (hm : build conventions d = .ok m) (hcells : ∀ c ∈ m.columns, (c.cellsIn row).length ≤ 1) :
    Session.materialize m (row.map Prod.fst) (row.map Prod.snd) = .ok r ↔
    m.Reads m.record.blank row r := by
  rw [materialize_row]
  have hplaced := placed_of_build hm
  exact (sound_of_build hm).foldlM_take_iff hplaced hcells rfl fun c hc => hplaced.within_blank hc

end Rows

/-! ## Layouts -/

/-- A row laid out differently: its columns in another order or with other case in their names, and
with more or fewer columns that no column of the mapping is named like. -/
inductive Relaid (m : Mapping) : List (String × Cell) → List (String × Cell) → Prop
  | permuted {row row' : List (String × Cell)} (h : row.Perm row') : Relaid m row row'
  | recased {row row' : List (String × Cell)}
      (h : List.Forall₂ (fun x y => sameFolded x.1 y.1 = true ∧ x.2 = y.2) row row') :
      Relaid m row row'
  | added {row : List (String × Cell)} (x : String × Cell)
      (h : ∀ c ∈ m.columns, sameFolded c.name x.1 = false) : Relaid m row (x :: row)
  | removed {row : List (String × Cell)} (x : String × Cell)
      (h : ∀ c ∈ m.columns, sameFolded c.name x.1 = false) : Relaid m (x :: row) row
  | trans {row row' row'' : List (String × Cell)} (h : Relaid m row row')
    (h' : Relaid m row' row'') :
      Relaid m row row''

section Layouts

variable {m : Mapping} {row row' : List (String × Cell)} {c : Column}

theorem Relaid.perm_cellsIn (h : m.Relaid row row') (hc : c ∈ m.columns) :
    (c.cellsIn row).Perm (c.cellsIn row') := by
  induction h with
  | permuted h => exact (h.filter _).map _
  | recased h => rw [Column.cellsIn_recased h]
  | added x h => rw [Column.cellsIn_cons_of_other (h c hc)]
  | removed x h => rw [Column.cellsIn_cons_of_other (h c hc)]
  | trans _ _ ih ih' => exact ih.trans ih'

theorem reads_congr {before r : Record} (h : ∀ c ∈ m.columns, (c.cellsIn row).Perm (c.cellsIn row'))
    (hr : m.Reads before row r) : m.Reads before row' r where
  type := hr.type
  whole := hr.whole
  present c hc y hy hsame := by
    obtain ⟨x, hx, hname, hcell⟩ := Column.mem_cellsIn.mp
      ((h c hc).symm.subset (Column.mem_cellsIn.mpr ⟨y, hy, hsame, rfl⟩))
    exact hcell ▸ hr.present c hc x hx hname
  absent i hi := hr.absent i fun c hc hfield x hx => by
    refine Bool.eq_false_iff.mpr fun hsame => ?_
    obtain ⟨y, hy, hname, -⟩ := Column.mem_cellsIn.mp
      ((h c hc).subset (Column.mem_cellsIn.mpr ⟨x, hx, hsame, rfl⟩))
    rw [hi c hc hfield y hy] at hname
    cases hname

end Layouts

/-- The record of a row does not depend on how the row is laid out: in every layout the same record
comes out, or none. It has in the field of each column that is there what the field takes of the
cell, and in every other field what a blank record has. -/
theorem materialize_relaid {conventions : Conventions} {d : Declaration} {m : Mapping}
    (hm : build conventions d = .ok m) {row row' : List (String × Cell)}
    (hrow : row.Pairwise fun x y => sameFolded x.1 y.1 = false) (h : m.Relaid row row')
    (r : Record) :
    (Session.materialize m (row'.map Prod.fst) (row'.map Prod.snd) = .ok r ↔
      Session.materialize m (row.map Prod.fst) (row.map Prod.snd) = .ok r) ∧
    (Session.materialize m (row.map Prod.fst) (row.map Prod.snd) = .ok r ↔
      m.Reads m.record.blank row r) := by
  have hcells : ∀ c ∈ m.columns, (c.cellsIn row).length ≤ 1 := fun c _ => c.length_cellsIn_le hrow
  have hperm : ∀ c ∈ m.columns, (c.cellsIn row).Perm (c.cellsIn row') :=
    fun c hc => h.perm_cellsIn hc
  have hcells' : ∀ c ∈ m.columns, (c.cellsIn row').length ≤ 1 := fun c hc =>
    (hperm c hc).length_eq ▸ hcells c hc
  rw [materialize_iff hm hcells, materialize_iff hm hcells']
  exact ⟨⟨reads_congr fun c hc => (hperm c hc).symm, reads_congr hperm⟩, Iff.rfl⟩

/-- Notes with a text, and a rank that is not stored. -/
def rankedDeclaration : Declaration :=
  ⟨"Note", "Note", false, [⟨"Id", none, ⟨.plain .int64, false⟩, [.primaryKey], .int 0⟩,
    ⟨"Rank", none, ⟨.plain .int64, false⟩, [.ignore], .int 5⟩,
    ⟨"Text", none, ⟨.plain .text, true⟩, [], .null⟩], [.bool true]⟩

def rankedMapping : Mapping :=
  ⟨rankedDeclaration, [⟨"Id", "Id", ⟨.plain .int64, false⟩, false, none, none, true, false, false, [], 0⟩,
    ⟨"Text", "Text", ⟨.plain .text, true⟩, true, none, none, false, false, false, [], 2⟩]⟩

/-- A note as a row with a column that is not mapped. -/
def rankedRow : List (String × Cell) :=
  [("Id", .integer 7), ("Rank", .integer 3), ("Text", .text "a")]

/-- The note with its text before its key, in other case, and without the column that is not
mapped. -/
def rankedRow' : List (String × Cell) := [("TEXT", .text "a"), ("id", .integer 7)]

/-- Both layouts give the note; its rank, and what it has besides, are those of a fresh note. -/
theorem materialize_relaid_ranked : build .silent rankedDeclaration = .ok rankedMapping ∧
    rankedRow.Pairwise (fun x y => sameFolded x.1 y.1 = false) ∧
      rankedMapping.Relaid rankedRow rankedRow' ∧
    Session.materialize rankedMapping ["TEXT", "id"] [.text "a", .integer 7] =
      .ok ⟨"Note", [.int 7, .int 5, .text "a", .bool true]⟩ ∧
    rankedMapping.Reads rankedDeclaration.blank rankedRow ⟨"Note", [.int 7, .int 5, .text "a", .bool true]⟩ := by
  have hbuild : build .silent rankedDeclaration = .ok rankedMapping := by decide +kernel
  have hrow : rankedRow.Pairwise fun x y => sameFolded x.1 y.1 = false := by decide +kernel
  have hpermuted : rankedRow.Perm [("Rank", .integer 3), ("Text", .text "a"),
      ("Id", .integer 7)] := by
    decide +kernel
  have hrelaid : rankedMapping.Relaid rankedRow rankedRow' :=
    .trans (.permuted hpermuted) (.trans (.removed _ (by decide +kernel))
      (.recased (.cons (by decide +kernel) (.cons (by decide +kernel) .nil))))
  have hnote : Session.materialize rankedMapping (rankedRow.map Prod.fst) (rankedRow.map Prod.snd) =
      .ok ⟨"Note", [.int 7, .int 5, .text "a", .bool true]⟩ := by decide +kernel
  obtain ⟨hsame, hreads⟩ :=
    materialize_relaid hbuild hrow hrelaid ⟨"Note", [.int 7, .int 5, .text "a", .bool true]⟩
  exact ⟨hbuild, hrow, hrelaid, hsame.mpr hnote, hreads.mp hnote⟩

end Mapping

end RecordMapper
