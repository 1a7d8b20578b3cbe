import RecordMapper.Proofs.Changing
import Mathlib.Data.List.Pairwise
import Mathlib.Data.List.Nodup

/-!
# Mappings and index plans

1. `Mapping.column_spec`: a field gives the column that the conventions make of it, or the fault of
   a check that it fails.
2. `Mapping.Sound`: what holds of every mapping that was built. `Catalog.Sound` says it of all
   mappings that a catalog holds, and every request keeps it.
3. `IndexPlan.Groups`: the plans of a mapping are its index declarations, grouped by name.
-/

namespace RecordMapper

/-! ## Mappings -/

namespace Mapping

/-- Whether the engine is to count up what the column of a field holds. -/
def countsUp (c : Conventions) (declared : Bool) (f : FieldDeclaration) : Bool :=
  autoField c (keyField c declared f) f && f.type.dataType != .uuid

/-- The column of a field, its checks aside. -/
def columnOf (c : Conventions) (declared : Bool) (place : Nat) (f : FieldDeclaration) : Column where
  property := f.property
  name := f.name
  type := f.type
  nullable := !(keyField c declared f || f.isNotNull)
  collation := f.collation
  maxLength := f.maxLength
  isKey := keyField c declared f
  autoIncrement := countsUp c declared f
  autoIdentifier := autoField c (keyField c declared f) f && f.type.dataType == .uuid
  indices := indicesOf c (keyField c declared f) f
  field := place

/-- A field passes its checks and gives its column, or a fault says which check it fails. -/
theorem column_spec (c : Conventions) (table : String) (declared : Bool) (place : Nat)
    (f : FieldDeclaration) :
    match column c table declared place f with
    | .ok column =>
      column = columnOf c declared place f ∧ f.type.dataType.isSupported = true ∧
        (countsUp c declared f = true →
          keyField c declared f = true ∧ f.type.dataType.isInteger = true)
    | .error fault =>
      f.type.dataType.isSupported = false ∧ fault = .unknownType f.type.dataType.name f.property ∨
        countsUp c declared f = true ∧
          (keyField c declared f = false ∧ fault = .autoNotKey table f.property ∨
            f.type.dataType.isInteger = false ∧
              fault = .autoNotInteger table f.property f.type.dataType.name) := by
  unfold column
  simp only
  rw [show (autoField c (keyField c declared f) f && f.type.dataType != .uuid) =
    countsUp c declared f from rfl]
  cases hsupported : f.type.dataType.isSupported with
  | false => exact .inl ⟨rfl, rfl⟩
  | true =>
    cases hcounts : countsUp c declared f with
    | false => exact ⟨by rw [columnOf, hcounts], rfl, nofun⟩
    | true =>
      cases hkey : keyField c declared f with
      | false => exact .inr ⟨rfl, .inl ⟨rfl, rfl⟩⟩
      | true =>
        cases hinteger : f.type.dataType.isInteger with
        | false => exact .inr ⟨rfl, .inr ⟨rfl, rfl⟩⟩
        | true => exact ⟨by rw [columnOf, hcounts, hkey], rfl, fun _ => ⟨rfl, rfl⟩⟩

theorem of_column {conventions : Conventions} {table : String} {declared : Bool} {place : Nat}
    {f : FieldDeclaration} {column : Column}
    (h : Mapping.column conventions table declared place f = .ok column) :
    column = columnOf conventions declared place f ∧ f.type.dataType.isSupported = true ∧
      (countsUp conventions declared f = true →
        keyField conventions declared f = true ∧ f.type.dataType.isInteger = true) := by
  have hspec := column_spec conventions table declared place f
  rwa [h] at hspec

/-- A mapping as it is built: no two columns have the same name up to case, and only a key
counts up. -/
structure Sound (m : Mapping) : Prop where
  distinct : m.columns.Pairwise fun a b => sameFolded a.name b.name = false
  counts : ∀ c ∈ m.columns, c.autoIncrement = true → c.isKey = true

theorem of_firstDuplicate {seen : List String} {cs : List Column}
    (h : firstDuplicate seen cs = none) :
    (∀ name ∈ seen, ∀ c ∈ cs, sameFolded name c.name = false) ∧
      cs.Pairwise fun a b => sameFolded a.name b.name = false := by
  induction cs generalizing seen with
  | nil => exact ⟨fun _ _ _ hc => absurd hc List.not_mem_nil, .nil⟩
  | cons c rest ih =>
    unfold firstDuplicate at h
    split at h
    · cases h
    · rename_i hnew
      obtain ⟨hseen, hrest⟩ := ih h
      have hc : ∀ name ∈ seen, sameFolded name c.name = false := by
        intro name hname
        by_contra hsame
        exact hnew (List.any_eq_true.mpr ⟨name, hname, Bool.eq_true_of_not_eq_false hsame⟩)
      refine ⟨fun name hname b hb => ?_, List.pairwise_cons.mpr
        ⟨fun b hb => hseen c.name List.mem_cons_self b hb, hrest⟩⟩
      rcases List.mem_cons.mp hb with rfl | hb
      · exact hc name hname
      · exact hseen name (List.mem_cons_of_mem _ hname) b hb

/-- A mapping that is built has a column for each stored field, at most one key, and names apart. -/
theorem of_build {conventions : Conventions} {d : Declaration} {m : Mapping}
    (h : build conventions d = .ok m) :
    m.record = d ∧
      ((storedFields d).mapM fun x => column conventions d.table
        ((storedFields d).any fun x => x.1.isPrimaryKey) x.2 x.1) = .ok m.columns ∧
      (m.columns.filter Column.isKey).length ≤ 1 ∧ firstDuplicate [] m.columns = none := by
  unfold build at h
  obtain ⟨columns, hcolumns, h⟩ := ok_of_bind h
  by_cases hkeys : 1 < (columns.filter Column.isKey).length
  · rw [if_pos hkeys] at h
    cases h
  · rw [if_neg hkeys] at h
    cases hd : firstDuplicate [] columns with
    | some name =>
      rw [hd] at h
      cases h
    | none =>
      rw [hd] at h
      cases h
      exact ⟨rfl, hcolumns, Nat.le_of_not_lt hkeys, hd⟩

theorem sound_of_build {conventions : Conventions} {d : Declaration} {m : Mapping}
    (h : build conventions d = .ok m) : m.Sound := by
  obtain ⟨-, hcolumns, -, hd⟩ := of_build h
  refine ⟨(of_firstDuplicate hd).2, fun c hc => ?_⟩
  obtain ⟨hall, hmap⟩ := of_mapM hcolumns
  rw [hmap] at hc
  obtain ⟨x, hx, rfl⟩ := List.mem_map.mp hc
  obtain ⟨hcolumn, -, hcounts⟩ := of_column (hall x hx)
  rw [hcolumn]
  exact fun ha => (hcounts ha).1

/-- Of two columns with the same name up to case there is only one. -/
theorem Sound.eq_of_sameFolded {m : Mapping} (h : m.Sound) {a b : Column} (ha : a ∈ m.columns)
    (hb : b ∈ m.columns) (hab : sameFolded a.name b.name = true) : a = b := by
  have hsymm : Std.Symm fun a b : Column => sameFolded a.name b.name = false :=
    ⟨fun a b h => by rw [sameFolded_comm, h]⟩
  by_contra hne
  rw [h.distinct.forall ha hb hne] at hab
  cases hab

end Mapping

/-! ## Catalogs -/

namespace Catalog

/-- A catalog of mappings that were built. -/
def Sound (c : Catalog) : Prop := ∀ x ∈ c.mappings, x.2.Sound

theorem sound_empty : ({} : Catalog).Sound := fun _ hx => absurd hx List.not_mem_nil

variable {c : Catalog} {conventions : Conventions} {d : Declaration} {m : Mapping}

theorem Sound.request (h : c.Sound) : (c.request conventions d).2.Sound := by
  unfold Catalog.request
  split
  · exact h
  · split
    · rename_i m hm
      intro x hx
      rcases List.mem_append.mp hx with hx | hx
      · exact h x hx
      · cases List.mem_singleton.mp hx
        exact Mapping.sound_of_build hm
    · exact h

theorem Sound.requested (h : c.Sound) (hm : (c.request conventions d).1 = .ok m) : m.Sound := by
  unfold Catalog.request get? at hm
  split at hm
  · rename_i m' hget
    cases hm
    obtain ⟨x, hx, rfl⟩ := Option.map_eq_some_iff.mp hget
    exact h x (List.mem_of_find?_eq_some hx)
  · split at hm
    · rename_i m' hbuild
      cases hm
      exact Mapping.sound_of_build hbuild
    · cases hm

/-- A mapping that was requested once is there for good. -/
theorem request_again (hm : (c.request conventions d).1 = .ok m) (conventions' : Conventions) :
    (c.request conventions d).2.request conventions' d = (.ok m, (c.request conventions d).2) := by
  have hget : (c.request conventions d).2.get? d.typeName = some m := by
    unfold Catalog.request at hm ⊢
    cases hg : c.get? d.typeName with
    | some m' =>
      rw [hg] at hm
      cases hm
      exact hg
    | none =>
      rw [hg] at hm
      cases hb : Mapping.build conventions d with
      | error fault =>
        rw [hb] at hm
        cases hm
      | ok m' =>
        rw [hb] at hm
        cases hm
        unfold get? at hg ⊢
        rw [Option.map_eq_none_iff] at hg
        dsimp only
        rw [List.find?_append, hg]
        simp
  rw [request, hget]

end Catalog

/-! ## Index plans -/

namespace IndexPlan

/-- A membership as a plan keeps it. -/
def Entry.member (e : Entry) : Int × String := (e.order, e.column)

/-- Plans that are some memberships, grouped by the name of the index. -/
structure Groups (es : List Entry) (plans : List IndexPlan) : Prop where
  names : (plans.map IndexPlan.name).Nodup
  planned : ∀ e ∈ es, ∃ p ∈ plans, p.name = e.index
  members : ∀ p ∈ plans, p.members = (es.filter fun e => e.index = p.name).map Entry.member
  inhabited : ∀ p ∈ plans, p.members ≠ []
  agreed : ∀ p ∈ plans, ∀ e ∈ es, e.index = p.name → e.unique = p.unique

/-- A membership joins the plan of its index, or opens it. -/
theorem of_add {plans plans' : List IndexPlan} {e : Entry} (h : add plans e = .ok plans') :
    (∃ before p rest, plans = before ++ p :: rest ∧ p.name = e.index ∧ p.unique = e.unique ∧
      plans' = before ++ { p with members := p.members ++ [e.member] } :: rest) ∨
    (∀ p ∈ plans, p.name ≠ e.index) ∧ plans' = plans ++ [⟨e.index, e.unique, [e.member]⟩] := by
  induction plans generalizing plans' with
  | nil =>
    cases h
    exact .inr ⟨fun _ hp => absurd hp List.not_mem_nil, rfl⟩
  | cons p rest ih =>
    unfold add at h
    split at h
    · rename_i hname
      split at h
      · rename_i hunique
        cases h
        exact .inl ⟨[], p, rest, rfl, hname, hunique, rfl⟩
      · cases h
    · rename_i hname
      cases hrest : add rest e with
      | error fault =>
        rw [hrest] at h
        cases h
      | ok q =>
        rw [hrest] at h
        cases h
        rcases ih hrest with ⟨before, p', more, rfl, hp⟩ | ⟨hnew, rfl⟩
        · obtain ⟨hp, hu, rfl⟩ := hp
          exact .inl ⟨p :: before, p', more, rfl, hp, hu, rfl⟩
        · refine .inr ⟨fun q hq => ?_, rfl⟩
          rcases List.mem_cons.mp hq with rfl | hq
          · exact hname
          · exact hnew q hq

section Groups

variable {es : List Entry} {e : Entry} {plans : List IndexPlan} {before rest : List IndexPlan}
  {p : IndexPlan}

theorem members_snoc (es : List Entry) (e : Entry) (name : String) :
    ((es ++ [e]).filter fun e => e.index = name).map Entry.member =
      (es.filter fun e => e.index = name).map Entry.member ++
        if e.index = name then [e.member] else [] := by
  rw [List.filter_append, List.map_append]
  by_cases hn : e.index = name
  · simp [hn]
  · simp [hn]

/-- Groups are still groups where a membership joins the plan of its index. -/
theorem Groups.join (h : Groups es (before ++ p :: rest)) (hname : p.name = e.index)
    (hunique : p.unique = e.unique) :
    Groups (es ++ [e]) (before ++ { p with members := p.members ++ [e.member] } :: rest) := by
  let p' : IndexPlan := { p with members := p.members ++ [e.member] }
  have hp : p ∈ before ++ p :: rest := List.mem_append_right _ List.mem_cons_self
  have hnames : (before ++ p' :: rest).map IndexPlan.name =
      (before ++ p :: rest).map IndexPlan.name := by
    simp [p']
  have hold : ∀ q, q ∈ before ++ p :: rest ↔ q = p ∨ q ∈ before ++ rest := by
    intro q
    simp only [List.mem_append, List.mem_cons]
    tauto
  have hnew : ∀ q, q ∈ before ++ p' :: rest ↔ q = p' ∨ q ∈ before ++ rest := by
    intro q
    simp only [List.mem_append, List.mem_cons]
    tauto
  have hother : ∀ q ∈ before ++ rest, q.name ≠ e.index := by
    have hnodup := h.names
    rw [List.map_append, List.map_cons, List.nodup_middle, List.nodup_cons,
      ← List.map_append] at hnodup
    rintro q hq hqe
    exact hnodup.1 (List.mem_map.mpr ⟨q, hq, hqe.trans hname.symm⟩)
  refine ⟨by rw [hnames]; exact h.names, fun f hf => ?_, fun q hq => ?_, fun q hq => ?_,
    fun q hq f hf hfq => ?_⟩
  · rcases List.mem_append.mp hf with hf | hf
    · obtain ⟨q, hq, hqf⟩ := h.planned f hf
      rcases (hold q).mp hq with rfl | hq
      · exact ⟨p', (hnew p').mpr (.inl rfl), hqf⟩
      · exact ⟨q, (hnew q).mpr (.inr hq), hqf⟩
    · cases List.mem_singleton.mp hf
      exact ⟨p', (hnew p').mpr (.inl rfl), hname⟩
  · rw [members_snoc]
    rcases (hnew q).mp hq with rfl | hq
    · show p.members ++ [e.member] = _
      rw [if_pos hname.symm, h.members p hp]
    · rw [if_neg fun hqe => hother q hq hqe.symm, List.append_nil]
      exact h.members q ((hold q).mpr (.inr hq))
  · rcases (hnew q).mp hq with rfl | hq
    · exact List.append_ne_nil_of_right_ne_nil _ (List.cons_ne_nil _ _)
    · exact h.inhabited q ((hold q).mpr (.inr hq))
  · rcases List.mem_append.mp hf with hf | hf <;> rcases (hnew q).mp hq with rfl | hq
    · exact h.agreed p hp f hf hfq
    · exact h.agreed q ((hold q).mpr (.inr hq)) f hf hfq
    · cases List.mem_singleton.mp hf
      exact hunique.symm
    · cases List.mem_singleton.mp hf
      exact absurd hfq.symm (hother q hq)

/-- Groups are still groups where a membership opens the plan of an index that had none. -/
theorem Groups.opened (h : Groups es plans) (hnew : ∀ p ∈ plans, p.name ≠ e.index) :
    Groups (es ++ [e]) (plans ++ [⟨e.index, e.unique, [e.member]⟩]) := by
  have hnone : ∀ f ∈ es, f.index ≠ e.index := by
    intro f hf hfe
    obtain ⟨p, hp, hpf⟩ := h.planned f hf
    exact hnew p hp (hpf.trans hfe)
  refine ⟨?_, fun f hf => ?_, fun q hq => ?_, fun q hq => ?_, fun q hq f hf hfq => ?_⟩
  · rw [List.map_append, List.map_singleton, List.nodup_append]
    refine ⟨h.names, List.nodup_singleton _, fun name hname name' hname' => ?_⟩
    obtain ⟨p, hp, rfl⟩ := List.mem_map.mp hname
    cases List.mem_singleton.mp hname'
    exact hnew p hp
  · rcases List.mem_append.mp hf with hf | hf
    · obtain ⟨q, hq, hqf⟩ := h.planned f hf
      exact ⟨q, List.mem_append_left _ hq, hqf⟩
    · cases List.mem_singleton.mp hf
      exact ⟨_, List.mem_append_right _ List.mem_cons_self, rfl⟩
  · rw [members_snoc]
    rcases List.mem_append.mp hq with hq | hq
    · rw [if_neg fun hqe => hnew q hq hqe.symm, List.append_nil]
      exact h.members q hq
    · cases List.mem_singleton.mp hq
      rw [if_pos rfl, List.filter_eq_nil_iff.mpr fun f hf hfe => hnone f hf (of_decide_eq_true hfe)]
      rfl
  · rcases List.mem_append.mp hq with hq | hq
    · exact h.inhabited q hq
    · cases List.mem_singleton.mp hq
      exact List.cons_ne_nil _ _
  · rcases List.mem_append.mp hf with hf | hf <;> rcases List.mem_append.mp hq with hq | hq
    · exact h.agreed q hq f hf hfq
    · cases List.mem_singleton.mp hq
      exact absurd hfq (hnone f hf)
    · cases List.mem_singleton.mp hf
      exact absurd hfq.symm (hnew q hq)
    · cases List.mem_singleton.mp hf
      cases List.mem_singleton.mp hq
      rfl

theorem Groups.add {plans' : List IndexPlan} (h : Groups es plans)
    (ha : IndexPlan.add plans e = .ok plans') : Groups (es ++ [e]) plans' := by
  rcases of_add ha with ⟨before, p, rest, rfl, hname, hunique, rfl⟩ | ⟨hnew, rfl⟩
  · exact h.join hname hunique
  · exact h.opened hnew

end Groups

/-- The plans of a mapping hold its memberships by the names of their indices, in declared order. -/
structure Planned (m : Mapping) (plans : List IndexPlan) : Prop where
  names : (plans.map IndexPlan.name).Nodup
  planned : ∀ e ∈ entries m, ∃ p ∈ plans, p.name = e.index
  members : ∀ p ∈ plans, p.members.Perm (((entries m).filter fun e => e.index = p.name).map Entry.member)
  ordered : ∀ p ∈ plans, p.members.Pairwise fun a b => a.1 ≤ b.1
  inhabited : ∀ p ∈ plans, p.members ≠ []
  agreed : ∀ p ∈ plans, ∀ e ∈ entries m, e.index = p.name → e.unique = p.unique

theorem groups_of_foldlM {es done : List Entry} {plans plans' : List IndexPlan}
    (h : Groups done plans) (hadd : es.foldlM IndexPlan.add plans = .ok plans') :
    Groups (done ++ es) plans' := by
  induction es generalizing done plans with
  | nil =>
    cases hadd
    rw [List.append_nil]
    exact h
  | cons e rest ih =>
    rw [List.foldlM_cons] at hadd
    obtain ⟨q, hq, hadd⟩ := ok_of_bind hadd
    have := ih (h.add hq) hadd
    rwa [List.append_assoc, List.singleton_append] at this

/-- Members compare by their declared orders. -/
theorem order_trans (a b c : Int × String) (hab : decide (a.1 ≤ b.1) = true)
    (hbc : decide (b.1 ≤ c.1) = true) :
    decide (a.1 ≤ c.1) = true :=
  decide_eq_true (Int.le_trans (of_decide_eq_true hab) (of_decide_eq_true hbc))

theorem order_total (a b : Int × String) : (decide (a.1 ≤ b.1) || decide (b.1 ≤ a.1)) = true := by
  rw [Bool.or_eq_true, decide_eq_true_eq, decide_eq_true_eq]
  exact Int.le_total a.1 b.1

theorem planned_ofMapping {m : Mapping} {plans : List IndexPlan} (h : ofMapping m = .ok plans) :
    Planned m plans := by
  unfold ofMapping at h
  cases hadd : (entries m).foldlM IndexPlan.add [] with
  | error fault =>
    rw [hadd] at h
    cases h
  | ok grouped =>
    rw [hadd] at h
    cases h
    have hgroups : Groups (entries m) grouped := by
      have hnil : Groups [] [] := ⟨.nil, fun _ he => absurd he List.not_mem_nil,
        fun _ hp => absurd hp List.not_mem_nil, fun _ hp => absurd hp List.not_mem_nil,
        fun _ hp => absurd hp List.not_mem_nil⟩
      exact groups_of_foldlM hnil hadd
    have hperm : ∀ p : IndexPlan, p.sorted.members.Perm p.members :=
      fun p => List.mergeSort_perm _ _
    refine ⟨?_, fun e he => ?_, fun p hp => ?_, fun p hp => ?_, fun p hp => ?_,
      fun p hp e he hep => ?_⟩
    · rw [List.map_map]
      exact hgroups.names
    · obtain ⟨p, hp, hpe⟩ := hgroups.planned e he
      exact ⟨p.sorted, List.mem_map_of_mem hp, hpe⟩
    · obtain ⟨q, hq, rfl⟩ := List.mem_map.mp hp
      exact (hperm q).trans (List.Perm.of_eq (hgroups.members q hq))
    · obtain ⟨q, hq, rfl⟩ := List.mem_map.mp hp
      exact (List.pairwise_mergeSort order_trans order_total q.members).imp of_decide_eq_true
    · obtain ⟨q, hq, rfl⟩ := List.mem_map.mp hp
      intro hnil
      have := (hperm q).length_eq
      rw [hnil] at this
      exact hgroups.inhabited q hq (List.length_eq_zero_iff.mp this.symm)
    · obtain ⟨q, hq, rfl⟩ := List.mem_map.mp hp
      exact hgroups.agreed q hq e he hep

end IndexPlan

end RecordMapper
