import RecordMapper.Proofs.Mappings

/-!
# Plans of indices

Every index that a mapping declares is planned once, with all its declarations and nothing else.

1. `Mapping.declared`: the declarations of a mapping, each with the name of its index
   (`Mapping.indexName`).
2. `IndexPlan.names_of_foldlM`: names come in the order of their first declarations.
3. `IndexPlan.of_foldlM_error`: planning stops at a declaration that differs from an earlier one.
4. `IndexPlan.filter_sorted`: sorting keeps the order of columns whose declared orders tie.
5. `Mapping.plans_spec`: what planning gives, and when it fails.
-/

namespace RecordMapper

/-! ## Declarations -/

namespace Mapping

variable (m : Mapping)

/-- The declarations of indices: each column with each of its memberships. -/
def declared : List (Column × IndexMembership) :=
  m.columns.flatMap fun c => c.indices.map fun membership => (c, membership)

/-- The name of the index that a declaration belongs to: its own, or one made of the table and the
column. -/
def indexName (x : Column × IndexMembership) : String := x.2.name.getD (m.table ++ "_" ++ x.1.name)

/-- What a declaration adds to the plan of its index. -/
def memberOf (x : Column × IndexMembership) : Int × String := (x.2.order, x.1.name)

/-- Two declarations of one index differ in whether it is unique. -/
def Mixes (x y : Column × IndexMembership) : Prop :=
  m.indexName x = m.indexName y ∧ x.2.unique ≠ y.2.unique

/-- The plans hold the declarations of the mapping, each in the plan of its index. -/
structure Plans (plans : List IndexPlan) : Prop where
  names : plans.map IndexPlan.name = (m.declared.map m.indexName).eraseDups
  distinct : (plans.map IndexPlan.name).Nodup
  members : ∀ p ∈ plans, p.members.Perm ((m.declared.filter fun x => m.indexName x = p.name).map memberOf)
  unique : ∀ p ∈ plans, ∀ x ∈ m.declared, m.indexName x = p.name → x.2.unique = p.unique
  ordered : ∀ p ∈ plans, p.members.Pairwise fun a b => a.1 ≤ b.1
  ties : ∀ p ∈ plans, ∀ k, p.members.filter (·.1 = k) =
    ((m.declared.filter fun x => m.indexName x = p.name).map memberOf).filter (·.1 = k)

end Mapping

namespace IndexPlan

variable {m : Mapping} {plans plans' : List IndexPlan} {e : Entry} {es done : List Entry}
  {fault : SchemaFault}

theorem entries_eq (m : Mapping) : entries m = m.declared.map fun x =>
    { index := m.indexName x, unique := x.2.unique, order := x.2.order, column := x.1.name } := by
  unfold entries Mapping.declared
  rw [List.map_flatMap]
  refine congrArg (List.flatMap · m.columns) (funext fun c => ?_)
  rw [List.map_map]
  rfl

/-! ## Names -/

theorem names_add (h : add plans e = .ok plans') : plans'.map IndexPlan.name =
    plans.map IndexPlan.name ++ ([e.index].removeAll (plans.map IndexPlan.name)) := by
  rcases of_add h with ⟨before, p, rest, rfl, hname, -, rfl⟩ | ⟨hnew, rfl⟩
  · have hmem : e.index ∈ (before ++ p :: rest).map IndexPlan.name :=
      List.mem_map.mpr ⟨p, List.mem_append_right _ List.mem_cons_self, hname⟩
    have hnone : [e.index].removeAll ((before ++ p :: rest).map IndexPlan.name) = [] :=
      List.filter_eq_nil_iff.mpr fun x hx => by
        rw [List.mem_singleton.mp hx]
        simpa only [Bool.not_eq_true', Bool.not_eq_false, List.elem_iff] using hmem
    rw [hnone, List.append_nil, List.map_append, List.map_append, List.map_cons, List.map_cons]
  · have hself : [e.index].removeAll (plans.map IndexPlan.name) = [e.index] :=
      List.filter_eq_self.mpr fun x hx => by
        rw [List.mem_singleton.mp hx, Bool.not_eq_true', ← Bool.not_eq_true, List.elem_iff]
        intro hmem
        obtain ⟨p, hp, hpe⟩ := List.mem_map.mp hmem
        exact hnew p hp hpe
    rw [hself, List.map_append]
    rfl

/-- Indices are named in the order of their first memberships. -/
theorem names_of_foldlM (hadd : es.foldlM add plans = .ok plans')
    (h : plans.map IndexPlan.name = (done.map Entry.index).eraseDups) :
    plans'.map IndexPlan.name = ((done ++ es).map Entry.index).eraseDups := by
  induction es generalizing done plans with
  | nil =>
    cases hadd
    rwa [List.append_nil]
  | cons e rest ih =>
    rw [List.foldlM_cons] at hadd
    obtain ⟨mid, hmid, hadd⟩ := ok_of_bind hadd
    have hnames : mid.map IndexPlan.name = ((done ++ [e]).map Entry.index).eraseDups := by
      rw [names_add hmid, h, List.map_append, List.map_singleton, List.eraseDups_append]
      congr 1
      rw [List.removeAll, List.removeAll, List.filter_congr (q := fun x => !(done.map Entry.index).elem x)
        fun x _ => by rw [Bool.eq_iff_iff]; simp]
      unfold List.filter
      split <;> rfl
    have := ih hadd hnames
    rwa [List.append_assoc, List.singleton_append] at this

/-! ## Refusals -/

/-- A membership is refused by the plan of its index, for being unique where that is not, or the
other way round. -/
theorem of_add_error (h : add plans e = .error fault) :
    fault = .mixedUniqueness e.index ∧ ∃ p ∈ plans, p.name = e.index ∧ p.unique ≠ e.unique := by
  induction plans with
  | nil => cases h
  | cons p rest ih =>
    unfold add at h
    split at h
    · rename_i hname
      split at h
      · cases h
      · rename_i hunique
        cases h
        exact ⟨rfl, p, List.mem_cons_self, hname, hunique⟩
    · cases hrest : add rest e with
      | ok q =>
        rw [hrest] at h
        cases h
      | error fault' =>
        rw [hrest] at h
        cases h
        obtain ⟨hfault, q, hq, hname, hunique⟩ := ih hrest
        exact ⟨hfault, q, List.mem_cons_of_mem p hq, hname, hunique⟩

theorem Groups.exists_entry (h : Groups es plans) {p : IndexPlan} (hp : p ∈ plans) :
    ∃ f ∈ es, f.index = p.name ∧ f.unique = p.unique := by
  obtain ⟨x, hx⟩ := List.exists_mem_of_ne_nil _ (h.inhabited p hp)
  rw [h.members p hp] at hx
  obtain ⟨f, hf, -⟩ := List.mem_map.mp hx
  obtain ⟨hf, hname⟩ := List.mem_filter.mp hf
  exact ⟨f, hf, of_decide_eq_true hname, h.agreed p hp f hf (of_decide_eq_true hname)⟩

/-- Planning fails at a membership that differs from an earlier one of the same index. -/
theorem of_foldlM_error (h : Groups done plans) (hadd : es.foldlM add plans = .error fault) :
    ∃ f ∈ done ++ es, ∃ g ∈ done ++ es, f.index = g.index ∧ f.unique ≠ g.unique ∧
      fault = .mixedUniqueness g.index := by
  induction es generalizing done plans with
  | nil => cases hadd
  | cons e rest ih =>
    rw [List.foldlM_cons] at hadd
    rcases error_of_bind hadd with hadd | ⟨mid, hmid, hadd⟩
    · obtain ⟨hfault, p, hp, hname, hunique⟩ := of_add_error hadd
      obtain ⟨f, hf, hfname, hfunique⟩ := h.exists_entry hp
      exact ⟨f, List.mem_append_left _ hf, e, List.mem_append_right _ List.mem_cons_self,
        hfname.trans hname, hfunique ▸ hunique, hfault⟩
    · have := ih (h.add hmid) hadd
      rwa [List.append_assoc, List.singleton_append] at this

theorem groups_nil : Groups [] [] where
  names := .nil
  planned _ he := absurd he List.not_mem_nil
  members _ hp := absurd hp List.not_mem_nil
  inhabited _ hp := absurd hp List.not_mem_nil
  agreed _ hp := absurd hp List.not_mem_nil

/-! ## Sorting -/

/-- Sorting by declared order keeps the order of members that tie. -/
theorem filter_sorted (p : IndexPlan) (k : Int) :
    p.sorted.members.filter (·.1 = k) = p.members.filter (·.1 = k) := by
  -- Members that tie are sorted as they stand, so sorting all members leaves them in this order.
  have hties : (p.members.filter (·.1 = k)).Pairwise fun a b => decide (a.1 ≤ b.1) = true := by
    refine List.pairwise_filter.mpr (List.pairwise_of_forall fun a b ha hb => ?_)
    rw [of_decide_eq_true ha, of_decide_eq_true hb]
    exact decide_eq_true (Int.le_refl k)
  have hsublist : (p.members.filter (·.1 = k)).Sublist p.sorted.members :=
    List.sublist_mergeSort order_trans order_total hties List.filter_sublist
  have hfiltered := hsublist.filter (·.1 = k)
  rw [List.filter_filter] at hfiltered
  simp only [Bool.and_self] at hfiltered
  have hperm : p.sorted.members.Perm p.members := List.mergeSort_perm _ _
  exact (hfiltered.eq_of_length (hperm.filter _).length_eq.symm).symm

end IndexPlan

/-! ## Planning -/

namespace Mapping

open IndexPlan

variable {m : Mapping} {plans : List IndexPlan}

theorem filter_entries (m : Mapping) (name : String) :
    ((entries m).filter fun e => e.index = name).map Entry.member =
      (m.declared.filter fun x => m.indexName x = name).map memberOf := by
  rw [entries_eq, List.filter_map, List.map_map]
  rfl

theorem plans_of_ok (h : ofMapping m = .ok plans) : m.Plans plans := by
  have hplanned := planned_ofMapping h
  unfold ofMapping at h
  obtain ⟨grouped, hadd⟩ : ∃ grouped, (entries m).foldlM add [] = .ok grouped := by
    cases hadd : (entries m).foldlM add [] with
    | error fault =>
      rw [hadd] at h
      cases h
    | ok grouped => exact ⟨grouped, rfl⟩
  rw [hadd] at h
  cases h
  have hgroups : Groups (entries m) grouped := groups_of_foldlM groups_nil hadd
  refine ⟨?_, hplanned.names, fun p hp => ?_, fun p hp x hx hname => ?_, hplanned.ordered,
    fun p hp k => ?_⟩
  · have hnames : grouped.map IndexPlan.name = (([] ++ entries m).map Entry.index).eraseDups :=
      names_of_foldlM hadd rfl
    rw [List.nil_append, entries_eq, List.map_map] at hnames
    rw [List.map_map]
    exact hnames
  · exact filter_entries m p.name ▸ hplanned.members p hp
  · have hentry := hplanned.agreed p hp ⟨m.indexName x, x.2.unique, x.2.order, x.1.name⟩
    rw [entries_eq] at hentry
    exact hentry (List.mem_map_of_mem hx) hname
  · obtain ⟨q, hq, rfl⟩ := List.mem_map.mp hp
    rw [filter_sorted, hgroups.members q hq, filter_entries]
    rfl

/-- **Every index is planned once, with all its declarations.** Planning fails just if two
declarations of one index differ in whether it is unique, and the error names such an index.
Otherwise the plans have distinct names in the order of their first declarations; a plan has one
member for each declaration of its index and no others; it is unique as all of these are; its
members stand by declared order, and where that ties by the order of the mapping. -/
theorem plans_spec (m : Mapping) :
    ((∃ fault, ofMapping m = .error fault) ↔ ∃ x ∈ m.declared, ∃ y ∈ m.declared, m.Mixes x y) ∧
    (∀ fault, ofMapping m = .error fault → ∃ x ∈ m.declared, ∃ y ∈ m.declared, m.Mixes x y ∧
      fault = .mixedUniqueness (m.indexName y)) ∧
    ∀ plans, ofMapping m = .ok plans → m.Plans plans := by
  have hmixed : ∀ fault, ofMapping m = .error fault →
    ∃ x ∈ m.declared, ∃ y ∈ m.declared, m.Mixes x y ∧
      fault = .mixedUniqueness (m.indexName y) := by
    intro fault h
    have hadd : (entries m).foldlM add [] = .error fault := by
      unfold ofMapping at h
      cases hadd : (entries m).foldlM add [] with
      | error fault' =>
        rw [hadd] at h
        exact congrArg Except.error (Except.error.inj h)
      | ok grouped =>
        rw [hadd] at h
        cases h
    obtain ⟨f, hf, g, hg, hname, hunique, hfault⟩ := of_foldlM_error groups_nil hadd
    rw [List.nil_append, entries_eq] at hf hg
    obtain ⟨x, hx, rfl⟩ := List.mem_map.mp hf
    obtain ⟨y, hy, rfl⟩ := List.mem_map.mp hg
    exact ⟨x, hx, y, hy, ⟨hname, hunique⟩, hfault⟩
  refine ⟨⟨fun ⟨fault, h⟩ => ?_, ?_⟩, hmixed, fun plans => plans_of_ok⟩
  · obtain ⟨x, hx, y, hy, h, -⟩ := hmixed fault h
    exact ⟨x, hx, y, hy, h⟩
  · rintro ⟨x, hx, y, hy, hname, hunique⟩
    cases h : ofMapping m with
    | error fault => exact ⟨fault, rfl⟩
    | ok plans =>
      -- One plan would have to be unique as both declarations are.
      have hplans := plans_of_ok h
      have hmem : m.indexName x ∈ plans.map IndexPlan.name := by
        rw [hplans.names, List.mem_eraseDups]
        exact List.mem_map_of_mem hx
      obtain ⟨p, hp, hpname⟩ := List.mem_map.mp hmem
      have hpx := hplans.unique p hp x hx hpname.symm
      have hpy := hplans.unique p hp y hy (hname.symm.trans hpname.symm)
      exact absurd (hpx.trans hpy.symm) hunique

end Mapping

end RecordMapper
