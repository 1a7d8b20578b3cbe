import RecordMapper.Proofs.Answering

/-!
# What filters let pass

The filters of a query, each taken for what the engine makes of its text.

1. `Mapping.Computes`: the engine evaluates an expression on every row of a table, to some cells. It
   comes to what its tree does.
2. `Mapping.Admits`: which rows a condition lets pass. Filters that can be read apart pass together.
3. `Session.Views.toList_of_steps`: what a query gives that was built by any steps.
-/

namespace RecordMapper

/-! ## Predicates on all rows -/

namespace Mapping

/-- The engine can evaluate an expression on every row of a table: it compiles, its arguments can be
stored, its text is read as one scalar over the columns of the table, and this is evaluated with the
arguments in the places of the parameters to the cells that are given. -/
def Computes (m : Mapping) (ticks : Bool) (t : Table) (s : Scope) (e : Expression)
    (value : Row → Cell) : Prop :=
  ∃ c arguments cells a ps f, m.compile e [] = .ok (c, arguments) ∧ Stored ticks arguments cells ∧
    Sql.readScalar c.text = .ok (a, ps) ∧ Resolver.formula (.over t ps) a [] = .ok (f, []) ∧
    ∀ r ∈ t.rows, f.eval (SelectPlan.scopeOf { s with parameters := cells } r) = .ok (value r)

variable {m : Mapping} {ticks : Bool} {t : Table} {s : Scope} {e e' : Expression}
  {value value' : Row → Cell}

/-- What an expression says of every row is computed, where there is a row. -/
theorem computes_of_says {r : Row} (hr : r ∈ t.rows)
    (h : ∀ r ∈ t.rows, m.Says ticks t s e r (value r)) :
    m.Computes ticks t s e value := by
  obtain ⟨c, arguments, cells, a, ps, f, hc, hs, ha, hf, -⟩ := h r hr
  exact ⟨c, arguments, cells, a, ps, f, hc, hs, ha, hf, fun r hr => (h r hr).unique hc hs ha hf⟩

theorem computes_iff_tree {a : Sql.Scalar} (hn : e.namesCallable = true)
    (ha : m.tree? (boundAs ticks) e = some a) : m.Computes ticks t s e value ↔ m.Binds ticks e ∧
      ∃ o, (∀ noted, Resolver.operand (.over t) a noted = .ok (o, noted)) ∧ ∀ r ∈ t.rows,
        o.formula.eval (SelectPlan.scopeOf { s with parameters := [] } r) = .ok (value r) :=
  evaluated_iff_tree hn ha fun values => ∀ r ∈ t.rows, values r = .ok (value r)

theorem Computes.and (hl : m.Legible e) (hl' : m.Legible e') (h : m.Computes ticks t s e value)
    (h' : m.Computes ticks t s e' value') : m.Computes ticks t s (.binary .and e e')
      fun r => Cell.ofTruth (Formula.both (value r).truth (value' r).truth) := by
  obtain ⟨a, ha⟩ := hl.scalar (boundAs ticks)
  obtain ⟨a', ha'⟩ := hl'.scalar (boundAs ticks)
  obtain ⟨hb, o, ho, heval⟩ := (computes_iff_tree hl.callable ha).mp h
  obtain ⟨hb', o', ho', heval'⟩ := (computes_iff_tree hl'.callable ha').mp h'
  have hspelling : BinaryOperator.and.spelling = some "and" := rfl
  refine (computes_iff_tree (hl.and hl').callable (tree_and ha ha')).mpr
    ⟨(binds_binary_iff hspelling).mpr ⟨hb, hb'⟩, Resolver.binary .and o o', fun noted => ?_,
      fun r hr => Formula.eval_and (heval r hr) (heval' r hr)⟩
  rw [Resolver.operand]
  exact (Resolver.bind_ok (ho noted)).trans (Resolver.bind_ok (ho' noted))

/-! ## Conditions -/

/-- A condition, as the engine makes it of its text, is true on just the rows that pass a test. -/
def Admits (m : Mapping) (ticks : Bool) (t : Table) (s : Scope) (condition : Option Expression)
    (test : Row → Bool) : Prop :=
  match condition with
  | none => ∀ r ∈ t.rows, test r = true
  | some e => ∃ value, m.Computes ticks t s e value ∧
    ∀ r ∈ t.rows, test r = ((value r).truth == some true)

variable {condition : Option Expression} {test : Row → Bool}

/-- One more filter lets just the rows pass on which it is true, too. -/
theorem Admits.filter (h : m.Admits ticks t s condition test) (hc : ∀ p ∈ condition, m.Legible p)
    (hl : m.Legible e) (he : m.Computes ticks t s e value) :
    m.Admits ticks t s (some (condition.elim e fun existing => .binary .and existing e))
      fun r => test r && (value r).truth == some true := by
  cases condition with
  | none =>
    refine ⟨value, he, fun r hr => ?_⟩
    have htest : test r = true := h r hr
    simp only [htest, Bool.true_and]
  | some existing =>
    obtain ⟨before, hbefore, htest⟩ := h
    refine ⟨_, hbefore.and (hc existing rfl) hl he, fun r hr => ?_⟩
    rw [Bool.eq_iff_iff]
    simp only [htest r hr, Cell.truth_ofTruth, Bool.and_eq_true, beq_iff_eq, Formula.both_eq_true]

/-- Filters let just the rows pass on which all of them are true. -/
theorem Admits.conjoined (h : m.Admits ticks t s condition test) (hc : ∀ p ∈ condition, m.Legible p)
    {es : List Expression} (hl : ∀ e ∈ es, m.Legible e) {value : Expression → Row → Cell}
    (hes : ∀ e ∈ es, m.Computes ticks t s e (value e)) : m.Admits ticks t s (conjoined condition es)
      fun r => test r && es.all fun e => (value e r).truth == some true := by
  induction es generalizing condition test with
  | nil => simpa only [conjoined, List.foldl_nil, List.all_nil, Bool.and_true] using h
  | cons e rest ih =>
    obtain ⟨hle, hlr⟩ := List.forall_mem_cons.mp hl
    obtain ⟨he, hr⟩ := List.forall_mem_cons.mp hes
    have hfirst : ∀ p ∈ Mapping.conjoined condition [e], m.Legible p :=
      legible_conjoined hc (List.forall_mem_singleton.mpr hle)
    have hrest := ih (h.filter hc hle he) hfirst hlr hr
    simp only [List.all_cons, ← Bool.and_assoc]
    exact hrest

/-- The tree of a legible condition resolves, its values can be bound, and it is true on the rows
that it admits. -/
theorem Admits.holds (h : m.Admits ticks t s condition test) (hc : ∀ e ∈ condition, m.Legible e) :
    (∀ e ∈ condition, m.Binds ticks e) ∧
      ∃ g, t.Resolves (condition.bind (m.tree? (boundAs ticks))) g ∧
        ∀ r ∈ t.rows, SelectPlan.holds g { s with parameters := [] } r = .ok (test r) := by
  cases condition with
  | none => exact ⟨nofun, none, fun _ => rfl, fun r hr => congrArg Except.ok (h r hr).symm⟩
  | some e =>
    obtain ⟨value, he, htest⟩ := h
    obtain ⟨hcallable, hscalar⟩ := hc e rfl
    obtain ⟨a, ha⟩ := hscalar (boundAs ticks)
    obtain ⟨hbinds, o, ho, heval⟩ := (computes_iff_tree hcallable ha).mp he
    refine ⟨fun e' he' => Option.some.inj he' ▸ hbinds, some o.formula, fun noted => ?_,
      fun r hr => ?_⟩
    · rw [Option.bind_some, ha, Option.mapM_some, map_eq_pure_bind]
      exact Resolver.bind_ok (Resolver.bind_ok (ho noted))
    · unfold SelectPlan.holds
      simp only [heval r hr, htest r hr, bind, Except.bind, pure, Except.pure]

end Mapping

/-! ## Queries -/

namespace Session

variable {s : Session} {link : Link} {m : Mapping} {t : Table} {q : Query} {test : Row → Bool}

/-- A legible condition lets those rows pass in a statement that it admits. -/
theorem Views.sifts_of_admits (h : s.Views link m t) (hm : q.mapping = m)
    (hp : ∀ e ∈ q.state.predicate, m.Legible e)
    (ha : m.Admits s.connection.settings.ticks t link.scope q.state.predicate test) :
    s.Sifts link q t test := by
  subst hm
  obtain ⟨known, hknown, hsame⟩ := h.known
  obtain ⟨text, arguments, hposes⟩ := Query.poses s.connection.settings.ticks hp
  obtain ⟨hbinds, g, hg, hholds⟩ := ha.holds hp
  exact ⟨known, text, arguments, _, _, hknown, hsame,
    hposes.conditioned (Mapping.stored_iff.mpr ⟨((Query.binds_iff hposes.condition).mp hbinds).2, rfl⟩)
      hsame hg hholds⟩

/-- Where the engine evaluates a legible condition, only the name of the table or of a column that
the query is ordered by may break its statement. -/
theorem unbroken_of_admits {ticks : Bool} {scope : Scope} (hm : q.mapping = m)
    (hj : q.state.joined = false) (hp : ∀ e ∈ q.state.predicate, m.Legible e)
    (ha : m.Admits ticks t scope q.state.predicate test) (ht : NoZero m.table)
    (hk : ∀ k ∈ q.state.orderings.getD [], NoZero k.column) : q.Unbroken := by
  subst hm
  obtain ⟨text, arguments, hposes⟩ := Query.poses ticks hp
  obtain ⟨hbinds, -⟩ := ha.holds hp
  exact (Query.unbroken_iff hj hposes.condition).mpr ⟨ht, ((Query.binds_iff hposes.condition).mp hbinds).1, hk⟩

/-- **What a query gives.** Its steps come in any order. Of the rows of the table, those on which
all filters are true are sorted by the orderings in the order of the steps, each compared in the
other direction where it descends; the last offset and the last limit cut their window out of these,
and every row of the window becomes its record. The names of the table and of the columns that the
rows are sorted by have no zero character, at which the engine would stop reading. -/
theorem Views.toList_of_steps (h : s.Views link m t) {steps : List QueryStep} {q : Query}
    (hq : steps.foldlM Query.step { mapping := m } = .ok q) (hn : ∀ step ∈ steps, step ≠ .nextTake)
    (ht : NoZero m.table) (hk : ∀ k ∈ QueryStep.orderings m steps, NoZero k.column)
    (hl : ∀ n ∈ QueryStep.limits steps, n < 2 ^ 63) (ho : ∀ n ∈ QueryStep.offsets steps, n < 2 ^ 63)
    (hp : ∀ e ∈ QueryStep.predicates steps, m.Legible e) {value : Expression → Row → Cell}
    (hv : ∀ e ∈ QueryStep.predicates steps,
      m.Computes s.connection.settings.ticks t link.scope e (value e))
    {decode : Row → Record}
    (hd : ∀ r ∈ t.rows, (∀ e ∈ QueryStep.predicates steps, (value e r).truth = some true) →
      materialize m t.names (t.read r) = .ok (decode r)) :
    ∃ sorted,
      sorted.Perm (t.rows.filter fun r =>
        (QueryStep.predicates steps).all fun e => (value e r).truth == some true) ∧
      sorted.Pairwise (fun a b => t.compareRows (QueryStep.orderings m steps) a b ≠ .gt) ∧
      (toList q s).1 = .ok ((window ((QueryStep.offsets steps).getLast?.getD 0)
        (QueryStep.limits steps).getLast? sorted).map decode) := by
  obtain ⟨hmapping, hjoined, hpredicate, horderings, hlimit, hoffset⟩ := Query.built_of_steps hq hn
  rw [Option.or_none] at hlimit hoffset
  replace hpredicate : q.state.predicate = Mapping.conjoined none (QueryStep.predicates steps) :=
    hpredicate
  have hall : m.Admits s.connection.settings.ticks t link.scope none fun _ => true := fun _ _ => rfl
  have hadmits := hall.conjoined nofun hp hv
  have hlegible : ∀ e ∈ Mapping.conjoined none (QueryStep.predicates steps), m.Legible e :=
    Mapping.legible_conjoined nofun hp
  rw [← hpredicate] at hadmits hlegible
  simp only [Bool.true_and] at hadmits
  rw [← show q.state.orderings.getD [] = QueryStep.orderings m steps from horderings] at hk ⊢
  obtain ⟨sorted, hperm, hsorted, hlist⟩ := h.toList_apply hmapping hjoined
    (unbroken_of_admits hmapping hjoined hlegible hadmits ht hk)
    (h.sifts_of_admits hmapping hlegible hadmits)
    (fun n hn => hl n (List.mem_of_getLast? (hlimit ▸ hn)))
    (fun n hn => ho n (List.mem_of_getLast? (hoffset ▸ hn)))
  rw [hlimit, hoffset] at hlist
  refine ⟨sorted, hperm, hsorted, hlist.trans (mapM_eq_ok_iff.mpr
    (List.forall₂_map_right_iff.mpr (List.forall₂_same.mpr fun r hr => ?_)))⟩
  have hmem := List.mem_filter.mp (hperm.mem_iff.mp (SelectPlan.mem_of_mem_window hr))
  exact hd r hmem.1 fun e he => beq_iff_eq.mp (List.all_eq_true.mp hmem.2 e he)

/-- Of the notes whose number is greater than two, the last one. -/
theorem toList_of_steps_notebook :
    let rows : List Row := [⟨1, [.null, .text "a"]⟩, ⟨2, [.null, .text "b"]⟩,
      ⟨3, [.null, .text "c"]⟩]
    let steps : List QueryStep := [.order (.property "Id") false, .take 1,
      .filter (.binary .gt (.property "Id") (.constant (.scalar (.int 2))))]
    ∃ q, steps.foldlM Query.step { mapping := notes } = .ok q ∧
      (toList q (notebook rows)).1 = .ok [⟨"Note", [.int 3, .text "c"]⟩] := by
  intro rows steps
  have hlegible : ∀ e ∈ QueryStep.predicates steps, notes.Legible e :=
    List.forall_mem_singleton.mpr ⟨rfl, fun _ => ⟨_, rfl⟩⟩
  have hcomputes : ∀ e ∈ QueryStep.predicates steps, notes.Computes true (noteTable rows)
      (Link.scope { id := 0 }) e fun r => Cell.ofBool (2 < r.id) := by
    refine List.forall_mem_singleton.mpr ((Mapping.computes_iff_tree rfl rfl).mpr
      ⟨⟨_, _, rfl, by decide, by decide⟩, _, fun noted => rfl, fun r hr => ?_⟩)
    rcases hr with _ | ⟨_, _ | ⟨_, _ | ⟨_, hr⟩⟩⟩
    · rfl
    · rfl
    · rfl
    · nomatch hr
  have hdecodes : ∀ r ∈ rows, materialize notes (noteTable rows).names ((noteTable rows).read r) =
      .ok ⟨"Note", [.int (Int64.ofInt r.id), Cell.plain ((r.cells[1]?).getD .null)]⟩ := by
    intro r (hr : r ∈ (noteTable rows).rows)
    rcases hr with _ | ⟨_, _ | ⟨_, _ | ⟨_, hr⟩⟩⟩
    · rfl
    · rfl
    · rfl
    · nomatch hr
  obtain ⟨q, hq⟩ : ∃ q, steps.foldlM Query.step { mapping := notes } = .ok q := ⟨_, rfl⟩
  obtain ⟨sorted, hperm, -, hlist⟩ := (views_notebook rows).toList_of_steps hq
    (by simp [steps]) (by decide) (List.forall_mem_singleton.mpr (by decide)) (by decide) (by decide) hlegible hcomputes fun r hr _ => hdecodes r hr
  have hone : sorted = [⟨3, [.null, .text "c"]⟩] := List.perm_singleton.mp hperm
  exact ⟨q, hq, by rw [hlist, hone]; rfl⟩

/-- Filters are not always read apart: behind a call whose name is no name of a function, a query
also gives a note on which the second filter is false. -/
theorem not_always_toList_of_steps : ¬∀ {s : Session} {link : Link} {m : Mapping} {t : Table}
    {steps : List QueryStep} {q : Query} {value : Expression → Row → Cell} {decode : Row → Record},
    s.Views link m t → steps.foldlM Query.step { mapping := m } = .ok q →
      (∀ step ∈ steps, step ≠ .nextTake) → (∀ n ∈ QueryStep.limits steps, n < 2 ^ 63) →
      (∀ n ∈ QueryStep.offsets steps, n < 2 ^ 63) →
      (∀ e ∈ QueryStep.predicates steps,
        m.Computes s.connection.settings.ticks t link.scope e (value e)) →
      (∀ r ∈ t.rows, (∀ e ∈ QueryStep.predicates steps, (value e r).truth = some true) →
        materialize m t.names (t.read r) = .ok (decode r)) →
      ∃ sorted,
        sorted.Perm (t.rows.filter fun r =>
          (QueryStep.predicates steps).all fun e => (value e r).truth == some true) ∧
        sorted.Pairwise (fun a b => t.compareRows (QueryStep.orderings m steps) a b ≠ .gt) ∧
        (toList q s).1 = .ok ((window ((QueryStep.offsets steps).getLast?.getD 0)
          (QueryStep.limits steps).getLast? sorted).map decode) := by
  intro hclaim
  let rows : List Row := [⟨1, [.null, .text "a"]⟩, ⟨2, [.null, .text "b"]⟩]
  let any : Expression := .call "1=1 or abs" [.constant (.scalar (.int 1))]
  let second : Expression := .binary .eq (.property "Id") (.constant (.scalar (.int 2)))
  let steps : List QueryStep := [.filter any, .filter second]
  let q : Query := { mapping := notes, state := { predicate := some (.binary .and any second) } }
  have hq : steps.foldlM Query.step { mapping := notes } = .ok q := rfl
  let value (e : Expression) (r : Row) : Cell :=
    (notes.says? true (noteTable rows) (Link.scope { id := 0 }) e r).getD .null
  have hcomputes : ∀ e ∈ QueryStep.predicates steps,
      notes.Computes true (noteTable rows) (Link.scope { id := 0 }) e (value e) := by
    have hsaid : ∀ e ∈ [any, second], ∀ r ∈ rows,
        (notes.says? true (noteTable rows) (Link.scope { id := 0 }) e r).isSome = true := by
      decide +kernel
    intro e he
    refine Mapping.computes_of_says (r := ⟨1, [.null, .text "a"]⟩) List.mem_cons_self fun r hr => ?_
    obtain ⟨v, hv⟩ := Option.isSome_iff_exists.mp (hsaid e he r hr)
    have hvalue : value e r = v := by
      show (notes.says? true (noteTable rows) (Link.scope { id := 0 }) e r).getD .null = v
      rw [hv]
      rfl
    exact hvalue ▸ Mapping.says?_eq_some_iff.mp hv
  have hdecodes : ∀ r ∈ rows, materialize notes (noteTable rows).names ((noteTable rows).read r) =
      .ok ⟨"Note", [.int (Int64.ofInt r.id), Cell.plain ((r.cells[1]?).getD .null)]⟩ := by
    intro r (hr : r ∈ (noteTable rows).rows)
    rcases hr with _ | ⟨_, _ | ⟨_, hr⟩⟩
    · rfl
    · rfl
    · nomatch hr
  have hboth : (toList q (notebook rows)).1 =
      .ok [⟨"Note", [.int 1, .text "a"]⟩, ⟨"Note", [.int 2, .text "b"]⟩] :=
    ok_of_toOption (by decide +kernel)
  obtain ⟨sorted, hperm, -, hlist⟩ := hclaim (views_notebook rows) hq (by simp [steps]) (by decide)
    (by decide) hcomputes fun r hr _ => hdecodes r hr
  have hone : sorted.length = 1 := hperm.length_eq.trans (by decide +kernel)
  have htwo := congrArg List.length (Except.ok.inj (hboth.symm.trans hlist))
  rw [List.length_map] at htwo
  exact absurd (htwo.trans hone) (by decide)

end Session

end RecordMapper
