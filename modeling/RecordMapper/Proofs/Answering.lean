import RecordMapper.Proofs.Defining
import RecordMapper.Proofs.Remembering
import RecordMapper.Proofs.Trees

/-!
# Conditions that were evaluated

Where a statement comes to its end, the engine has evaluated its condition on every row.

1. `SelectPlan.condition_back` and `SelectPlan.condition_forth`: a condition and its tree resolve
   together, over any table with the same columns, and hold on the same rows.
2. `SelectPlan.holds_of_run`: the condition of a select that gives its rows has a truth on
   every row.
3. `Mapping.accepts_conjoined_iff`: the condition that filters make is true on a row just where all
   of them are.
4. `Query.Poses`: the condition of a query as it stands in a statement, with the tree that it
   is read as.
5. `Engine.of_run_select`: a select that gives its rows was resolved over the definitions of
   the content.
6. `Session.Views.sifts_of_answer`: the condition of a query tests the rows, if the query without a
   window is answered.
-/

namespace RecordMapper

open Sql (Scalar)

/-! ## Conditions and their trees -/

/-- A condition without parameters resolves over a table, whatever is noted before. -/
def Table.Resolves (t : Table) (tree : Option Scalar) (g : Option Formula) : Prop :=
  ∀ noted, tree.mapM (Resolver.formula (.over t)) noted = .ok (g, noted)

namespace SelectPlan

variable {t known : Table} {ps : Sql.Parameters} {cells : List Cell} {a tree : Option Scalar}
  {f g : Option Formula}

/-- Two conditions, the first under some values of its parameters, are true on the same rows and
fail on the same. -/
def HoldAlike (cells : List Cell) (f g : Option Formula) : Prop :=
  ∀ (s : Scope) (r : Row), holds f { s with parameters := cells } r =
    holds g { s with parameters := [] } r

theorem holdAlike_of_same {o o' : Operand} (h : Operand.Same cells o o') :
    HoldAlike cells (some o.formula) (some o'.formula) := by
  intro s r
  have heval : o.formula.eval (scopeOf { s with parameters := cells } r) =
      o'.formula.eval (scopeOf { s with parameters := [] } r) := h.eval (scopeOf s r)
  unfold holds
  simp only [heval]

/-- A condition that is resolved in a statement resolves, with whatever is noted. -/
theorem condition_of_formula (h : a.mapM (Naming.formula (.over known ps)) = .ok f) :
    ∃ noted, a.mapM (Resolver.formula (.over known ps)) [] = .ok (f, noted) := by
  cases a with
  | none =>
    cases h
    exact ⟨[], rfl⟩
  | some a =>
    have hformula : some <$> Naming.formula (.over known ps) a = .ok f := h
    cases hx : Resolver.formula (.over known ps) a [] with
    | error fault =>
      have hfault : Naming.formula (.over known ps) a = .error fault :=
        congrArg (Except.map Prod.fst) hx
      rw [hfault] at hformula
      cases hformula
    | ok x =>
      have hgiven : Naming.formula (.over known ps) a = .ok x.1 := congrArg (Except.map Prod.fst) hx
      rw [hgiven] at hformula
      cases hformula
      refine ⟨x.2, ?_⟩
      rw [Option.mapM_some, map_eq_pure_bind]
      exact Resolver.bind_ok hx

/-- A condition that resolves has a tree that does. -/
theorem condition_back (ht : known.SameColumns t) (h : Option.Rel (Sql.Filled ps cells) a tree)
    {noted noted' : List Aggregate}
    (hf : a.mapM (Resolver.formula (.over known ps)) noted = .ok (f, noted')) :
    noted' = noted ∧ ∃ g, t.Resolves tree g ∧ HoldAlike cells f g := by
  cases h with
  | none =>
    cases hf
    exact ⟨rfl, none, fun _ => rfl, fun _ _ => rfl⟩
  | @some x b hfilled =>
    rw [Option.mapM_some, map_eq_pure_bind] at hf
    obtain ⟨y, mid, hy, hpure⟩ := Resolver.of_bind_ok hf
    cases hpure
    obtain ⟨o, mid', ho, hpure⟩ := Resolver.of_bind_ok hy
    cases hpure
    have hagrees := hfilled.agrees ht
    obtain ⟨o', ho', hsame⟩ := hagrees.back ho
    obtain ⟨o₂, ho₂, -⟩ := hagrees.forth (ho' noted)
    cases ho.symm.trans ho₂
    refine ⟨rfl, some o'.formula, fun noted => ?_, holdAlike_of_same hsame⟩
    rw [Option.mapM_some, map_eq_pure_bind]
    exact Resolver.bind_ok (Resolver.bind_ok (ho' noted))

/-- A condition whose tree resolves does so, too. -/
theorem condition_forth (ht : known.SameColumns t) (h : Option.Rel (Sql.Filled ps cells) a tree)
    (hg : t.Resolves tree g) (noted : List Aggregate) : ∃ f,
      a.mapM (Resolver.formula (.over known ps)) noted = .ok (f, noted) ∧ HoldAlike cells f g := by
  have hgn := hg noted
  cases h with
  | none =>
    cases hgn
    exact ⟨none, rfl, fun _ _ => rfl⟩
  | @some x b hfilled =>
    rw [Option.mapM_some, map_eq_pure_bind] at hgn
    obtain ⟨y, mid, hy, hpure⟩ := Resolver.of_bind_ok hgn
    cases hpure
    obtain ⟨o', mid', ho', hpure⟩ := Resolver.of_bind_ok hy
    cases hpure
    obtain ⟨o, ho, hsame⟩ := (hfilled.agrees ht).forth ho'
    refine ⟨some o.formula, ?_, holdAlike_of_same hsame⟩
    rw [Option.mapM_some, map_eq_pure_bind]
    exact Resolver.bind_ok (Resolver.bind_ok ho)

/-! ## Runs without a fault -/

theorem holds_of_select {test : Row → Except EngineFault Bool} {rows : List Row}
    (h : (Run.select test rows).fault = none) : ∀ r ∈ rows, ∃ b, test r = .ok b := by
  induction rows with
  | nil => exact nofun
  | cons r rest ih =>
    rw [Run.select] at h
    intro x hx
    cases hr : test r with
    | error fault =>
      rw [hr] at h
      cases h
    | ok b =>
      have hrest : (Run.select test rest).fault = none := by
        rw [hr] at h
        cases b with
        | true => exact h
        | false => exact h
      rcases List.mem_cons.mp hx with rfl | hx
      · exact ⟨b, hr⟩
      · exact ih hrest x hx

theorem fault_of_andThen {α β : Type} {x : Run α} {f : α → Except EngineFault β}
    (h : (x.andThen f).fault = none) : x.fault = none :=
  (Option.or_eq_none_iff.mp h).2

/-- A plan without a window that gives its rows has found the truth of its condition on
every row. -/
theorem holds_of_run {p : SelectPlan} {s : Scope} {visited : List Row} (ha : p.aggregates = [])
    (hd : p.distinct = false) (hw : p.windowOf s = .ok (0, none))
    (h : (p.run s visited).fault = none) :
    ∀ r ∈ visited, ∃ b, holds p.condition s r = .ok b := by
  refine holds_of_select ?_
  unfold run at h
  simp only [hw, ha, List.isEmpty_nil, Bool.not_true, hd, Bool.false_eq_true, if_false,
    reduceCtorEq] at h
  by_cases ho : p.orderings.isEmpty = true
  · rw [if_pos ho] at h
    exact fault_of_andThen h
  · rw [if_neg ho] at h
    generalize hx : (Run.select (holds p.condition s) visited).andThen (p.keyed s) = found at h
    cases hf : found.fault with
    | none => exact fault_of_andThen (hx ▸ hf)
    | some fault =>
      unfold Run.whole at h
      rw [hf] at h
      cases h

end SelectPlan

/-! ## Conjunctions -/

theorem Formula.eval_and_true {f g : Formula} {s : Scope} :
    (∃ v, (Formula.and f g).eval s = .ok v ∧ v.truth = some true) ↔
      (∃ x, f.eval s = .ok x ∧ x.truth = some true) ∧
        ∃ y, g.eval s = .ok y ∧ y.truth = some true := by
  constructor
  · rintro ⟨v, hv, htrue⟩
    cases hf : f.eval s with
    | error fault =>
      unfold eval at hv
      rw [hf] at hv
      cases hv
    | ok x =>
      cases hg : g.eval s with
      | error fault =>
        -- the second part is left out only where the first is false
        unfold eval at hv
        simp only [hf, hg, bind, Except.bind, pure, Except.pure] at hv
        split at hv
        · rename_i hfalse
          cases hv
          rw [Cell.truth_ofTruth, hfalse] at htrue
          cases htrue
        · cases hv
      | ok y =>
        rw [eval_and hf hg] at hv
        obtain rfl := Except.ok.inj hv
        rw [Cell.truth_ofTruth, both_eq_true] at htrue
        exact ⟨⟨x, rfl, htrue.1⟩, y, rfl, htrue.2⟩
  · rintro ⟨⟨x, hx, hxt⟩, y, hy, hyt⟩
    exact ⟨_, eval_and hx hy, by rw [Cell.truth_ofTruth, both_eq_true]; exact ⟨hxt, hyt⟩⟩

namespace Mapping

variable {m : Mapping} {e e' : Expression} {ticks : Bool} {t : Table} {s : Scope} {r : Row}

/-- A predicate whose text is read as its tree: it is one scalar, and its calls without a rule of
their own have names of functions. -/
structure Legible (m : Mapping) (e : Expression) : Prop where
  callable : e.namesCallable = true
  scalar : m.IsScalar e

theorem tree_and {φ : HostValue → Cell} {a a' : Scalar} (ha : m.tree? φ e = some a)
    (ha' : m.tree? φ e' = some a') : m.tree? φ (.binary .and e e') = some (.binary .and a a') := by
  obtain ⟨μ, hμ, ha⟩ := Option.bind_eq_some_iff.mp ha
  obtain ⟨μ', hμ', ha'⟩ := Option.bind_eq_some_iff.mp ha'
  unfold tree?
  rw [reads, hμ, hμ']
  show (Meaning.operation .and μ μ').bind _ = _
  unfold Meaning.operation Meaning.operator
  rw [ha, ha']
  rfl

theorem Legible.and (h : m.Legible e) (h' : m.Legible e') : m.Legible (.binary .and e e') where
  callable := by rw [Expression.namesCallable, h.callable, h'.callable]; rfl
  scalar φ := by
    obtain ⟨a, ha⟩ := h.scalar φ
    obtain ⟨a', ha'⟩ := h'.scalar φ
    exact ⟨_, tree_and ha ha'⟩

theorem accepts_and_iff (h : m.Legible e) (h' : m.Legible e') :
    m.Accepts ticks t s (.binary .and e e') r ↔ m.Accepts ticks t s e r ∧
    m.Accepts ticks t s e' r := by
  obtain ⟨a, ha⟩ := h.scalar (boundAs ticks)
  obtain ⟨a', ha'⟩ := h'.scalar (boundAs ticks)
  have hspelling : BinaryOperator.and.spelling = some "and" := rfl
  unfold Accepts
  simp only [says_iff_tree h.callable ha, says_iff_tree h'.callable ha',
    says_iff_tree (h.and h').callable (tree_and ha ha'), binds_binary_iff hspelling,
    gives_binary_iff h.callable h'.callable ha ha']
  constructor
  · rintro ⟨v, ⟨⟨hb, hb'⟩, o, o', ho, ho', hv⟩, htrue⟩
    obtain ⟨⟨x, hx, hxt⟩, y, hy, hyt⟩ := Formula.eval_and_true.mp ⟨v, hv, htrue⟩
    exact ⟨⟨x, ⟨hb, o, ho, hx⟩, hxt⟩, y, ⟨hb', o', ho', hy⟩, hyt⟩
  · rintro ⟨⟨x, ⟨hb, o, ho, hx⟩, hxt⟩, y, ⟨hb', o', ho', hy⟩, hyt⟩
    obtain ⟨v, hv, htrue⟩ := Formula.eval_and_true.mpr ⟨⟨x, hx, hxt⟩, y, hy, hyt⟩
    exact ⟨v, ⟨⟨hb, hb'⟩, o, o', ho, ho', hv⟩, htrue⟩

/-- The condition that filters make of one that is there. -/
def conjoined (condition : Option Expression) (es : List Expression) : Option Expression :=
  es.foldl (fun p e => some (p.elim e fun existing => .binary .and existing e)) condition

variable {condition : Option Expression} {es : List Expression}

theorem legible_conjoined (hc : ∀ e ∈ condition, m.Legible e) (hes : ∀ e ∈ es, m.Legible e) :
    ∀ e ∈ conjoined condition es, m.Legible e := by
  induction es generalizing condition with
  | nil => exact hc
  | cons e rest ih =>
    have he := hes e List.mem_cons_self
    refine ih (fun p hp => ?_) fun e he => hes e (List.mem_cons_of_mem _ he)
    obtain rfl := Option.some.inj hp
    cases condition with
    | none => exact he
    | some p => exact (hc p rfl).and he

/-- Filters make a condition that is true on the rows on which all of them are. -/
theorem accepts_conjoined_iff (hc : ∀ e ∈ condition, m.Legible e) (hes : ∀ e ∈ es, m.Legible e) :
    (∀ e ∈ conjoined condition es, m.Accepts ticks t s e r) ↔
      (∀ e ∈ condition, m.Accepts ticks t s e r) ∧ ∀ e ∈ es, m.Accepts ticks t s e r := by
  induction es generalizing condition with
  | nil => exact (and_iff_left nofun).symm
  | cons e rest ih =>
    have he := hes e List.mem_cons_self
    have hfirst : ∀ p ∈ conjoined condition [e], m.Legible p :=
      legible_conjoined hc (List.forall_mem_singleton.mpr he)
    have hboth : (∀ p ∈ conjoined condition [e], m.Accepts ticks t s p r) ↔
        (∀ p ∈ condition, m.Accepts ticks t s p r) ∧ m.Accepts ticks t s e r := by
      unfold conjoined
      cases condition with
      | none => simp
      | some p => simp [accepts_and_iff (hc p rfl) he]
    refine (ih hfirst fun e he => hes e (List.mem_cons_of_mem _ he)).trans ?_
    rw [hboth, and_assoc, List.forall_mem_cons]

end Mapping

/-! ## Queries -/

namespace Query

open Mapping (boundAs)

/-- The condition of a query as it stands in a statement: its text is read as the tree of the
predicate, with the values in the places of the parameters. -/
structure Poses (q : Query) (ticks : Bool) (text : String) (arguments : List HostValue)
    (tree : Option Scalar) : Prop where
  condition : q.condition = .ok (text, arguments)
  part : Sql.Part (Sql.Parser.clause "where" Sql.Parser.anyScalar) text
    (arguments.map (boundAs ticks)) ["where", "order", "limit"] ["order", "limit"]
    fun ps cells a => Option.Rel (Sql.Filled ps cells) a tree

variable {q : Query} {ticks : Bool} {text : String} {arguments : List HostValue}
  {tree : Option Scalar}

/-- The tree of the predicate, its values as they are bound. -/
def tree? (q : Query) (ticks : Bool) : Option Scalar :=
  q.state.predicate.bind (q.mapping.tree? (boundAs ticks))

theorem poses (ticks : Bool)
    (hp : ∀ e ∈ q.state.predicate, q.mapping.Legible e) :
    ∃ text arguments, q.Poses ticks text arguments (q.tree? ticks) := by
  unfold tree?
  cases h : q.state.predicate with
  | none =>
    refine ⟨"", [], ?_, Sql.Part.no_condition.imp ?_⟩
    · unfold condition
      rw [h]
    · rintro ps cells a rfl
      exact .none
  | some e =>
    obtain ⟨hn, hs⟩ := hp e h
    obtain ⟨b, hb⟩ := hs (boundAs ticks)
    obtain ⟨c, own, hc, hphrase⟩ := Mapping.compile_of_tree hn hb
    refine ⟨" where " ++ c.text, own, ?_, (Sql.Part.condition_filled hphrase).imp ?_⟩
    · unfold condition
      rw [h]
      show ((q.mapping.compile e []).bind fun x => _) = _
      rw [hc]
      rfl
    · rintro ps cells a ⟨x, rfl, hx⟩
      rw [Option.bind_some, hb]
      exact .some hx

/-- The text of a condition is read to its end and its arguments are bound just where the
predicate is. -/
theorem binds_iff (h : q.condition = .ok (text, arguments)) :
    (∀ e ∈ q.state.predicate, q.mapping.Binds ticks e) ↔
      NoZero text ∧ ∀ v ∈ arguments, (v.cell? ticks).isSome = true := by
  have hwhere : NoZero " where " := by decide
  unfold condition at h
  cases hp : q.state.predicate with
  | none =>
    rw [hp] at h
    cases h
    exact iff_of_true nofun ⟨by decide, nofun⟩
  | some e =>
    rw [hp] at h
    obtain ⟨⟨c, own⟩, hc, hpure⟩ := ok_of_bind h
    cases hpure
    rw [noZero_append, and_iff_right hwhere]
    constructor
    · intro hb
      obtain ⟨c', own', hc', hbinds⟩ := hb e rfl
      cases hc.symm.trans hc'
      exact hbinds
    · rintro hbinds _ ⟨⟩
      exact ⟨c, arguments, hc, hbinds⟩

/-- A condition whose tree resolves and has a truth on every row tests the rows. -/
theorem Poses.conditioned (h : q.Poses ticks text arguments tree) {known t : Table} {s : Scope}
    {test : Row → Bool} {g : Option Formula}
    (hb : Stored ticks arguments (arguments.map (boundAs ticks))) (hk : known.SameColumns t)
    (hg : t.Resolves tree g)
    (hholds : ∀ r ∈ t.rows, SelectPlan.holds g { s with parameters := [] } r = .ok (test r)) :
    q.Conditioned ticks known t s test text arguments (arguments.map (boundAs ticks))
      fun ps cells a => Option.Rel (Sql.Filled ps cells) a tree where
  condition := h.condition
  stored := hb
  part := h.part
  resolves ps a ha noted := by
    obtain ⟨f, hf, halike⟩ := SelectPlan.condition_forth hk ha hg noted
    exact ⟨f, hf, fun r hr => (halike s r).trans (hholds r hr)⟩

end Query

/-! ## Statements that were carried out -/

namespace Engine

variable {e r : Engine}

/-- A select over a table that gives its rows was resolved over the definitions of the content, and
the rows are those of its plan. -/
theorem of_run_select (hc : e.Current) {p : Prepared} {select : Sql.Select} {name : String}
    (hp : p.statement = some (.select select)) (hsource : select.source = some ⟨name, none⟩)
    {run : Run (List Cell)} (hrun : e.run p = (run, r)) (hf : run.fault = none) :
    ∃ d plan, d.bare = e.content.bare ∧ SelectPlan.of d p.parameters select = .ok plan ∧
      run = plan.run { e.link.scope with parameters := p.bindings }
        (((e.content.readable? name).map (plan.visited e.content)).getD [⟨0, []⟩]) := by
  have hneed : ∀ {d : Database} {program : Program},
      Program.of d p.parameters (.select select) = .ok program →
        ∃ plan, SelectPlan.of d p.parameters select = .ok plan ∧
          program = .select plan (some name) := by
    intro d program h
    obtain ⟨plan, hplan, h⟩ := ok_of_bind h
    cases h
    exact ⟨plan, hplan, by rw [hsource]; rfl⟩
  cases hx : e.enter p (.select select) with
  | error fault =>
    cases (run_error hp hx).symm.trans hrun
    cases hf
  | ok x =>
    obtain ⟨program, w⟩ := x
    obtain ⟨d, hbare, hof, halike, -, -, hscope, -⟩ := enter_bare hc (fun h => by
      obtain ⟨plan, -, rfl⟩ := hneed h
      nofun) hx
    obtain ⟨plan, hplan, rfl⟩ := hneed hof
    refine ⟨d, plan, hbare, hplan, ?_⟩
    obtain ⟨rfl, -⟩ := Prod.mk.inj ((run_reads hp hx rfl).symm.trans hrun)
    have hs : w.scope p = { w.link.scope with parameters := p.bindings } := rfl
    rw [hs, hscope, halike.content]
    rfl

end Engine

theorem SelectPlan.condition_of_rows {d : Database} {ps : Sql.Parameters} {table : String}
    {a : Option Scalar} {terms : List Sql.OrderTerm} {limit offset : Option Scalar}
    {plan : SelectPlan} (h : SelectPlan.of d ps (.rows table a terms limit offset) = .ok plan) :
    ∃ known f noted, d.readable? table = some known ∧
      a.mapM (Resolver.formula (.over known ps)) [] = .ok (f, noted) := by
  obtain ⟨source, hsource, h⟩ := ok_of_bind h
  obtain ⟨known, hknown, rfl⟩ : ∃ known, d.readable? table = some known ∧ source = some known := by
    unfold sourceTable at hsource
    simp only [Sql.Select.rows] at hsource
    cases ht : d.readable? table with
    | some t =>
      rw [ht] at hsource
      exact ⟨t, rfl, (Except.ok.inj hsource).symm⟩
    | none =>
      rw [ht] at hsource
      cases hsource
  obtain ⟨l, -, h⟩ := ok_of_bind h
  obtain ⟨o, -, h⟩ := ok_of_bind h
  obtain ⟨⟨⟨columns, f, keys⟩, aggregates⟩, hresolve, -⟩ := ok_of_bind h
  obtain ⟨results, mid, hresults, hresolve⟩ := Resolver.of_bind_ok hresolve
  obtain ⟨rfl, rfl⟩ : results = [starColumns known] ∧ mid = [] := by
    cases hresults
    exact ⟨rfl, rfl⟩
  obtain ⟨f', noted, hf, -⟩ := Resolver.of_bind_ok hresolve
  have hnone : ([starColumns known].flatten.filterMap fun c =>
      c.otherName.map fun name => (name, c.operand)) = [] := by
    rw [List.filterMap_eq_nil_iff]
    intro c hc
    rw [List.flatten_singleton] at hc
    rw [otherName_of_mem_starColumns hc]
    rfl
  rw [hnone] at hf
  exact ⟨known, f', noted, hknown, hf⟩

namespace Session

open RecordMapper.Action

variable {s u : Session} {link : Link} {m : Mapping} {t : Table} {q : Query}

/-- A command that is ready has its text read and its values stored; the link knows definitions that
it knew before or those of the content, and nothing else has changed. -/
theorem of_ready_link (hl : s.connection.link = some link) {text : String} {values : List HostValue}
    {p : Prepared} (h : ready (.positional text values) s = (.ok p, u)) :
    Sql.readStatement text = .ok (p.statement, p.parameters) ∧
      Stored s.connection.settings.ticks values p.bindings ∧
      ∃ known, (known = link.known ∨ known = some (Engine.content ⟨s.storage, link⟩)) ∧
        u = withEngine { s with log := text :: s.log } ⟨s.storage, { link with known }⟩ := by
  obtain ⟨hread, hstored⟩ := of_ready h
  obtain ⟨q, u', hprepare, h⟩ := of_bind_ok h
  rw [get_bind, ofExcept_apply] at h
  obtain ⟨-, rfl⟩ := Prod.mk.inj h
  obtain ⟨known, hknown, hd⟩ := Engine.prepare_alike (e := ⟨s.storage, link⟩) text
  rcases hp : Engine.prepare ⟨s.storage, link⟩ text with ⟨x, e⟩
  rw [hp] at hd
  obtain rfl : e = ⟨s.storage, { link with known }⟩ := hd
  obtain ⟨-, rfl⟩ := Prod.mk.inj ((prepare_apply hl hp).symm.trans hprepare)
  exact ⟨hread, hstored, known, hknown, rfl⟩

theorem Views.current (h : s.Views link m t) : Engine.Current ⟨s.storage, link⟩ :=
  fun k hk _ => h.readable.current k hk

theorem finishRecords_apply (hl : s.connection.link = some link) {p : Prepared}
    {rows : Run (List Cell)} {e : Engine} (h : Engine.run ⟨s.storage, link⟩ p = (rows, e)) :
    finishRecords m p s = (collect rows (materialize m p.names), s.withEngine e) := by
  unfold finishRecords
  rw [Action.bind_ok (step_apply hl h), ofExcept_apply]

theorem of_collect {α : Type} {rows : Run (List Cell)} {f : List Cell → Except Error α}
    {items : List α} (h : collect rows f = .ok items) :
    rows.fault = none ∧ rows.items.mapM f = .ok items := by
  obtain ⟨items', hitems, h⟩ := ok_of_bind h
  split at h
  · cases h
  · rename_i hf
    cases h
    exact ⟨hf, hitems⟩

/-- What the condition of a query tests, where the query without a window is answered: the engine
has evaluated its tree on every row. -/
theorem Views.sifts_of_answer (h : s.Views link q.mapping t) (hj : q.state.joined = false)
    (hl : q.state.limit = none) (ho : q.state.offset = none)
    (hp : ∀ e ∈ q.state.predicate, q.mapping.Legible e)
    {items : List Record} (hlist : (toList q s).1 = .ok items) :
    ∃ test, s.Sifts link q t test := by
  obtain ⟨known, hknown, hsame⟩ := h.known
  obtain ⟨text, arguments, hposes⟩ := Query.poses s.connection.settings.ticks hp
  obtain ⟨a, orderings, ps, hread, -, hgood, horders⟩ :=
    Sql.readsAs_query q.state q.mapping.table (.star _) hposes.part
  rw [hl, ho] at hread
  rcases hx : toList q s with ⟨x, u⟩
  rw [hx] at hlist
  obtain rfl : x = .ok items := hlist
  unfold toList at hx
  rw [Action.bind_ok ((congrArg (Action.ofExcept · s) (Query.command_apply hj hposes.condition "*")).trans
    (ofExcept_apply _ s))] at hx
  unfold records at hx
  rw [Action.bind_ok h.mapping_apply] at hx
  obtain ⟨p, w, hready, hfinish⟩ := of_bind_ok hx
  obtain ⟨hread', hstored, known', hk', rfl⟩ := of_ready_link h.isOpen hready
  obtain ⟨hstatement, rfl⟩ := Prod.mk.inj ((hread.of_ok hread').2)
  obtain ⟨hall, hbindings⟩ := Mapping.stored_iff.mp hstored
  rcases hrun : Engine.run ⟨s.storage, { link with known := known' }⟩ p with ⟨run, e⟩
  obtain ⟨hfault, -⟩ :=
    of_collect (Prod.mk.inj (hfinish.symm.trans (finishRecords_apply rfl hrun))).1.symm
  have hcurrent : Engine.Current ⟨s.storage, { link with known := known' }⟩ := by
    rcases hk' with rfl | rfl
    · exact h.current
    · exact .of_known rfl
  obtain ⟨d, plan, hbare, hplan, hrows⟩ := Engine.of_run_select hcurrent hstatement rfl hrun hfault
  -- the plan of the run, over the columns of the table
  obtain ⟨shape, f, noted, hshape, hf⟩ := SelectPlan.condition_of_rows hplan
  obtain ⟨t', ht', hbare'⟩ := Database.readable?_of_bare hbare hshape
  obtain rfl : t' = t := Option.some.inj (ht'.symm.trans h.table)
  have hsame' : shape.SameColumns t' := Table.sameColumns_of_bare hbare'.symm
  obtain ⟨rfl, g, hg, halike⟩ := SelectPlan.condition_back hsame' hgood hf
  obtain rfl := Except.ok.inj (hplan.symm.trans
    (SelectPlan.of_rows (l := none) (o := none) hshape rfl rfl hf horders))
  have htable : (Engine.content ⟨s.storage, { link with known := known' }⟩).readable?
    q.mapping.table =
      some t' := h.table
  rw [Table.plan_eq hsame', hbindings, htable, Option.map_some, Option.getD_some] at hrows
  rw [hrows] at hfault
  have htrue := SelectPlan.holds_of_run rfl rfl rfl hfault
  -- whether the condition is true on a row
  let truth (r : Row) : Bool :=
    (SelectPlan.holds g { link.scope with parameters := [] } r).toOption.getD false
  refine ⟨truth, known, text, arguments, _, _, hknown, hsame, hposes.conditioned
    (Mapping.stored_iff.mpr ⟨hall, rfl⟩) hsame hg fun r hr => ?_⟩
  obtain ⟨b, hb⟩ := htrue r ((SelectPlan.visited_perm _ _ _).mem_iff.mpr hr)
  have hholds : SelectPlan.holds g { link.scope with parameters := [] } r = .ok b :=
    (halike link.scope r).symm.trans hb
  show _ = Except.ok ((SelectPlan.holds g { link.scope with parameters := [] } r).toOption.getD false)
  rw [hholds]
  rfl

end Session

end RecordMapper
