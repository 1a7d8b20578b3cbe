import RecordMapper.Proofs.Changing
import RecordMapper.Proofs.Current
import RecordMapper.Session.Querying

/-!
# What queries give

A query over the records of a table, run on a session that may read.

1. `Mapping.Evaluates`: the engine evaluates a predicate on every row, to some cells.
2. `Mapping.Tests`: which rows a condition lets pass.
3. `Session.Views`: a session on which queries over a mapping can run, with the table it sees.
4. `Session.Sifts`: which rows the condition of a query lets pass, as the engine reads it.
   `Session.Views.toList_apply`: the records of the query are those of the window of these rows.
-/

namespace RecordMapper

open Sql (Scalar)

/-! ## Predicates on rows -/

namespace Mapping

/-- The engine can evaluate an expression on every row of a table: what it means resolves to a
formula whose values on the rows are given. -/
def Evaluates (m : Mapping) (ticks : Bool) (t : Table) (s : Scope) (e : Expression)
    (value : Row → Cell) : Prop :=
  ∃ a o, (m.mean ticks e).bind (fun μ => μ.reading.scalar?) = some a ∧
    (∀ noted, Resolver.operand (.over t) a noted = .ok (o, noted)) ∧
    ∀ r ∈ t.rows, o.formula.eval (SelectPlan.scopeOf { s with parameters := [] } r) = .ok (value r)

end Mapping

namespace Cell

theorem truth_ofTruth (b : Option Bool) : (ofTruth b).truth = b := by
  rcases b with _ | _ | _
  · rfl
  · rfl
  · rfl

end Cell

namespace Formula

theorem both_eq_true {x y : Option Bool} : both x y = some true ↔
    x = some true ∧ y = some true := by
  rcases x with _ | _ | _ <;> rcases y with _ | _ | _ <;> decide

theorem eval_and {f g : Formula} {s : Scope} {x y : Cell} (hf : f.eval s = .ok x)
    (hg : g.eval s = .ok y) :
    (Formula.and f g).eval s = .ok (Cell.ofTruth (both x.truth y.truth)) := by
  unfold eval
  simp only [hf, hg, bind, Except.bind, pure, Except.pure]
  split
  · rename_i h
    rw [h]
    rfl
  · rfl

end Formula

/-! ## Steps of a query -/

namespace QueryStep

/-- The predicates of the filters among some steps. -/
def predicates (steps : List QueryStep) : List Expression :=
  steps.filterMap fun
    | filter p => some p
    | _ => none

def orderings (m : Mapping) (steps : List QueryStep) : List SortTerm :=
  steps.filterMap fun
    | order selector ascending => ((m.orderingColumn selector).toOption).map fun c => ⟨c, ascending⟩
    | _ => none

def limits (steps : List QueryStep) : List Nat :=
  steps.filterMap fun
    | take n => some n
    | _ => none

def offsets (steps : List QueryStep) : List Nat :=
  steps.filterMap fun
    | skip n => some n
    | _ => none

end QueryStep

namespace Query

/-- What some steps make of a query apart from its window, whatever their order. -/
structure Gathers (q q' : Query) (steps : List QueryStep) : Prop where
  mapping : q'.mapping = q.mapping
  joined : q'.state.joined = q.state.joined
  predicate : q'.state.predicate = (QueryStep.predicates steps).foldl (fun p e =>
    some (p.elim e fun existing => .binary .and existing e)) q.state.predicate
  orderings : q'.state.orderings.getD [] =
    q.state.orderings.getD [] ++ QueryStep.orderings q.mapping steps

variable {q q' q'' : Query}

theorem gathers_of_step {s : QueryStep} (h : q.step s = .ok q') : Gathers q q' [s] := by
  cases s with
  | filter p =>
    cases h
    refine ⟨rfl, rfl, ?_, (List.append_nil _).symm⟩
    show (q.state.filter p).predicate = some _
    unfold QueryState.filter
    cases q.state.predicate <;> rfl
  | order selector ascending =>
    obtain ⟨c, hc, h⟩ := ok_of_bind h
    cases h
    have hterms : QueryStep.orderings q.mapping [.order selector ascending] = [⟨c, ascending⟩] := by
      refine List.filterMap_cons_some ?_
      show Option.map _ (q.mapping.orderingColumn selector).toOption = _
      rw [hc]
      rfl
    exact ⟨rfl, rfl, rfl, by rw [hterms]; rfl⟩
  | nextTake =>
    cases h
    have hsame : q.state.nextTake.joined = q.state.joined ∧
        q.state.nextTake.predicate = q.state.predicate ∧
          q.state.nextTake.orderings = q.state.orderings := by
      unfold QueryState.nextTake
      cases q.state.limit <;> exact ⟨rfl, rfl, rfl⟩
    refine ⟨rfl, hsame.1, hsame.2.1, ?_⟩
    show q.state.nextTake.orderings.getD [] = _
    rw [hsame.2.2]
    exact (List.append_nil _).symm
  | _ =>
    cases h
    exact ⟨rfl, rfl, rfl, (List.append_nil _).symm⟩

theorem Gathers.trans {as bs : List QueryStep} (h : Gathers q q' as) (h' : Gathers q' q'' bs) :
    Gathers q q'' (as ++ bs) where
  mapping := h'.mapping.trans h.mapping
  joined := h'.joined.trans h.joined
  predicate := by
    rw [h'.predicate, h.predicate]
    unfold QueryStep.predicates
    rw [List.filterMap_append, List.foldl_append]
  orderings := by
    rw [h'.orderings, h.orderings, h.mapping]
    unfold QueryStep.orderings
    rw [List.filterMap_append, List.append_assoc]

theorem gathers_of_steps {steps : List QueryStep} (h : steps.foldlM step q = .ok q') :
    Gathers q q' steps := by
  induction steps generalizing q with
  | nil =>
    cases h
    exact ⟨rfl, rfl, rfl, (List.append_nil _).symm⟩
  | cons s r ih =>
    rw [List.foldlM_cons] at h
    obtain ⟨mid, hs, h⟩ := ok_of_bind h
    exact (gathers_of_step hs).trans (ih h)

/-- What some steps make of a query, whatever their order. -/
structure Built (m : Mapping) (q q' : Query) (steps : List QueryStep) : Prop where
  mapping : q'.mapping = q.mapping
  joined : q'.state.joined = q.state.joined
  predicate : q'.state.predicate = (QueryStep.predicates steps).foldl (fun p e =>
    some (p.elim e fun existing => .binary .and existing e)) q.state.predicate
  orderings : q'.state.orderings.getD [] =
    q.state.orderings.getD [] ++ QueryStep.orderings m steps
  limit : q'.state.limit = (QueryStep.limits steps).getLast?.or q.state.limit
  offset : q'.state.offset = (QueryStep.offsets steps).getLast?.or q.state.offset

theorem getLast?_cons_or {n : Nat} {l : List Nat} {x : Option Nat} :
    l.getLast?.or (some n) = (n :: l).getLast?.or x := by
  rw [List.getLast?_cons]
  cases l.getLast? <;> rfl

theorem built_of_steps {steps : List QueryStep} (h : steps.foldlM step q = .ok q')
    (hn : ∀ s ∈ steps, s ≠ .nextTake) : Built q.mapping q q' steps := by
  have hwindow : q'.state.limit = (QueryStep.limits steps).getLast?.or q.state.limit ∧
      q'.state.offset = (QueryStep.offsets steps).getLast?.or q.state.offset := by
    induction steps generalizing q with
    | nil =>
      cases h
      exact ⟨rfl, rfl⟩
    | cons s r ih =>
      rw [List.foldlM_cons] at h
      obtain ⟨mid, hs, h⟩ := ok_of_bind h
      have hr := ih h fun s hs => hn s (List.mem_cons_of_mem _ hs)
      cases s with
      | take n =>
        cases hs
        exact ⟨hr.1.trans getLast?_cons_or, hr.2⟩
      | skip n =>
        cases hs
        exact ⟨hr.1, hr.2.trans getLast?_cons_or⟩
      | order selector ascending =>
        obtain ⟨c, -, hs⟩ := ok_of_bind hs
        cases hs
        exact hr
      | nextTake => exact absurd rfl (hn _ List.mem_cons_self)
      | _ =>
        cases hs
        exact hr
  obtain ⟨hmapping, hjoined, hpredicate, horderings⟩ := gathers_of_steps h
  exact ⟨hmapping, hjoined, hpredicate, horderings, hwindow.1, hwindow.2⟩

end Query

/-! ## Conditions -/

namespace Mapping

/-- A condition is true on just the rows that pass a test. -/
def Tests (m : Mapping) (ticks : Bool) (t : Table) (s : Scope) (condition : Option Expression)
    (test : Row → Bool) : Prop :=
  match condition with
  | none => ∀ r ∈ t.rows, test r = true
  | some e => ∃ value, m.Evaluates ticks t s e value ∧
    ∀ r ∈ t.rows, test r = ((value r).truth == some true)

end Mapping

namespace Query

/-- The engine reads the statement of a query to its end: nothing in it, such as the name of a
column, has a zero character. -/
def Unbroken (q : Query) : Prop := ∀ c, q.command "*" = .ok c → NoZero c.text

/-- The command of a query that is no side of a join. -/
theorem command_apply {q : Query} {text : String} {arguments : List HostValue}
    (hj : q.state.joined = false) (h : q.condition = .ok (text, arguments)) (item : String) :
    q.command item = .ok (.positional (Sql.queryText q.state item q.mapping.table text) arguments) := by
  unfold command
  rw [hj, h]
  rfl

/-- Only the table, the condition and the ordering of a query may break its statement. -/
theorem unbroken_iff {q : Query} {text : String} {arguments : List HostValue}
    (hj : q.state.joined = false) (h : q.condition = .ok (text, arguments)) :
    q.Unbroken ↔ NoZero q.mapping.table ∧ NoZero text ∧ ∀ k ∈ q.state.orderings.getD [],
    NoZero k.column := by
  have hstar : NoZero "*" := by decide
  unfold Unbroken
  rw [command_apply hj h]
  simp only [Except.ok.injEq, forall_eq']
  exact (Sql.noZero_queryText ..).trans (and_iff_right hstar)

theorem of_command {q : Query} {item : String} {c : Command} (h : q.command item = .ok c) :
    q.state.joined = false ∧ ∃ text arguments, q.condition = .ok (text, arguments) := by
  unfold command at h
  split at h
  · cases h
  · rename_i hj
    obtain ⟨⟨text, arguments⟩, hcondition, -⟩ := ok_of_bind h
    exact ⟨Bool.eq_false_of_not_eq_true hj, text, arguments, hcondition⟩

/-- The window of a query breaks no statement. -/
theorem Unbroken.window {q : Query} (h : q.Unbroken) (limit offset : Option Nat) :
    ({ q with state := { q.state with limit, offset } } : Query).Unbroken := by
  intro c hc
  obtain ⟨hj, text, arguments, hcondition⟩ := of_command hc
  exact (unbroken_iff hj hcondition).mpr ((unbroken_iff (q := q) hj hcondition).mp h) c hc

/-- What the condition of a command is read as and evaluates to. -/
structure Conditioned (q : Query) (ticks : Bool) (known t : Table) (s : Scope) (test : Row → Bool)
    (text : String) (arguments : List HostValue) (own : List Cell)
    (good : Sql.Parameters → List Cell → Option Scalar → Prop) : Prop where
  condition : q.condition = .ok (text, arguments)
  stored : Stored ticks arguments own
  part : Sql.Part (Sql.Parser.clause "where" Sql.Parser.anyScalar) text own
    ["where", "order", "limit"] ["order", "limit"] good
  resolves : ∀ ps a, good ps own a → ∀ noted, ∃ f : Option Formula,
    a.mapM (Resolver.formula (.over known ps)) noted = .ok (f, noted) ∧
      ∀ r ∈ t.rows, SelectPlan.holds f { s with parameters := own } r = .ok (test r)

theorem conditioned {q : Query} {ticks : Bool} {known t : Table} {s : Scope} {test : Row → Bool}
    (hk : known.SameColumns t) (h : q.mapping.Tests ticks t s q.state.predicate test) :
    ∃ text arguments own good, q.Conditioned ticks known t s test text arguments own good := by
  unfold Mapping.Tests at h
  split at h
  · rename_i hp
    refine ⟨"", [], [], _, ?_, .nil, .no_condition, ?_⟩
    · unfold condition
      rw [hp]
    · rintro ps a rfl noted
      exact ⟨none, rfl, fun r hr => congrArg Except.ok (h r hr).symm⟩
  · rename_i e hp
    obtain ⟨value, ⟨b, o, hb, ho, heval⟩, htest⟩ := h
    obtain ⟨μ, hμ, hb⟩ := Option.bind_eq_some_iff.mp hb
    obtain ⟨c, new, hc, -, -, -, hread⟩ := q.mapping.means_compile e hμ
    obtain ⟨own, hgiven, hphrase⟩ := hread.phrase hb (Resolver.callable_of_operand b (ho []))
    refine ⟨" where " ++ c.text, new, own, _, ?_, hgiven.stored, .condition hk hphrase, ?_⟩
    · unfold condition
      rw [hp]
      show ((q.mapping.compile e []).bind fun x => _) = _
      rw [hc]
      rfl
    · rintro ps a ⟨x, rfl, hx⟩ noted
      obtain ⟨o', ho', hsame⟩ := hx.forth (ho noted)
      refine ⟨some o'.formula, ?_, fun r hr => ?_⟩
      · have hformula : Resolver.formula (.over known ps) x noted = .ok (o'.formula, noted) :=
          Resolver.bind_ok ho'
        rw [Option.mapM_some, map_eq_pure_bind]
        exact Resolver.bind_ok hformula
      · have heval : o'.formula.eval (SelectPlan.scopeOf { s with parameters := own } r) =
            .ok (value r) := (hsame.eval (SelectPlan.scopeOf s r)).trans (heval r hr)
        unfold SelectPlan.holds
        simp only [heval, htest r hr, bind, Except.bind, pure, Except.pure]

end Query

/-! ## Windows -/

/-- A count that a window can hold as an integer. -/
def Counts (n : Option Nat) : Prop := ∀ k ∈ n, k < 2 ^ 63

instance (n : Option Nat) : Decidable (Counts n) :=
  inferInstanceAs (Decidable (∀ k ∈ n, k < 2 ^ 63))

namespace SelectPlan

open Sql.Part (numberScalar windowScalars)

def numberFormula (n : Nat) : Formula := .constant (Cell.ofInt n)

theorem bound_number {n : Nat} (h : n < 2 ^ 63) (s : Scope) :
    bound s (numberFormula n) = .ok (n : Int) := by
  have hfits : FitsInt64 (n : Int) := by
    unfold FitsInt64 minInt64 maxInt64
    omega
  obtain ⟨i, hi⟩ : ∃ i, int64? (n : Int) = some i := ⟨_, if_pos hfits⟩
  have hcell : Cell.ofInt n = .integer i := by
    unfold Cell.ofInt
    rw [hi]
  unfold numberFormula
  rw [hcell]
  show Except.ok i.toInt = _
  rw [toInt_of_int64? hi]

theorem mapM_bound {f : Option Formula} {n : Option Int} {s : Scope}
    (h : List.Forall₂ (fun f n => bound s f = .ok n) f.toList n.toList) :
    f.mapM (bound s) = .ok n := by
  cases f with
  | none =>
    cases n with
    | none => rfl
    | some n => cases h
  | some f =>
    cases n with
    | none => cases h
    | some n =>
      obtain _ | ⟨hf, -⟩ := h
      rw [Option.mapM_some, hf]
      rfl

theorem windowOf_eq {p : SelectPlan} {s : Scope} {limit offset : Option Int}
    (hl : p.limit.mapM (bound s) = .ok limit) (ho : p.offset.mapM (bound s) = .ok offset) :
    p.windowOf s = .ok (if limit = some 0 then (0, some 0) else ((offset.getD 0).toNat,
      limit.bind fun n => if n < 0 then none else some n.toNat)) := by
  unfold windowOf
  rw [hl, ho]
  by_cases h : limit = some 0
  · simp only [h, if_true, bind, Except.bind]
    rfl
  · simp only [h, if_false, bind, Except.bind]
    rfl

/-- The formulas of a window; an offset alone has a limit that is none. -/
def windowFormulas : Option Nat → Option Nat → Option Formula × Option Formula
  | some limit, offset => (some (numberFormula limit), offset.map numberFormula)
  | none, some offset => (some (.minus (numberFormula 1)), some (numberFormula offset))
  | none, none => (none, none)

theorem formula_windowScalars (limit offset : Option Nat) (parameters : Sql.Parameters) :
    (windowScalars limit offset).1.mapM (Naming.formula { parameters }) =
        .ok (windowFormulas limit offset).1 ∧
      (windowScalars limit offset).2.mapM (Naming.formula { parameters }) =
        .ok (windowFormulas limit offset).2 := by
  rcases limit with _ | limit <;> rcases offset with _ | offset
  · exact ⟨rfl, rfl⟩
  · exact ⟨rfl, rfl⟩
  · exact ⟨rfl, rfl⟩
  · exact ⟨rfl, rfl⟩

/-- The formulas of a window give its limit, and its offset where the limit leaves something. -/
theorem windowOf_formulas {p : SelectPlan} {limit offset : Option Nat} (hl : Counts limit)
    (ho : Counts offset) (hpl : p.limit = (windowFormulas limit offset).1)
    (hpo : p.offset = (windowFormulas limit offset).2) (s : Scope) :
    p.windowOf s = .ok (if limit = some 0 then 0 else offset.getD 0, limit) := by
  have hoffset : (offset.map numberFormula).mapM (bound s) = .ok (offset.map Int.ofNat) :=
    mapM_bound <| by
      cases offset with
      | none => exact .nil
      | some n => exact .cons (bound_number (ho n rfl) s) .nil
  rcases limit with _ | limit
  · rcases offset with _ | offset
    · have hlimit : p.limit.mapM (bound s) = .ok none := by rw [hpl]; rfl
      exact windowOf_eq hlimit (by rw [hpo]; exact hoffset)
    · have hlimit : p.limit.mapM (bound s) = .ok (some (-1)) := by rw [hpl]; rfl
      exact windowOf_eq hlimit (by rw [hpo]; exact hoffset)
  · have hlimit : p.limit.mapM (bound s) = .ok (some (limit : Int)) := by
      rw [hpl, windowFormulas, Option.mapM_some, bound_number (hl limit rfl) s]
      rfl
    rw [windowOf_eq hlimit (by rw [hpo]; exact hoffset)]
    by_cases hzero : limit = 0
    · subst hzero
      rfl
    · have hne : some (limit : Int) ≠ some 0 := fun h =>
        hzero (Int.natCast_eq_zero.mp (Option.some.inj h))
      rw [if_neg hne, if_neg fun h => hzero (Option.some.inj h)]
      cases offset <;> rfl

end SelectPlan

/-! ## Running on a session -/

namespace Session

/-- The connection of a session is open on a database in which it may read the table of a mapping
that it knows. -/
structure Views (s : Session) (link : Link) (m : Mapping) (t : Table) : Prop where
  isOpen : s.connection.link = some link
  readable : Engine.Readable ⟨s.storage, link⟩
  table : (Engine.content ⟨s.storage, link⟩).readable? m.table = some t
  mapped : s.connection.catalog.get? m.typeName = some m

variable {s : Session} {link : Link} {m : Mapping} {t : Table}

theorem Views.mapping_apply (h : s.Views link m t) : mapping m.record s = (.ok m, s) := by
  have hget : s.connection.catalog.get? m.record.typeName = some m := h.mapped
  unfold mapping mappingWith Catalog.request
  rw [Action.get_bind]
  simp only [hget]

/-- A session resolves names against a table with the columns of the content's. -/
theorem Views.known (h : s.Views link m t) : ∃ known,
    (Engine.definitions ⟨s.storage, link⟩).readable? m.table = some known ∧
    known.SameColumns t := by
  obtain ⟨known, hknown, hbare⟩ :=
    Database.readable?_of_bare h.readable.bare_definitions.symm h.table
  exact ⟨known, hknown, Table.sameColumns_of_bare hbare⟩

/-- A select with values for its parameters is prepared and gives the rows of its plan. -/
theorem Views.select_apply (h : s.Views link m t) {text : String} {select : Sql.Select}
    {ps : Sql.Parameters} {plan : SelectPlan} {arguments : List HostValue} {own : List Cell}
    (hread : Sql.readStatement text = .ok (some (.select select), ps))
    (hsource : select.source = some ⟨m.table, none⟩)
    (hplan : SelectPlan.of (Engine.definitions ⟨s.storage, link⟩) ps select = .ok plan)
    (hstored : Stored s.connection.settings.ticks arguments own) (hcount : own.length ≤ ps.count) :
    ∃ p u v, ready (.positional text arguments) s = (.ok p, u) ∧ p.names = plan.names ∧
      step p u = (.ok (plan.run { link.scope with parameters := own }
        (plan.visited (Engine.content ⟨s.storage, link⟩) t)), v) := by
  have hprogram : Program.of (Engine.definitions ⟨s.storage, link⟩) ps (.select select) =
      .ok (.select plan (some m.table)) := by
    show ((SelectPlan.of _ ps select).bind fun plan =>
      .ok (Program.select plan (select.source.map Sql.Source.table))) = _
    rw [hplan, hsource]
    rfl
  have hreads : Engine.readsDefinitions (.select select) = true := by
    show select.source.isSome = true
    rw [hsource]
    rfl
  have hprepare := Engine.prepare_of h.readable hread hreads hprogram
  have hprepared := prepare_apply h.isOpen hprepare
  have hready := ready_stored hprepared rfl rfl hstored hcount
  obtain ⟨r, -, hrun⟩ := Engine.run_reading
    (p := ⟨text, some (.select select), ps, plan.names, own⟩) h.readable rfl hprogram rfl
  have hrows : Program.rows (Engine.content ⟨s.storage, link⟩) { link.scope with parameters := own }
      (.select plan (some m.table)) = plan.run { link.scope with parameters := own }
        (plan.visited (Engine.content ⟨s.storage, link⟩) t) := by
    show plan.run _ (((Option.bind (some m.table)
      (Engine.content ⟨s.storage, link⟩).readable?).map _).getD _) = _
    rw [Option.bind_some, h.table]
    rfl
  rw [hrows] at hrun
  have hlink : (withEngine { s with log := text :: s.log }
      (Engine.knowing ⟨s.storage, link⟩)).connection.link =
        some (Engine.knowing ⟨s.storage, link⟩).link := rfl
  exact ⟨_, _, _, hready, rfl, step_apply hlink hrun⟩

theorem collect_items {α : Type} (items : List (List Cell)) (f : List Cell → Except Error α) :
    collect ⟨items, none⟩ f = items.mapM f := by
  show (items.mapM f >>= fun items => pure items) = _
  rw [bind_pure]

/-- The condition of a query, as the engine that the session uses reads it, is true on just the rows
that pass a test. -/
def Sifts (s : Session) (link : Link) (q : Query) (t : Table) (test : Row → Bool) : Prop :=
  ∃ known text arguments own good,
    (Engine.definitions ⟨s.storage, link⟩).readable? q.mapping.table = some known ∧
    known.SameColumns t ∧
    q.Conditioned s.connection.settings.ticks known t link.scope test text arguments own good

/-- The window of a query has no part in its condition. -/
theorem Sifts.window {q : Query} {test : Row → Bool} (h : s.Sifts link q t test)
    (limit offset : Option Nat) :
    s.Sifts link { q with state := { q.state with limit, offset } } t test := by
  obtain ⟨known, text, arguments, own, good, hknown, hsame, hc⟩ := h
  exact ⟨known, text, arguments, own, good, hknown, hsame, hc.condition, hc.stored,
    hc.part, hc.resolves⟩

theorem Views.sifts_of_tests (h : s.Views link m t) {q : Query} {test : Row → Bool}
    (hm : q.mapping = m)
    (ht : m.Tests s.connection.settings.ticks t link.scope q.state.predicate test) :
    s.Sifts link q t test := by
  subst hm
  obtain ⟨known, hknown, hsame⟩ := h.known
  obtain ⟨text, arguments, own, good, hc⟩ := Query.conditioned hsame ht
  exact ⟨known, text, arguments, own, good, hknown, hsame, hc⟩

section Running

variable {q : Query} {test : Row → Bool} {known : Table} {text : String}
  {arguments : List HostValue} {own : List Cell} {good : Sql.Parameters → List Cell →
    Option Scalar → Prop}

open SelectPlan (windowFormulas)

/-- A query that is answered has a statement that was read. -/
theorem Views.unbroken (h : s.Views link q.mapping t) (hj : q.state.joined = false)
    (hs : s.Sifts link q t test) {items : List Record} (hlist : (toList q s).1 = .ok items) :
    q.Unbroken := by
  obtain ⟨known, text, arguments, own, good, -, -, hc⟩ := hs
  obtain ⟨a, orderings, ps, hread, -⟩ := Sql.readsAs_query q.state q.mapping.table (.star _) hc.part
  have hcommand := Query.command_apply hj hc.condition "*"
  rcases hx : toList q s with ⟨x, u⟩
  rw [hx] at hlist
  obtain rfl : x = .ok items := hlist
  unfold toList at hx
  rw [Action.bind_ok ((congrArg (Action.ofExcept · s) hcommand).trans (ofExcept_apply _ s))] at hx
  unfold records at hx
  rw [Action.bind_ok h.mapping_apply] at hx
  obtain ⟨p, v, hready, -⟩ := Action.of_bind_ok hx
  intro c hc
  cases hcommand.symm.trans hc
  exact (hread.of_ok (of_ready hready).1).1

/-- The records of a query with any window are those that its plan gives. The condition and the rows
that are visited are the same for every window. -/
theorem Views.toList_windows (h : s.Views link q.mapping t) (hj : q.state.joined = false)
    (hz : q.Unbroken)
    (hknown : (Engine.definitions ⟨s.storage, link⟩).readable? q.mapping.table = some known)
    (hsame : known.SameColumns t) (hc : q.Conditioned s.connection.settings.ticks known t link.scope
      test text arguments own good) : ∃ f visited, visited.Perm t.rows ∧
      (∀ r ∈ t.rows, SelectPlan.holds f { link.scope with parameters := own } r = .ok (test r)) ∧
      ∀ limit offset, (toList { q with state := { q.state with limit, offset } } s).1 =
        collect (SelectPlan.run (t.plan f (q.state.orderings.getD [])
            (windowFormulas limit offset).1 (windowFormulas limit offset).2)
          { link.scope with parameters := own } visited) (materialize q.mapping t.names) := by
  obtain ⟨a, orderings, ps, hcount, hgood, horders, hread⟩ :=
    Sql.readsAs_windows q.state q.mapping.table "*" hc.part
  obtain ⟨f, hf, hholds⟩ := hc.resolves ps a hgood []
  refine ⟨f, (t.plan f (q.state.orderings.getD []) none none).visited
    (Engine.content ⟨s.storage, link⟩) t, SelectPlan.visited_perm _ _ _, hholds,
    fun limit offset => ?_⟩
  obtain ⟨hl, ho⟩ := SelectPlan.formula_windowScalars limit offset ps
  have hplan := SelectPlan.of_rows hknown hl ho hf horders
  rw [Table.plan_eq hsame] at hplan
  have hwhole : NoZero (Sql.queryText { q.state with limit, offset } "*" q.mapping.table text) :=
    (Sql.noZero_queryText ..).mpr ⟨by decide, (Query.unbroken_iff hj hc.condition).mp hz⟩
  obtain ⟨p, u, v, hready, hnames, hstep⟩ :=
    h.select_apply ((hread limit offset (.star _)).read hwhole) rfl hplan hc.stored
      (Nat.le_of_eq hcount.symm)
  have hcommand := Query.command_apply (q := { q with state := { q.state with limit, offset } }) hj
    hc.condition "*"
  unfold toList
  rw [Action.bind_ok ((congrArg (Action.ofExcept · s) hcommand).trans (ofExcept_apply _ s))]
  unfold records
  rw [Action.bind_ok h.mapping_apply, Action.bind_ok hready]
  unfold finishRecords
  rw [Action.bind_ok hstep, ofExcept_apply, hnames]
  rfl

/-- The records of a query are those that its plan gives. -/
theorem Views.toList_run (h : s.Views link q.mapping t) (hj : q.state.joined = false)
    (hz : q.Unbroken)
    (hknown : (Engine.definitions ⟨s.storage, link⟩).readable? q.mapping.table = some known)
    (hsame : known.SameColumns t) (hc : q.Conditioned s.connection.settings.ticks known t link.scope
      test text arguments own good) : ∃ f visited, visited.Perm t.rows ∧
      (∀ r ∈ t.rows, SelectPlan.holds f { link.scope with parameters := own } r = .ok (test r)) ∧
      (toList q s).1 = collect (SelectPlan.run (t.plan f (q.state.orderings.getD [])
          (windowFormulas q.state.limit q.state.offset).1
          (windowFormulas q.state.limit q.state.offset).2)
        { link.scope with parameters := own } visited) (materialize q.mapping t.names) := by
  obtain ⟨f, visited, hv, hf, hlist⟩ := h.toList_windows hj hz hknown hsame hc
  exact ⟨f, visited, hv, hf, hlist q.state.limit q.state.offset⟩

/-- Where the window of a plan is given, its records are those that the rows of the window
become. -/
theorem collect_plan {f l o : Option Formula} {ks : List SortTerm} {scope : Scope}
    {visited : List Row} {offset : Nat} {limit : Option Nat}
    (hw : (t.plan f ks l o).windowOf scope = .ok (offset, limit))
    (hf : ∀ r ∈ visited, SelectPlan.holds f scope r = .ok (test r)) :
    collect ((t.plan f ks l o).run scope visited) (materialize m t.names) =
      (window offset limit ((visited.filter test).mergeSort fun a b => t.compareRows ks a b != .gt)).mapM
        fun r => materialize m t.names (t.read r) := by
  rw [t.run_plan hw hf, collect_items, List.mapM_map]
  rfl

/-- The rows of the window of a plan are cut out of those of the table that pass, sorted. -/
theorem collect_run {f l o : Option Formula} {ks : List SortTerm} {scope : Scope}
    {visited : List Row} {offset : Nat} {limit : Option Nat}
    (hw : (t.plan f ks l o).windowOf scope = .ok (offset, limit)) (hv : visited.Perm t.rows)
    (hf : ∀ r ∈ t.rows, SelectPlan.holds f scope r = .ok (test r)) :
    ∃ sorted, sorted.Perm (t.rows.filter test) ∧
      sorted.Pairwise (fun a b => t.compareRows ks a b ≠ .gt) ∧
      collect ((t.plan f ks l o).run scope visited) (materialize m t.names) =
        (window offset limit sorted).mapM fun r => materialize m t.names (t.read r) :=
  ⟨_, (List.mergeSort_perm _ _).trans (hv.filter test),
    pairwise_mergeSort_of_transCmp (t.compareRows ks) _,
    collect_plan hw fun r hr => hf r (hv.mem_iff.mp hr)⟩

/-- The records of a query: those that the rows of its window become. -/
theorem Views.toList_apply (h : s.Views link m t) (hm : q.mapping = m) (hj : q.state.joined = false)
    (hz : q.Unbroken) (ht : s.Sifts link q t test)
    (hl : Counts q.state.limit) (ho : Counts q.state.offset) : ∃ sorted,
      sorted.Perm (t.rows.filter test) ∧
      sorted.Pairwise (fun a b => t.compareRows (q.state.orderings.getD []) a b ≠ .gt) ∧
      (toList q s).1 = (window (q.state.offset.getD 0) q.state.limit sorted).mapM fun r =>
        materialize m t.names (t.read r) := by
  obtain ⟨known, text, arguments, own, good, hknown, hsame, hc⟩ := ht
  subst hm
  obtain ⟨f, visited, hv, hf, hlist⟩ := h.toList_run hj hz hknown hsame hc
  obtain ⟨sorted, hperm, hsorted, hrun⟩ := collect_run (m := q.mapping)
    (SelectPlan.windowOf_formulas hl ho rfl rfl { link.scope with parameters := own }) hv hf
  refine ⟨sorted, hperm, hsorted, hlist.trans (hrun.trans ?_)⟩
  by_cases hzero : q.state.limit = some 0
  · rw [hzero, window_zero, window_zero]
  · rw [if_neg hzero]

end Running

/-! ### A session with some notes -/

/-- A record type with a number as its key and a text. -/
def notes : Mapping where
  record := ⟨"Note", "Note", false, [⟨"Id", none, ⟨.plain .int64, false⟩, [.primaryKey], .int 0⟩,
    ⟨"Body", none, ⟨.plain .text, false⟩, [], .text ""⟩], []⟩
  columns := [⟨"Id", "Id", ⟨.plain .int64, false⟩, false, none, none, true, false, false, [], 0⟩,
    ⟨"Body", "Body", ⟨.plain .text, false⟩, true, none, none, false, false, false, [], 1⟩]

def noteTable (rows : List Row) : Table where
  name := "Note"
  columns := [⟨"Id", "integer", .integer, true, .binary, none⟩, ⟨"Body", "text", .text, false, .binary, none⟩]
  rowidColumn := some 0
  autoIncrement := false
  withoutRowid := false
  key := [0]
  checks := []
  rows := rows

/-- A session alone on a storage with some rows of notes. -/
def notebook (rows : List Row) : Session :=
  { connection := { settings := {}, link := some { id := 0 }, catalog := ⟨[("Note", notes)]⟩ }
    supply := default
    storage := { content := { tables := [noteTable rows] } } }

theorem views_notebook (rows : List Row) :
    (notebook rows).Views { id := 0 } notes (noteTable rows) where
  isOpen := rfl
  readable := { current := nofun, read := ⟨_, rfl⟩ }
  table := by
    have hname : sameFolded (noteTable rows).name "Note" = true := sameFolded_refl _
    show Option.or (List.find? (fun t => sameFolded t.name "Note") [noteTable rows]) _ = _
    rw [List.find?_cons_of_pos (p := fun t : Table => sameFolded t.name "Note") hname]
    rfl
  mapped := rfl

end Session

end RecordMapper
