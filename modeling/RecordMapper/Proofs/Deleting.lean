import RecordMapper.Proofs.Answering
import RecordMapper.Proofs.Evolution

/-!
# Rows that are deleted

A delete and the select of the same query have one condition, each in a statement of its own.

1. `Sql.readsAs_delete`: the text of a delete is read as one, with the condition that it has.
2. `Mapping.refuses_compile`: what does not compile is refused as not supported.
3. `DeletePlan.run_ok` and `Engine.run_delete`: a delete that is carried out has found the truth of
   its condition on every row, and leaves the rows on which it is not true.
4. `Session.deleteRows_spec`: which rows a delete removes, by the filters of the query and by
   its select.
-/

namespace RecordMapper

open Sql (Scalar Parameters)

/-! ## The text of a delete -/

namespace Sql

open RecordMapper.Sql.Parser

theorem Parser.statement_delete {text : String} {o : Nat} {ls : List Lexeme} :
    statement text (⟨.word "delete", "delete", o⟩ :: ls) = delete ls := by
  have hword : foldCase "delete" = "delete" := by decide
  unfold statement
  simp only [choice_cons, isWord_word, hword, String.reduceBEq, Bool.false_eq_true, if_false,
    beq_self_eq_true, if_true]

theorem noZero_deleteText {table condition : String} :
    NoZero ("delete from " ++ quoteIdentifier table ++ condition) ↔
      NoZero table ∧ NoZero condition := by
  have hdelete : NoZero "delete from " := by decide
  rw [noZero_append, noZero_append, noZero_quoteIdentifier, and_iff_right hdelete]

/-- The text of a delete is read as one, with its condition. -/
theorem readsAs_delete (table : String) {condition : String} {own : List Cell}
    {good : Parameters → List Cell → Option Scalar → Prop}
    (h : Part (clause "where" anyScalar) condition own ["where", "order", "limit"] ["order", "limit"]
      good) :
    ∃ a ps, ps.count = own.length ∧ good ps own a ∧
      ReadsAs ("delete from " ++ quoteIdentifier table ++ condition)
        (some (.delete table a), ps) := by
  have hdelete : Cut Anything 0 "delete ".toList ([⟨.word "delete", "delete", 0⟩] ++ []) :=
    (Cut.word_blank (w := "delete") (by decide)).append .space fun rest _ => ⟨rest, rfl⟩
  have hfrom : Cut Anything 7 "from ".toList ([⟨.word "from", "from", 7⟩] ++ []) :=
    (Cut.word_blank (w := "from") (by decide)).append .space fun rest _ => ⟨rest, rfl⟩
  obtain ⟨hpause, hpart⟩ := h
  obtain ⟨la, a, hcut, hmarks, hread, hgood⟩ := hpart
    (0 + Bytes.lengthOf ("delete ".toList ++ "from ".toList) +
      Bytes.lengthOf (quoteIdentifier table).toList)
  have hhead := hdelete.andThen hfrom
  have hall := hhead.andThen ((Cut.quoted table).append hcut fun _ hr => (hpause.append hr).ends)
  have htext : ("delete from " ++ quoteIdentifier table ++ condition).toList =
      "delete ".toList ++ "from ".toList ++ ((quoteIdentifier table).toList ++ condition.toList) := by
    simp only [String.toList_append, List.append_assoc]
    rfl
  rw [← htext] at hall
  have hsame : marks ([⟨.word "delete", "delete", 0⟩] ++ [] ++ ([⟨.word "from", "from", 7⟩] ++ []) ++
      ([⟨.name table, quoteIdentifier table, 0 + Bytes.lengthOf ("delete ".toList ++ "from ".toList)⟩] ++
        la)) = marks la := by
    rw [marks_append, marks_append, marks_append]
    rfl
  have hbound := Parameters.bound_ofLexemes hall.calm hall.ascending
    ((congrArg List.length hsame).trans hmarks)
  obtain ⟨-, hcondition⟩ := hread [] (before_nil _)
  rw [List.append_nil] at hcondition
  have hstatement : statement ("delete from " ++ quoteIdentifier table ++ condition)
      (⟨.word "delete", "delete", 0⟩ :: ⟨.word "from", "from", 7⟩ ::
        ⟨.name table, quoteIdentifier table, 0 + Bytes.lengthOf ("delete ".toList ++ "from ".toList)⟩ ::
          la) = .ok (.delete table a, []) := by
    rw [statement_delete]
    unfold delete
    rw [bind_apply, word_cons rfl, ok_bind, bind_apply, name_of_nameOf?
      (l := ⟨.name table, quoteIdentifier table, _⟩) rfl (fun _ h => Token.noConfusion h), ok_bind,
      bind_apply, hcondition]
    rfl
  exact ⟨a, _, (Parameters.count_ofLexemes hall.calm).trans
    ((congrArg List.length hsame).trans hmarks), hgood _ _ (hsame ▸ hbound),
    hall.readsAs pause_nil hstatement⟩

end Sql

/-! ## Predicates that do not compile -/

/-- Whether an error says that an expression or a type is not supported. -/
def Error.isUnsupported : Error → Bool
  | expression _ | type _ => true
  | _ => false

namespace Compiling

open Compiled

variable {α β : Type}

/-- A step that fails only on what is not supported. -/
def Refuses (x : Compiling α) : Prop := ∀ args e, x args = .error e → e.isUnsupported = true

namespace Refuses

variable {x : Compiling α} {f : α → Compiling β} {e : Error}

theorem pure (a : α) : Refuses (pure a : Compiling α) := nofun

theorem modify (g : List HostValue → List HostValue) : Refuses (modify g : Compiling Unit) := nofun

theorem throw (h : e.isUnsupported = true) : Refuses (throw e : Compiling α) := by
  rintro args _ ⟨⟩
  exact h

theorem bind (hx : Refuses x) (hf : ∀ a, Refuses (f a)) : Refuses (x >>= f) := by
  intro args e he
  cases h : x args with
  | error e' =>
    rw [bind_error h] at he
    cases he
    exact hx _ _ h
  | ok p =>
    rw [bind_ok h] at he
    exact hf _ _ _ he

section Nodes

variable {x : Compiling Compiled} {xs : List (Compiling Compiled)}

theorem alone (hx : Refuses x) : Refuses (alone x) := by
  intro args e he
  cases h : x [] with
  | error e' =>
    unfold Compiled.alone at he
    rw [h] at he
    cases he
    exact hx _ _ h
  | ok p =>
    unfold Compiled.alone at he
    rw [h] at he
    cases he

theorem each (h : ∀ x ∈ xs, Refuses x) : Refuses (each xs) := by
  induction xs with
  | nil => exact pure []
  | cons x xs ih =>
    have hxs := ih fun y hy => h y (List.mem_cons_of_mem _ hy)
    rw [each_cons]
    exact (h x List.mem_cons_self).bind fun a => hxs.bind fun as => pure _

theorem placeholder (v : HostValue) : Refuses (placeholder v) := by
  intro args e he
  rw [Emits.placeholder_apply v] at he
  cases he

theorem call (name : String) (h : ∀ x ∈ xs, Refuses x) : Refuses (Compiled.call name xs) := by
  unfold Compiled.call
  split
  · exact (h _ (by simp)).bind fun a => (h _ (by simp)).bind fun b => pure _
  · exact (h _ (by simp)).alone.bind fun p => (h _ (by simp)).bind fun item =>
      (modify _).bind fun _ => pure _
  · exact (each h).bind fun as => pure _

theorem method (hx : Refuses x) (name : String) (h : ∀ y ∈ xs, Refuses y) :
    Refuses (Compiled.method x name xs) := by
  unfold Compiled.method
  split
  · have hitem := h _ (List.mem_singleton_self _)
    refine hx.alone.bind fun p => ?_
    dsimp only
    split
    · exact (modify _).bind fun _ => hitem.bind fun item => pure _
    · exact hitem.bind fun item => (modify _).bind fun _ => pure _
  · exact hx.bind fun a => (h _ (by simp)).bind fun b => pure _
  · exact hx.bind fun a => (h _ (by simp)).bind fun b => pure _
  · exact hx.bind fun a => (h _ (by simp)).bind fun b => pure _
  · exact hx.bind fun a => pure _
  · exact hx.bind fun a => pure _
  · exact (each h).bind fun as => pure _

theorem convert (c : Compiled) (target : DataType) : Refuses (c.convert target) := by
  unfold Compiled.convert
  split
  · split
    · exact pure _
    · split
      · exact (modify _).bind fun _ => pure _
      · exact throw rfl
  · exact pure _

theorem hostMember (c : Compiled) (name kind : String) : Refuses (c.hostMember name kind) := by
  unfold Compiled.hostMember
  split
  · refine (modify _).bind fun _ => ?_
    split
    · exact placeholder _
    · exact throw rfl
  · exact throw rfl

theorem property (m : Mapping) (name : String) :
    Refuses (liftM (m.property name) : Compiling Compiled) := by
  unfold Mapping.property Mapping.memberColumn
  split
  · exact nofun
  · exact throw rfl

end Nodes

end Refuses

end Compiling

namespace Mapping

open Compiling

mutual

/-- An expression that does not compile is not supported. -/
theorem refuses_compile (m : Mapping) : (e : Expression) → Refuses (m.compile e)
  | .constant v => .placeholder v
  | .member object name => by
    by_cases ho : object = .parameter
    · subst ho
      exact .property m name
    · rw [compile_member ho]
      exact (m.refuses_compile object).bind fun c => .hostMember c name _
  | .binary op left right => by
    rw [compile]
    cases op.spelling with
    | none => exact .throw rfl
    | some spelling =>
      exact (m.refuses_compile left).bind fun a => (m.refuses_compile right).bind fun b => .pure _
  | .call name arguments => .call name (m.refuses_compileEach arguments)
  | .method receiver name arguments =>
    (m.refuses_compile receiver).method name (m.refuses_compileEach arguments)
  | .convert operand target => (m.refuses_compile operand).bind fun c => .convert c target
  | .parameter => .throw rfl
  | .unary _ _ => .throw rfl
  | .conditional _ _ _ => .throw rfl

theorem refuses_compileEach (m : Mapping) : (es : List Expression) →
    ∀ x ∈ m.compileEach es, Refuses x
  | [], _, h => nomatch h
  | e :: r, x, h => by
    rcases List.mem_cons.mp h with rfl | h
    · exact m.refuses_compile e
    · exact m.refuses_compileEach r x h

end

end Mapping

namespace Query

variable {q : Query}

theorem deleteCommand_cases (q : Query) :
    (∃ e, e.isUnsupported = true ∧ q.deleteCommand = .error e) ∨
      q.state.limit = none ∧ q.state.offset = none ∧ q.state.predicate ≠ none ∧
        ∃ text arguments, q.condition = .ok (text, arguments) ∧ q.deleteCommand =
          .ok (.positional ("delete from " ++ quoteIdentifier q.mapping.table ++ text) arguments) := by
  unfold deleteCommand
  by_cases hw : (q.state.limit.isSome || q.state.offset.isSome) = true
  · exact .inl ⟨_, rfl, if_pos hw⟩
  · rw [if_neg hw]
    rw [Bool.or_eq_true, not_or, Option.not_isSome_iff_eq_none, Option.not_isSome_iff_eq_none] at hw
    cases hp : q.state.predicate with
    | none => exact .inl ⟨_, rfl, rfl⟩
    | some e =>
      cases hc : q.mapping.compile e [] with
      | error f => exact .inl ⟨f, q.mapping.refuses_compile e [] f hc, by simp only [hc]; rfl⟩
      | ok x =>
        obtain ⟨c, arguments⟩ := x
        refine .inr ⟨hw.1, hw.2, nofun, " where " ++ c.text, arguments, ?_, ?_⟩
        · unfold condition
          rw [hp]
          show ((q.mapping.compile e []).bind fun x => _) = _
          rw [hc]
          rfl
        · simp only [hc]
          rw [← String.append_assoc]
          rfl

end Query

/-! ## Plans -/

/-- A row number is the number of one row. -/
def Table.Numbered (t : Table) : Prop := ∀ a ∈ t.rows, ∀ b ∈ t.rows, a.id = b.id → a = b

namespace DeletePlan

variable {d : Database} {t : Table}

theorem condition_of {ps : Parameters} {table : String} {a : Option Scalar} {plan : DeletePlan}
    (h : DeletePlan.of d ps table a = .ok plan) : ∃ known noted, d.table? table = some known ∧
      plan.table = known.name ∧
        a.mapM (Resolver.formula (.over known ps)) [] = .ok (plan.condition, noted) := by
  obtain ⟨known, hknown, h⟩ := ok_of_bind h
  obtain ⟨f, hf, h⟩ := ok_of_bind h
  cases h
  have hf : a.mapM (Naming.formula (.over known ps)) = .ok f := hf
  obtain ⟨noted, hresolved⟩ := SelectPlan.condition_of_formula hf
  exact ⟨known, noted, Database.tableFor_ok hknown, rfl, hresolved⟩

/-- A delete that is carried out has found the truth of its condition on every row. It leaves the
rows on which it is not true, and counts the others. -/
theorem run_ok {p : DeletePlan} {s : Scope} {visited : List Row} (ht : d.table? p.table = some t)
    (hv : visited.Perm t.rows) (hids : t.Numbered)
    (h : (p.run d s visited).fault = none) : ∃ test : Row → Bool,
      (∀ r ∈ t.rows, SelectPlan.holds p.condition s r = .ok (test r)) ∧
      p.run d s visited = {
        database := d.setTable { t with rows := t.rows.filter fun r => !test r }
        count := (t.rows.filter test).length } := by
  let test (r : Row) : Bool := (SelectPlan.holds p.condition s r).toOption.getD false
  have hfault : (Run.select (SelectPlan.holds p.condition s) visited).fault = none := by
    cases hf : (Run.select (SelectPlan.holds p.condition s) visited).fault with
    | none => rfl
    | some fault =>
      unfold run Run.whole at h
      rw [hf] at h
      cases h
  have htest : ∀ r ∈ visited, SelectPlan.holds p.condition s r = .ok (test r) := fun r hr => by
    obtain ⟨b, hb⟩ := SelectPlan.holds_of_select hfault r hr
    show _ = Except.ok ((SelectPlan.holds p.condition s r).toOption.getD false)
    rw [hb]
    rfl
  -- the rows whose number is gone are those that pass
  have hrest : (t.rows.filter fun r => !((visited.filter test).map Row.id).contains r.id) =
      t.rows.filter fun r => !test r := by
    refine List.filter_congr fun r hr => congrArg Bool.not ?_
    rw [Bool.eq_iff_iff, List.contains_iff_mem, List.mem_map]
    constructor
    · rintro ⟨x, hx, hid⟩
      obtain ⟨hxv, hxt⟩ := List.mem_filter.mp hx
      exact hids x (hv.mem_iff.mp hxv) r hr hid ▸ hxt
    · intro hr'
      exact ⟨r, List.mem_filter.mpr ⟨hv.mem_iff.mpr hr, hr'⟩, rfl⟩
  refine ⟨test, fun r hr => htest r (hv.mem_iff.mpr hr), ?_⟩
  unfold run Run.whole
  rw [Run.select_eq htest, ht]
  dsimp only
  rw [hrest, (hv.filter test).length_eq]

end DeletePlan

/-! ## Running on the engine -/

namespace Engine

variable {e r : Engine} {t : Table}

/-- What a delete over a table leaves of an engine that carries it out: its condition was evaluated
on every row of the table, and the rows on which it is true are gone. -/
structure Deleted (e : Engine) (p : Prepared) (a : Option Scalar) (t : Table)
    (r : Engine) : Prop where
  keeps : Keeps e r
  rows : ∃ known f noted test, known.SameColumns t ∧
    a.mapM (Resolver.formula (.over known p.parameters)) [] = .ok (f, noted) ∧
    (∀ r ∈ t.rows, SelectPlan.holds f { e.link.scope with parameters := p.bindings } r = .ok (test r)) ∧
    r.content = e.content.setTable { t with rows := t.rows.filter fun r => !test r } ∧
    r.link.changes = (t.rows.filter test).length

/-- A delete gives no rows. -/
theorem run_delete (hs : e.Sane) (hc : e.Current) {p : Prepared} {table : String}
    {a : Option Scalar} (hp : p.statement = some (.delete table a))
    (ht : e.content.readable? table = some t) (hids : t.Numbered) {run : Run (List Cell)}
    (hrun : e.run p = (run, r)) :
    run.items = [] ∧ (run.fault = none → e.Deleted p a t r) := by
  have hplan : ∀ {d : Database} {program : Program},
      Program.of d p.parameters (.delete table a) = .ok program →
        ∃ plan, DeletePlan.of d p.parameters table a = .ok plan ∧ program = .delete plan := by
    intro d program h
    obtain ⟨plan, hplan, h⟩ := ok_of_bind h
    cases h
    exact ⟨plan, hplan, rfl⟩
  cases hx : e.enter p (.delete table a) with
  | error fault =>
    cases (run_error hp hx).symm.trans hrun
    exact ⟨rfl, nofun⟩
  | ok x =>
    obtain ⟨program, w⟩ := x
    obtain ⟨d, hbare, hof, halike, -, -, hscope, -⟩ := enter_bare hc (fun h => by
      obtain ⟨plan, -, rfl⟩ := hplan h
      nofun) hx
    obtain ⟨plan, hplan, rfl⟩ := hplan hof
    obtain ⟨rfl, rfl⟩ := Prod.mk.inj ((run_writes hp hx rfl nofun).symm.trans hrun)
    refine ⟨rfl, fun hf => ?_⟩
    obtain ⟨known, noted, hknown, hname, hcondition⟩ := DeletePlan.condition_of hplan
    -- the table of the plan is the one that is read
    obtain ⟨t', ht', hbare'⟩ := Database.table?_of_bare hbare hknown
    obtain rfl : t' = t := Option.some.inj ((Database.readable?_of_table? ht').symm.trans ht)
    have htable : w.content.table? plan.table = some t' := by
      rw [halike.content, hname, Database.table?_congr (Database.sameFolded_of_table? hknown)]
      exact ht'
    have hchange : (Program.delete plan).change w.content (w.scope p) =
        plan.run w.content (w.scope p) t'.scan := by
      show plan.run _ _ (((w.content.table? plan.table).map Table.scan).getD []) = _
      rw [htable]
      rfl
    have hchanged : w.changed (.delete plan) (plan.run w.content (w.scope p) t'.scan) =
        (none, (w.changed (.delete plan) ((Program.delete plan).change w.content (w.scope p))).2) := by
      rw [← hchange]
      exact Prod.ext hf rfl
    obtain ⟨test, htest, hout⟩ := plan.run_ok htable t'.scan_perm hids (fault_changed hchanged)
    obtain ⟨hcontent, hcount, -, -⟩ := counted_changed rfl hchanged
    rw [hout] at hcontent hcount
    have hkeeps := keeps_changed hs halike.same halike.alone (.delete plan)
      (o := plan.run w.content (w.scope p) t'.scan) (by rw [hout])
    have hs : w.scope p = { w.link.scope with parameters := p.bindings } := rfl
    rw [hs, hscope] at htest
    refine ⟨hchange ▸ hkeeps, known, plan.condition, noted, test,
      Table.sameColumns_of_bare hbare'.symm, hcondition, htest, ?_, ?_⟩
    · rw [hcontent, halike.content]
    · exact hcount

end Engine

/-! ## Filters -/

/-- Where the tree of a condition resolves and its values are bound, the condition is true on a row
just where its predicate is. -/
theorem Query.accepts_iff {q : Query} {ticks : Bool} {t : Table} {s : Scope} {r : Row}
    {text : String} {arguments : List HostValue} {own : List Cell}
    (hp : ∀ e ∈ q.state.predicate, q.mapping.Legible e) (hc : q.condition = .ok (text, arguments))
    (hz : NoZero text) (hstored : Stored ticks arguments own) {g : Option Formula}
    (hg : t.Resolves (q.tree? ticks) g) {b : Bool}
    (hb : SelectPlan.holds g { s with parameters := [] } r = .ok b) :
    (∀ e ∈ q.state.predicate, q.mapping.Accepts ticks t s e r) ↔ b = true := by
  unfold tree? at hg
  cases h : q.state.predicate with
  | none =>
    rw [h] at hg
    cases hg []
    cases hb
    exact iff_of_true nofun rfl
  | some e =>
    obtain ⟨hn, hs⟩ := hp e h
    obtain ⟨a, ha⟩ := hs (Mapping.boundAs ticks)
    rw [h, Option.bind_some, ha] at hg
    have hbinds : q.mapping.Binds ticks e :=
      (binds_iff hc).mpr ⟨hz, (Mapping.stored_iff.mp hstored).1⟩ e h
    -- the operand that the tree resolves to, whatever is noted before
    have hresolve := hg []
    rw [Option.mapM_some, map_eq_pure_bind] at hresolve
    obtain ⟨f, mid, hformula, hpure⟩ := Resolver.of_bind_ok hresolve
    cases hpure
    obtain ⟨o, mid', ho, hpure⟩ := Resolver.of_bind_ok hformula
    cases hpure
    have hoperand := Mapping.resolves_of_tree hn ha ho
    obtain ⟨v, hv, hpure⟩ := ok_of_bind hb
    cases hpure
    have haccepts : q.mapping.Accepts ticks t s e r ↔ v.truth = some true := by
      unfold Mapping.Accepts
      simp only [Mapping.says_iff_tree hn ha, hbinds, true_and]
      constructor
      · rintro ⟨w, hw, htrue⟩
        rwa [(show a.Gives t s r v from ⟨o, hoperand, hv⟩).unique hw]
      · exact fun htrue => ⟨v, ⟨o, hoperand, hv⟩, htrue⟩
    rw [beq_iff_eq, ← haccepts]
    exact ⟨fun hall => hall e rfl, fun he e' he' => Option.some.inj he' ▸ he⟩

theorem Mapping.accepts_iff_any {m : Mapping} {ticks : Bool} {t : Table} {s : Scope}
    {e : Expression} {r : Row} : m.Accepts ticks t s e r ↔
      ((m.says? ticks t s e r).any fun v => v.truth == some true) = true := by
  unfold Accepts
  simp only [← says?_eq_some_iff, Option.any_eq_true, beq_iff_eq]

namespace Session

open RecordMapper.Action

variable {alone : Bool} {s s' : Session} {link : Link} {t : Table} {q : Query} {n : Int}

theorem deleteRows_error {e : Error} (h : q.deleteCommand = .error e) (s : Session) :
    deleteRows q s = (.error e, s) := by
  unfold deleteRows
  rw [h]
  exact Action.bind_error (ofExcept_apply _ s)

theorem Views.of_deleteRows (h : s.Views link q.mapping t) (hs : s.Usable alone) (hids : t.Numbered)
    (hp : ∀ e ∈ q.state.predicate, q.mapping.Legible e) (hdelete : deleteRows q s = (.ok n, s')) :
    q.state.limit = none ∧ q.state.offset = none ∧ NoZero q.mapping.table ∧
      ∃ text arguments own g test, NoZero text ∧
      q.Poses s.connection.settings.ticks text arguments (q.tree? s.connection.settings.ticks) ∧
      Stored s.connection.settings.ticks arguments own ∧
      t.Resolves (q.tree? s.connection.settings.ticks) g ∧
      (∀ r ∈ t.rows, SelectPlan.holds g { link.scope with parameters := [] } r = .ok (test r)) ∧
      s'.nesting.rows = s.nesting.rows.setTable { t with rows := t.rows.filter fun r => !test r } ∧
      n = (t.rows.filter test).length ∧ Stays alone s s' := by
  rcases q.deleteCommand_cases with ⟨e, -, he⟩ | ⟨hl, ho, -, text, arguments, hcondition, hcommand⟩
  · cases (deleteRows_error he s).symm.trans hdelete
  obtain ⟨text', arguments', hposes⟩ := Query.poses s.connection.settings.ticks hp
  obtain ⟨rfl, rfl⟩ := Prod.mk.inj (Except.ok.inj (hposes.condition.symm.trans hcondition))
  obtain ⟨a, ps, -, hgood, hread⟩ := Sql.readsAs_delete q.mapping.table hposes.part
  unfold deleteRows at hdelete
  rw [hcommand, Action.bind_ok (ofExcept_apply _ s)] at hdelete
  obtain ⟨p, u, hready, hfinish⟩ := of_bind_ok hdelete
  obtain ⟨hread', hstored, known, hknown, rfl⟩ := of_ready_link h.isOpen hready
  obtain ⟨hwhole, hsame⟩ := hread.of_ok hread'
  obtain ⟨htable, hcondition⟩ := Sql.noZero_deleteText.mp hwhole
  obtain ⟨hstatement, rfl⟩ := Prod.mk.inj hsame
  obtain ⟨-, hbindings⟩ := Mapping.stored_iff.mp hstored
  obtain ⟨link', hl', hsane, halone⟩ := hs
  obtain rfl : link' = link := Option.some.inj (hl'.symm.trans h.isOpen)
  -- the statement on the engine
  rcases hrun : Engine.run ⟨s.storage, { link' with known := known }⟩ p with ⟨run, e⟩
  have hcurrent : Engine.Current ⟨s.storage, { link' with known := known }⟩ := by
    rcases hknown with rfl | rfl
    · exact h.current
    · exact .of_known rfl
  obtain ⟨hitems, hdeleted⟩ := Engine.run_delete (e := ⟨s.storage, { link' with known := known }⟩)
    ⟨hsane.clean, hsane.bare⟩ hcurrent hstatement h.table hids hrun
  obtain ⟨hn, rfl⟩ := Prod.mk.inj (hfinish.symm.trans (finishExecute_apply rfl hrun))
  cases hf : run.fault with
  | some fault =>
    unfold firstRow at hn
    rw [hitems, hf] at hn
    cases hn
  | none =>
    obtain ⟨hkeeps, shape, f, noted, test, hsame, hresolve, htest, hcontent, hcount⟩ := hdeleted hf
    rw [hbindings] at htest
    obtain ⟨-, g, hg, halike⟩ := SelectPlan.condition_back hsame hgood hresolve
    have hone : n = e.link.changes := by
      unfold firstRow at hn
      rw [hitems, hf] at hn
      exact Except.ok.inj hn
    have hkeeps' : Engine.Keeps ⟨s.storage, link'⟩ e :=
      ⟨⟨hkeeps.same.opening, hkeeps.same.savepoints, hkeeps.same.content⟩,
        hkeeps.sane, hkeeps.alone⟩
    refine ⟨hl, ho, htable, _, _, p.bindings, g, test, hcondition, hposes, hstored, hg, fun r hr =>
      (halike link'.scope r).symm.trans (htest r hr), ?_, hone.trans hcount,
      stays_of_keeps hl' hsane halone _ hkeeps'⟩
    rw [nesting_of_link hl']
    exact hcontent

/-- **What a delete removes.** A query with a limit, an offset, no condition or one that does not
compile is refused as not supported, and nothing is changed. Where a delete is carried out whose
filters are read as their trees, the rows that are gone are just those on which all filters are
true, which the same query's select gives where no column that it is ordered by has a zero
character in its name, and their number is told; all other rows and all else in the content are
as they were. -/
theorem deleteRows_spec (q : Query) (s : Session) :
    (q.state.limit ≠ none ∨ q.state.offset ≠ none ∨ q.state.predicate = none ∨
        (∃ e, q.condition = .error e) →
      ∃ e, e.isUnsupported = true ∧ deleteRows q s = (.error e, s)) ∧
    ∀ {alone : Bool} {link : Link} {t : Table} {steps : List QueryStep} {n : Int} {s' : Session},
      s.Usable alone → s.Views link q.mapping t → t.Numbered →
      steps.foldlM Query.step { mapping := q.mapping } = .ok q →
      (∀ e ∈ QueryStep.predicates steps, q.mapping.Legible e) →
      deleteRows q s = (.ok n, s') → ∃ test : Row → Bool,
        (∀ r ∈ t.rows, test r = true ↔ ∀ e ∈ QueryStep.predicates steps,
          q.mapping.Accepts s.connection.settings.ticks t link.scope e r) ∧
        s'.nesting.rows = s.nesting.rows.setTable { t with rows := t.rows.filter fun r => !test r } ∧
        n = (t.rows.filter test).length ∧ Stays alone s s' ∧
        ((∀ k ∈ QueryStep.orderings q.mapping steps, NoZero k.column) →
          ∃ sorted : List Row, sorted.Perm (t.rows.filter test) ∧
            sorted.Pairwise (fun a b => t.compareRows (QueryStep.orderings q.mapping steps) a b ≠ .gt) ∧
            (toList q s).1 = sorted.mapM fun r => materialize q.mapping t.names (t.read r)) := by
  refine ⟨fun h => ?_, fun {alone link t steps n s'} hs h hids hq hp hdelete => ?_⟩
  · rcases q.deleteCommand_cases with ⟨e, he, hcommand⟩ | ⟨hl, ho, hpredicate, text,
      arguments, hc, -⟩
    · exact ⟨e, he, deleteRows_error hcommand s⟩
    · rcases h with h | h | h | ⟨e, h⟩
      · exact absurd hl h
      · exact absurd ho h
      · exact absurd h hpredicate
      · cases hc.symm.trans h
  · have hno : ∀ P : Expression → Prop, ∀ e ∈ (none : Option Expression), P e := fun _ => nofun
    obtain ⟨-, hjoined, hpredicate, horderings⟩ := Query.gathers_of_steps hq
    have hlegible : ∀ e ∈ q.state.predicate, q.mapping.Legible e := by
      rw [hpredicate]
      exact Mapping.legible_conjoined (hno _) hp
    obtain ⟨hl, ho, htable, text, arguments, own, g, test, hz, hposes, hstored, hg, hholds, hrows,
      hn, hstays⟩ := h.of_deleteRows hs hids hlegible hdelete
    refine ⟨test, fun r hr => ?_, hrows, hn, hstays, fun hnames => ?_⟩
    · rw [← Query.accepts_iff hlegible hposes.condition hz hstored hg (hholds r hr), hpredicate]
      exact (Mapping.accepts_conjoined_iff (hno _) hp).trans (and_iff_right (hno _))
    · -- the select has the same condition
      obtain ⟨known, hknown, hsame⟩ := h.known
      obtain ⟨-, rfl⟩ := Mapping.stored_iff.mp hstored
      have hconditioned := hposes.conditioned hstored hsame hg hholds
      have hunbroken : q.Unbroken := (Query.unbroken_iff hjoined hposes.condition).mpr
        ⟨htable, hz, by rwa [horderings]⟩
      obtain ⟨f, visited, hv, hf, hlist⟩ := h.toList_run hjoined hunbroken hknown hsame hconditioned
      rw [hl, ho] at hlist
      have hnone : Counts none := nofun
      obtain ⟨sorted, hperm, hsorted, hcollect⟩ := collect_run (m := q.mapping)
        (SelectPlan.windowOf_formulas hnone hnone rfl rfl _) hv hf
      exact ⟨sorted, hperm, by rwa [horderings] at hsorted, hlist.trans hcollect⟩

/-! ### Notes that are deleted -/

theorem usable_notebook (rows : List Row) : (notebook rows).Usable true :=
  ⟨_, rfl, sane_new _, fun _ => rfl⟩

/-- Of three notes those are deleted whose number is greater than one and whose text is not `b`. -/
theorem deleteRows_spec_notebook :
    let rows : List Row := [⟨1, [.null, .text "a"]⟩, ⟨2, [.null, .text "b"]⟩,
      ⟨3, [.null, .text "c"]⟩]
    let later : Expression := .binary .gt (.property "Id") (.constant (.scalar (.int 1)))
    let other : Expression := .binary .ne (.property "Body") (.constant (.scalar (.text "b")))
    ∃ q s', [QueryStep.filter later, .order (.property "Id") false, .filter other].foldlM Query.step
        { mapping := notes } = .ok q ∧
      deleteRows q (notebook rows) = (.ok 1, s') ∧
      s'.nesting.rows = { tables := [noteTable [⟨1, [.null, .text "a"]⟩, ⟨2, [.null, .text "b"]⟩]] } ∧
      ∃ e, e.isUnsupported = true ∧
        deleteRows { q with state := q.state.take 1 } (notebook rows) =
          (.error e, notebook rows) := by
  intro rows later other
  let q : Query :=
    { mapping := notes
      state := { predicate := some (.binary .and later other), orderings := some [⟨"Id", false⟩] } }
  have hq : [QueryStep.filter later, .order (.property "Id") false, .filter other].foldlM Query.step
      { mapping := notes } = .ok q := rfl
  have hlegible : ∀ e ∈ [later, other], notes.Legible e := by
    simp only [List.forall_mem_cons]
    exact ⟨⟨rfl, fun _ => ⟨_, rfl⟩⟩, ⟨rfl, fun _ => ⟨_, rfl⟩⟩, nofun⟩
  have hids : (noteTable rows).Numbered := by
    unfold Table.Numbered
    decide +kernel
  have hdelete := ends_of_toOption (x := deleteRows q (notebook rows)) (a := 1) (by decide +kernel)
  obtain ⟨test, htest, hrows, -, -, -⟩ :=
    (deleteRows_spec q (notebook rows)).2 (usable_notebook rows)
    (views_notebook rows) hids hq hlegible hdelete
  refine ⟨q, _, hq, hdelete, hrows.trans ?_,
    (deleteRows_spec { q with state := q.state.take 1 } (notebook rows)).1 (.inl nofun)⟩
  have hkept : (rows.filter fun r => !test r) =
      [⟨1, [.null, .text "a"]⟩, ⟨2, [.null, .text "b"]⟩] := by
    refine (List.filter_congr fun r hr => congrArg Bool.not (Bool.eq_iff_iff.mpr ?_)).trans
      (show (rows.filter fun r => not ([later, other].all fun e =>
        (notes.says? true (noteTable rows) (Link.scope { id := 0 }) e r).any
          fun v => v.truth == some true)) = _ by decide +kernel)
    refine (htest r hr).trans ?_
    rw [List.all_eq_true]
    exact forall₂_congr fun e _ => Mapping.accepts_iff_any
  rw [show (noteTable rows).rows = rows from rfl, hkept]
  show ({ tables := [if sameFolded "Note" "Note" then noteTable _ else noteTable rows] } : Database) = _
  rw [if_pos (sameFolded_refl _)]

/-- Filters are not always read apart: behind a call whose name is no name of a function, a delete
removes a note on which the second filter is false. -/
theorem not_always_deletes_accepted : ¬∀ {alone : Bool} {s s' : Session} {link : Link} {t : Table}
    {q : Query} {steps : List QueryStep} {n : Int}, s.Usable alone → s.Views link q.mapping t →
      t.Numbered → steps.foldlM Query.step { mapping := q.mapping } = .ok q →
      deleteRows q s = (.ok n, s') → ∃ test : Row → Bool,
        (∀ r ∈ t.rows, test r = true ↔ ∀ e ∈ QueryStep.predicates steps,
          q.mapping.Accepts s.connection.settings.ticks t link.scope e r) ∧
        n = (t.rows.filter test).length := by
  intro hclaim
  let rows : List Row := [⟨1, [.null, .text "a"]⟩, ⟨2, [.null, .text "b"]⟩]
  let any : Expression := .call "1=1 or abs" [.constant (.scalar (.int 1))]
  let second : Expression := .binary .eq (.property "Id") (.constant (.scalar (.int 2)))
  let q : Query := { mapping := notes, state := { predicate := some (.binary .and any second) } }
  have hq : [QueryStep.filter any, .filter second].foldlM Query.step { mapping := notes } = .ok q :=
    rfl
  have hids : (noteTable rows).Numbered := by
    unfold Table.Numbered
    decide +kernel
  have hdelete := ends_of_toOption (x := deleteRows q (notebook rows)) (a := 2) (by decide +kernel)
  obtain ⟨test, htest, hn⟩ := hclaim (usable_notebook rows) (views_notebook rows) hids hq hdelete
  have hfirst : test ⟨1, [.null, .text "a"]⟩ = false := by
    rw [← Bool.not_eq_true, htest _ List.mem_cons_self]
    intro hall
    have := Mapping.accepts_iff_any.mp (hall second (by simp [QueryStep.predicates]))
    exact absurd this (by decide +kernel)
  have hlength : ((noteTable rows).rows.filter test).length ≤ 1 := by
    show ([_, _].filter test).length ≤ 1
    rw [List.filter_cons_of_neg (by rw [hfirst]; decide)]
    exact List.length_filter_le _ _
  omega

end Session

end RecordMapper
