import RecordMapper.Proofs.Redefining

/-!
# Selects over one table

A query selects from its own table, whatever the text of its condition is, and what it is resolved
to depends on the definition of this table only.

1. `Query.select_of_command`: the statement of a query is read as a select from the table of
   its mapping.
2. `SelectPlan.of_sameTable`: selects are resolved alike where their table is defined alike.
-/

namespace RecordMapper

/-! ## The table of a query -/

namespace Sql

open Lexeme RecordMapper.Sql.Parser

theorem source_of_select {text table : String} {o o' : Nat} {rest rest' : List Lexeme}
    {select : Select} (h : Parser.select text (⟨.symbol "*", "*", 7⟩ :: ⟨.word "from", "from", o⟩ ::
      ⟨.name table, quoteIdentifier table, o'⟩ :: rest) = .ok (select, rest')) :
    select.source.map Source.table = some table := by
  have hselections : withFuel (commaList (selection text)) (⟨.symbol "*", "*", 7⟩ ::
      ⟨.word "from", "from", o⟩ :: ⟨.name table, quoteIdentifier table, o'⟩ :: rest) =
        .ok ([.all none], ⟨.word "from", "from", o⟩ :: ⟨.name table, quoteIdentifier table, o'⟩ :: rest) := by
    refine commaList_single ((Chosen.star text).reads _ _) (fun l hl => ?_) _
    cases hl
    rfl
  have hfrom : isWord "from" ⟨.word "from", "from", o⟩ = true := rfl
  unfold Parser.select at h
  rw [bind_apply, takeWord_of_not rfl, ok_bind, bind_apply, takeWord_of_not rfl,
    ok_bind, bind_apply, hselections, ok_bind] at h
  obtain ⟨source, r₁, hsource, h⟩ := of_bind_ok h
  obtain ⟨_, r₂, -, h⟩ := of_bind_ok h
  obtain ⟨_, r₃, -, h⟩ := of_bind_ok h
  obtain ⟨limit, r₄, -, h⟩ := of_bind_ok h
  extract_lets made at h
  -- whatever the window is, the select has the source that was read
  have hmade : ∀ {w : Option Scalar × Option Scalar} {r : List Lexeme},
      made w r = .ok (select, rest') → select.source = source := by
    rintro ⟨limit, offset⟩ r h
    cases h
    rfl
  have hselected : select.source = source := by
    cases limit with
    | none => exact hmade (w := (none, none)) (r := r₄) h
    | some first =>
      obtain ⟨word, r₅, -, h⟩ := of_bind_ok h
      cases word with
      | true =>
        obtain ⟨w, r₆, -, h⟩ := of_bind_ok h
        exact hmade h
      | false =>
        obtain ⟨comma, r₆, -, h⟩ := of_bind_ok h
        cases comma with
        | true =>
          obtain ⟨w, r₇, -, h⟩ := of_bind_ok h
          exact hmade h
        | false => exact hmade (w := (some first, none)) (r := r₆) h
  rw [hselected]
  unfold clause at hsource
  rw [choice_cons, if_pos hfrom] at hsource
  obtain ⟨named, r₆, hnamed, hsource⟩ := of_bind_ok hsource
  cases hsource
  unfold source at hnamed
  rw [bind_apply, name_of_nameOf? (l := ⟨.name table, quoteIdentifier table, o'⟩) rfl
    (fun _ h => Token.noConfusion h), ok_bind] at hnamed
  obtain ⟨_, r₇, -, hnamed⟩ := of_bind_ok hnamed
  cases hnamed
  rfl

theorem select_of_readStatement {table : String} {rest : List Char} {text : String}
    (hrest : Pause rest)
    (htext : text.toList = "select * from ".toList ++ (quoteIdentifier table).toList ++ rest)
    {s : Option Statement} {ps : Parameters} (h : readStatement text = .ok (s, ps)) :
    ∃ select, s = some (.select select) ∧ select.source.map Source.table = some table := by
  have hselect : Cut Anything 0 "select ".toList ([⟨.word "select", "select", 0⟩] ++ []) :=
    (Cut.word_blank (w := "select") (by decide)).append .space fun rest _ => ⟨rest, rfl⟩
  have hfrom : Cut Anything 8 " from ".toList [⟨.word "from", "from", 9⟩] :=
    .spaced (s := "from") fun _ => .word_blank (by decide)
  have hcut := hselect.andThen ((Chosen.star text).cut.append (hfrom.andThen (Cut.quoted table))
    fun _ _ => ⟨_, rfl⟩)
  obtain ⟨more, hfirst⟩ := hcut.firstStatement_of_ok ends_nil hrest.ends htext h
  have hword : isWord "select" ⟨.word "select", "select", 0⟩ = true := rfl
  cases s with
  | none =>
    unfold readStatement at h
    rw [hfirst] at h
    obtain ⟨⟨statement, left⟩, -, h⟩ := ok_of_bind (of_legally h)
    simp only at h
    split at h
    · cases h
    · split at h
      · cases h
      · cases h
  | some s =>
    obtain ⟨left, hs⟩ := statement_of_readStatement h
    unfold Parser.statement at hs
    rw [hfirst, List.cons_append, choice_cons, if_pos hword] at hs
    obtain ⟨select, r, hselect, hs⟩ := of_bind_ok hs
    cases hs
    exact ⟨select, rfl, source_of_select hselect⟩

end Sql

namespace Query

variable {q : Query} {c : Command}

theorem text_of_command (h : q.command "*" = .ok c) : ∃ rest, Sql.Pause rest ∧
    c.text.toList = "select * from ".toList ++
      (quoteIdentifier q.mapping.table).toList ++ rest := by
  unfold command at h
  split at h
  · cases h
  · obtain ⟨⟨condition, arguments⟩, hcondition, h⟩ := ok_of_bind h
    cases h
    have hpause : Sql.Pause condition.toList := by
      unfold Query.condition at hcondition
      split at hcondition
      · cases hcondition
        exact Sql.pause_nil
      · obtain ⟨x, -, hcondition⟩ := ok_of_bind hcondition
        cases hcondition
        rw [String.toList_append]
        exact Sql.pause_space _
    refine ⟨condition.toList ++ (q.state.orderText.toList ++ q.state.windowText.toList),
      hpause.append ((Sql.Part.ordering q.state).1.append (Sql.Part.window q.state).1), ?_⟩
    show ("select " ++ "*" ++ " from " ++ _ ++ _ ++ _ ++ _ : String).toList = _
    simp only [String.toList_append, List.append_assoc]
    rfl

theorem positional_of_command {selection : String} (h : q.command selection = .ok c) :
    ∃ values, c = .positional c.text values := by
  unfold command at h
  split at h
  · cases h
  · obtain ⟨⟨condition, arguments⟩, -, h⟩ := ok_of_bind h
    cases h
    exact ⟨arguments, rfl⟩

/-- The statement of a query is read as a select from the table of its mapping. -/
theorem select_of_command (h : q.command "*" = .ok c) {s : Option Sql.Statement}
    {ps : Sql.Parameters} (hread : Sql.readStatement c.text = .ok (s, ps)) :
    ∃ select, s = some (.select select) ∧
    select.source.map Sql.Source.table = some q.mapping.table := by
  obtain ⟨rest, hrest, htext⟩ := text_of_command h
  exact Sql.select_of_readStatement hrest htext hread

end Query

/-! ## The definition of the table -/

namespace SelectPlan

theorem resultColumns_bare (n : Naming) (item : Sql.Selection) :
    resultColumns n.bare item = resultColumns n item := by
  obtain ⟨t, other, ps, ag, results⟩ := n
  cases item with
  | all q =>
    cases t with
    | none => rfl
    | some t => cases q <;> rfl
  | scalar a otherName spelling =>
    have hname : resultName (Naming.bare ⟨t, other, ps, ag, results⟩) a spelling =
        resultName ⟨t, other, ps, ag, results⟩ a spelling := by
      cases t with
      | none => rfl
      | some t => cases a <;> rfl
    simp only [resultColumns, Resolver.operand_bare, hname]

theorem orderKey_bare (n : Naming) (columns : List ResultColumn) (k : Sql.OrderTerm) (i : Nat) :
    orderKey n.bare columns k i = orderKey n columns k i := by
  have hoperand : orderOperand n.bare columns i k.scalar = orderOperand n columns i k.scalar := by
    unfold orderOperand
    simp only [Resolver.operand_bare]
  unfold orderKey
  rw [hoperand]

theorem sourceTable_of_some {d : Database} {source : Sql.Source} {t : Table}
    (h : d.readable? source.table = some t) : sourceTable d (some source) = .ok (some t) := by
  unfold sourceTable
  simp only [h]

theorem sourceTable_of_none {d : Database} {source : Sql.Source}
    (h : d.readable? source.table = none) :
    sourceTable d (some source) = .error ⟨.noTable source.table, none⟩ := by
  unfold sourceTable
  simp only [h]

/-- Selects are resolved alike where their table is defined alike. -/
theorem of_sameTable {d d' : Database} {s : Sql.Select} {table : String}
    (hs : s.source.map Sql.Source.table = some table)
    (h : (d.readable? table).map Table.bare = (d'.readable? table).map Table.bare)
    (ps : Sql.Parameters) :
    SelectPlan.of d ps s = SelectPlan.of d' ps s := by
  obtain ⟨source, hsource, rfl⟩ := Option.map_eq_some_iff.mp hs
  unfold SelectPlan.of
  rw [hsource]
  cases ht : d.readable? source.table with
  | none =>
    rw [ht] at h
    rw [sourceTable_of_none ht, sourceTable_of_none (Option.map_eq_none_iff.mp h.symm)]
  | some t =>
    rw [ht] at h
    obtain ⟨t', ht', hbare⟩ := Option.map_eq_some_iff.mp h.symm
    have hn : ∀ o ag results, Naming.bare ⟨some t, o, ps, ag, results⟩ =
        Naming.bare ⟨some t', o, ps, ag, results⟩ := by
      intro o ag results
      unfold Naming.bare
      rw [Option.map_some, Option.map_some, hbare]
    have hcolumns : ∀ o ag results, resultColumns ⟨some t, o, ps, ag, results⟩ =
        resultColumns ⟨some t', o, ps, ag, results⟩ :=
      fun o ag results => funext fun item => by rw [← resultColumns_bare, hn, resultColumns_bare]
    have hkeys : ∀ o ag results, orderKey ⟨some t, o, ps, ag, results⟩ =
        orderKey ⟨some t', o, ps, ag, results⟩ :=
      fun o ag results => funext fun c => funext fun k => funext fun i => by
        rw [← orderKey_bare, hn, orderKey_bare]
    have hformula : ∀ o ag results, Resolver.formula ⟨some t, o, ps, ag, results⟩ =
        Resolver.formula ⟨some t', o, ps, ag, results⟩ :=
      fun o ag results => funext fun a => by
        unfold Resolver.formula
        rw [← Resolver.operand_bare, hn, Resolver.operand_bare]
    rw [sourceTable_of_some ht, sourceTable_of_some ht']
    simp only [bind, Except.bind, hcolumns, hkeys, hformula]

end SelectPlan

namespace Program

variable {d d' : Database} {ps : Sql.Parameters} {s : Sql.Select} {table : String}

theorem of_select : Program.of d ps (.select s) =
    (do return select (← SelectPlan.of d ps s) (s.source.map Sql.Source.table)) := (rfl)

theorem of_sameTable (hs : s.source.map Sql.Source.table = some table)
    (h : (d.readable? table).map Table.bare = (d'.readable? table).map Table.bare) :
    Program.of d ps (.select s) = Program.of d' ps (.select s) := by
  rw [of_select, of_select, SelectPlan.of_sameTable hs h]

theorem need_of_select {program : Program} (hs : s.source.map Sql.Source.table = some table)
    (h : Program.of d ps (.select s) = .ok program) : program.need = .reading := by
  rw [of_select] at h
  obtain ⟨plan, -, h⟩ := ok_of_bind h
  cases h
  rw [hs]
  rfl

end Program

/-! ## Preparing and running a select -/

namespace Engine

/-- How a table is defined for the link, if it is. -/
def definition? (e : Engine) (table : String) : Option Table :=
  (e.definitions.readable? table).map Table.bare

/-- What the link knows of a table is what the content says of it. -/
def KnowsTable (e : Engine) (table : String) : Prop :=
  ∀ k, e.link.known = some k →
    (k.readable? table).map Table.bare = (e.content.readable? table).map Table.bare

variable {e e' r : Engine} {table text : String} {s : Sql.Select} {ps : Sql.Parameters}

theorem KnowsTable.definition? (h : e.KnowsTable table) :
    e.definition? table = (e.content.readable? table).map Table.bare := by
  unfold Engine.definition? definitions
  cases hk : e.link.known with
  | none => rfl
  | some k => exact h k hk

/-- The definitions of the content may have been read, and nothing else that matters has changed. -/
theorem KnowsTable.congr (h : e.KnowsTable table) (hc : r.content = e.content)
    (hk : r.link.known = e.link.known ∨ r.link.known = some e.content) : r.KnowsTable table := by
  intro k hk'
  rw [hc]
  rcases hk with hk | hk
  · exact h k (hk ▸ hk')
  · obtain rfl := Option.some.inj (hk.symm.trans hk')
    rfl

theorem definition?_congr (h : e.KnowsTable table) (hc : r.content = e.content)
    (hk : r.link.known = e.link.known ∨ r.link.known = some e.content) :
    r.definition? table = e.definition? table := by
  rw [(h.congr hc hk).definition?, h.definition?, hc]

theorem readsDefinitions_select (hs : s.source.map Sql.Source.table = some table) :
    readsDefinitions (.select s) = true := by
  obtain ⟨source, hsource, -⟩ := Option.map_eq_some_iff.mp hs
  show s.source.isSome = true
  rw [hsource]
  rfl

/-- A select from a table that is prepared is what it means over the definitions that the link
then has. -/
theorem of_prepare_select (hs : s.source.map Sql.Source.table = some table)
    (hread : Sql.readStatement text = .ok (some (.select s), ps)) {p : Prepared}
    (hp : e.prepare text = (.ok p, r)) :
    ∃ program, Program.of r.definitions ps (.select s) = .ok program ∧
      p = { text, statement := some (.select s), parameters := ps, names := program.names } := by
  rcases informed_cases (e := e) (readsDefinitions_select hs) with hi | ⟨fault, hi, -⟩
  · unfold prepare at hp
    simp only [hread, hi] at hp
    cases hresolve : e.knowing.resolve ps (.select s) with
    | ok program =>
      rw [hresolve] at hp
      cases hp
      exact ⟨program, hresolve, rfl⟩
    | error fault =>
      rw [hresolve] at hp
      simp only at hp
      split at hp
      · cases hp
      · rename_i q hq
        split at hp
        · cases hresolve' : q.resolve ps (.select s) with
          | error fault =>
            rw [hresolve'] at hp
            cases hp
          | ok program =>
            rw [hresolve'] at hp
            cases hp
            rw [of_refreshed hq] at hresolve' ⊢
            exact ⟨program, hresolve', rfl⟩
        · cases hp
  · unfold prepare at hp
    simp only [hread, hi] at hp
    cases hp

section Running

variable {p : Prepared}

theorem of_enter_select (hs : s.source.map Sql.Source.table = some table) {program : Program}
    (h : e.enter p (.select s) = .ok (program, r)) :
    program.need = .reading ∧ r.content = e.content ∧
      (r.link.known = e.link.known ∨ r.link.known = some e.content) := by
  obtain ⟨q, hq, h⟩ := ok_of_bind h
  obtain ⟨d, hd, rfl⟩ := renewed_alike hq
  cases engages_of_engage h with
  | known hof hr =>
    have hreads := Program.need_of_select hs hof
    rw [hreads] at hr
    obtain ⟨hcontent, hlink⟩ := acquireRead_content hr
    refine ⟨hreads, hcontent, ?_⟩
    rw [hlink]
    exact hd
  | anew hfirst hw hof hr =>
    have hreads := Program.need_of_select hs hof
    rw [Program.need_of_select hs hfirst] at hw
    rw [hreads] at hr
    have hanew := (alike_anew (acquire_alike hw).1).content
    obtain ⟨hcontent, hlink⟩ := acquireRead_content hr
    refine ⟨hreads, hcontent.trans hanew, .inr ?_⟩
    rw [hlink]
    exact congrArg some hanew

theorem start_reads {s : Sql.Statement} {program : Program} (hp : p.statement = some s)
    (hx : e.enter p s = .ok (program, r)) (hn : program.need = .reading) :
    e.start p = (program.rows r.content (r.scope p), true,
      { r with link := { r.link with readers := r.link.readers + 1 } }) := by
  unfold start
  simp only [hp, hx, hn, if_true]

theorem start_error {s : Sql.Statement} {fault : EngineFault} (hp : p.statement = some s)
    (hx : e.enter p s = .error fault) : e.start p = (⟨[], some fault⟩, false, e.refused s) := by
  unfold start
  simp only [hp, hx]

/-- A stream starts with the rows that the statement has when it is run to its end. -/
theorem start_rows (hp : p.statement = some (.select s))
    (hs : s.source.map Sql.Source.table = some table) (hi : e.informed (.select s) = .ok e.knowing)
    {program : Program} (hof : Program.of e.definitions p.parameters (.select s) = .ok program) :
    (e.start p).1 = (e.knowing.run p).1 := by
  have hresolve : e.knowing.resolve p.parameters (.select s) = .ok program := hof
  have henter : e.enter p (.select s) = e.knowing.enter p (.select s) := by
    unfold enter
    rw [renewed_of_resolve hi hresolve, renewed_of_resolve (informed_knowing _) hresolve]
  cases hx : e.knowing.enter p (.select s) with
  | error fault => rw [start_error hp (henter.trans hx), run_error hp hx]
  | ok x =>
    have hn := (of_enter_select hs hx).1
    rw [start_reads hp (henter.trans hx) hn, run_reads hp hx hn]

/-- Where the definitions cannot be read there are no rows. -/
theorem start_unread {fault : EngineFault} (hp : p.statement = some (.select s))
    (hi : e.informed (.select s) = .error fault) : (e.start p).1 = ⟨[], some fault⟩ := by
  have henter : e.enter p (.select s) = .error fault := by
    unfold enter renewed
    rw [hi]
    rfl
  rw [start_error hp henter]

/-- Starting a select leaves the content and the definitions of it. -/
theorem start_keeps (hp : p.statement = some (.select s))
    (hs : s.source.map Sql.Source.table = some table) :
    (e.start p).2.2.content = e.content ∧
      ((e.start p).2.2.link.known = e.link.known ∨ (e.start p).2.2.link.known = some e.content) := by
  cases hx : e.enter p (.select s) with
  | error fault =>
    rw [start_error hp hx]
    exact ⟨rfl, .inl rfl⟩
  | ok x =>
    obtain ⟨hn, hcontent, hknown⟩ := of_enter_select hs hx
    rw [start_reads hp hx hn]
    exact ⟨hcontent, hknown⟩

theorem finish_keeps : e.finish.content = e.content ∧ e.finish.link.known = e.link.known := by
  unfold finish settled
  simp only
  split
  · exact ⟨rfl, rfl⟩
  · exact ⟨rfl, rfl⟩

end Running

end Engine

end RecordMapper
