import RecordMapper.Proofs.Defining

/-!
# Creating tables

A creation is a script: the statement of the table or those of the columns that it lacks, and then
the statements of its indices. Each statement stands by itself, so that what came before a refused
one stays.

1. `Session.tableInfo_steady`: asking for the columns of a table changes nothing.
2. `Session.perform_defines`: a script comes to its end, or to a statement that is refused.
3. `Session.createTableWith_error`: what a creation that fails leaves.
-/

namespace RecordMapper

/-! ## The columns of a table -/

namespace Sql

open RecordMapper.Sql.Parser

/-- The text that asks for the columns of a table. -/
theorem readsAs_tableInfo (table : String) :
    ReadsAs ("pragma table_info(" ++ quoteIdentifier table ++ ")")
      (some (.pragma "table_info" (some table)), {}) := by
  have hp : foldCase "pragma" = "pragma" := by decide
  have hparen : ∀ o, Cut Anything o "(".toList [⟨.symbol "(", "(", o⟩] :=
    fun o => .symbol (by decide)
  have hclosing : ∀ o, Cut Anything o ")".toList [⟨.symbol ")", ")", o⟩] :=
    fun o => .symbol (by decide)
  obtain ⟨a, b, c, d, hcut⟩ : ∃ a b c d, Cut Anything 0
      ("pragma".toList ++ " ".toList ++ "table_info".toList ++ "(".toList ++
        (quoteIdentifier table).toList ++ ")".toList)
      [wordAt "pragma" 0, wordAt "table_info" a, ⟨.symbol "(", "(", b⟩,
        ⟨.name table, quoteIdentifier table, c⟩, ⟨.symbol ")", ")", d⟩] := by
    have hpragma := (Cut.word_blank (w := "pragma") (o := 0) (by decide)).append Cut.space
      fun rest _ => ⟨rest, rfl⟩
    have hinfo := hpragma.andThen (Cut.word (w := "table_info") (by decide))
    have hopen := hinfo.append (hparen _) fun rest _ => ⟨by rintro _ ⟨⟩; rfl, nofun⟩
    have hname := hopen.andThen (Cut.quoted table)
    have hclosed := hname.append (hclosing _) fun rest _ => ends_cons rfl rest
    exact ⟨_, _, _, _, hclosed⟩
  have htext : ("pragma table_info(" ++ quoteIdentifier table ++ ")").toList = "pragma".toList ++
      " ".toList ++ "table_info".toList ++ "(".toList ++ (quoteIdentifier table).toList ++
        ")".toList := by
    simp
  rw [← htext] at hcut
  have hparse : statement ("pragma table_info(" ++ quoteIdentifier table ++ ")")
      [wordAt "pragma" 0, wordAt "table_info" a, ⟨.symbol "(", "(", b⟩,
        ⟨.name table, quoteIdentifier table, c⟩, ⟨.symbol ")", ")", d⟩] =
      .ok (.pragma "table_info" (some table), []) := by
    have hname : name [wordAt "table_info" a, ⟨.symbol "(", "(", b⟩,
        ⟨.name table, quoteIdentifier table, c⟩, ⟨.symbol ")", ")", d⟩] =
        .ok ("table_info", [⟨.symbol "(", "(", b⟩, ⟨.name table, quoteIdentifier table, c⟩,
          ⟨.symbol ")", ")", d⟩]) :=
      name_of_nameOf? (nameOf?_word (by decide)) (by rintro s ⟨⟩) _
    unfold statement
    simp only [choice_cons, isWord_wordAt, hp, String.reduceBEq, Bool.false_eq_true, if_false,
      beq_self_eq_true, if_true]
    unfold pragma
    rw [bind_apply, hname, ok_bind]
    rfl
  exact hcut.readsAs trivial hparse

theorem noZero_tableInfo {table : String} :
    NoZero ("pragma table_info(" ++ quoteIdentifier table ++ ")") ↔ NoZero table := by
  have hopening : NoZero "pragma table_info(" := by decide
  have hclosing : NoZero ")" := by decide
  simp only [noZero_append, noZero_quoteIdentifier, hopening, hclosing, true_and, and_true]

end Sql

theorem Program.of_tableInfo (d : Database) (ps : Sql.Parameters) (table : String) :
    of d ps (.pragma "table_info" (some table)) = .ok (.tableInfo table) := by
  have hfold : foldCase "table_info" = "table_info" := by decide
  show Except.ok (ofPragma "table_info" (some table)) = _
  simp only [ofPragma, hfold]

namespace Engine

variable {e : Engine}

/-- Asking for the columns of a table changes nothing, and gives what the content says if it is not
refused. -/
theorem run_tableInfo (hs : e.Sane) (hc : e.Current) {p : Prepared} {table : String}
    (hp : p.statement = some (.pragma "table_info" (some table))) :
    ∃ run r, e.run p = (run, r) ∧ Keeps e r ∧ r.Current ∧ r.content = e.content ∧
      (run = ⟨((e.content.readable? table).map Program.columnRows).getD [], none⟩ ∧ r.Informed ∨
        ∃ fault, run = ⟨[], some fault⟩) := by
  have hof := fun d ps => Program.of_tableInfo d ps table
  cases hx : e.enter p (.pragma "table_info" (some table)) with
  | error fault =>
    exact ⟨⟨[], some fault⟩, e, run_error hp hx, ⟨.refl e, hs, id⟩, hc, rfl, .inr ⟨fault, rfl⟩⟩
  | ok x =>
    obtain ⟨program, r⟩ := x
    obtain ⟨ha, hrc, hri, hcontent, hsane⟩ := enter_content hc (fun _ => by rw [hof, hof])
      (fun h => by
        rw [hof] at h
        cases h
        exact nofun) hs hx
    rw [hof] at hcontent
    cases hcontent
    refine ⟨_, _, run_reads hp hx rfl, ⟨⟨?_, ?_, ?_⟩, sane_settled (hsane nofun), fun hal => alone_settled (ha.alone hal)⟩,
      hrc.congr (by rw [link_settled]) content_settled, content_settled.trans ha.content,
      .inl ⟨?_, hri.congr (by rw [link_settled]) content_settled⟩⟩
    · rw [link_settled]
      exact ha.opening
    · rw [link_settled]
      exact ha.savepoints
    · exact fun _ => stored_settled.trans ha.storage
    · rw [ha.content]
      rfl

end Engine

/-- The names under which a table describes its columns. -/
def Program.columnLabels : List String := ["cid", "name", "type", "notnull", "dflt_value", "pk"]

namespace Session

open RecordMapper.Action

variable {alone : Bool} {s t : Session}

theorem name_ofRow {name : String} {a b c d f : Cell} {row : ResultRow}
    {described : ColumnDescription}
    (hrow : plainRow Program.columnLabels [a, .text name, b, c, d, f] = .ok row)
    (h : ColumnDescription.ofRow row = .ok described) : described.name = name := by
  have hplace : Program.columnLabels.findIdx? (fun c => sameFolded c "name") = some 1 := by
    decide +kernel
  obtain rfl : row = ⟨Program.columnLabels, [a.plain, .text name, b.plain, c.plain, d.plain, f.plain]⟩ :=
    (Except.ok.inj hrow).symm
  have hnamed : ResultRow.named? ⟨Program.columnLabels,
      [a.plain, .text name, b.plain, c.plain, d.plain, f.plain]⟩ "name" = some (.text name) := by
    unfold ResultRow.named?
    rw [hplace]
    rfl
  unfold ColumnDescription.ofRow at h
  obtain ⟨text, htext, h⟩ := ok_of_bind h
  obtain ⟨_, -, h⟩ := ok_of_bind h
  obtain ⟨_, -, h⟩ := ok_of_bind h
  obtain ⟨_, -, h⟩ := ok_of_bind h
  cases h
  unfold ColumnDescription.text at htext
  rw [hnamed] at htext
  cases htext
  rfl

theorem names_ofRow (t : Table) : ∀ (cs : List (StoredColumn × Nat)) {found : List ResultRow}
    {present : List ColumnDescription},
    (cs.map fun (c, i) => [Cell.ofInt i, .text c.name, .text c.type, Cell.ofBool c.notNull,
      (c.fallback.map fun (_, spelling) => Cell.text spelling).getD .null,
      Cell.ofInt (Int.ofNat (((t.key.findIdx? (· == i)).map (· + 1)).getD 0))]).mapM
        (plainRow Program.columnLabels) = .ok found →
    found.mapM ColumnDescription.ofRow = .ok present →
      present.map ColumnDescription.name = cs.map fun (c, _) => c.name := by
  intro cs
  induction cs with
  | nil =>
    intro found present hfound hpresent
    cases hfound
    cases hpresent
    rfl
  | cons x rest ih =>
    intro found present hfound hpresent
    rw [List.map_cons, List.mapM_cons] at hfound
    obtain ⟨row, hrow, hfound⟩ := ok_of_bind hfound
    obtain ⟨rows, hrows, hfound⟩ := ok_of_bind hfound
    cases hfound
    rw [List.mapM_cons] at hpresent
    obtain ⟨described, hdescribed, hpresent⟩ := ok_of_bind hpresent
    obtain ⟨more, hmore, hpresent⟩ := ok_of_bind hpresent
    cases hpresent
    rw [List.map_cons, List.map_cons, ih hrows hmore, name_ofRow hrow hdescribed]

/-- The columns of a table are told from the rows of its pragma. -/
theorem tableInfo_apply {table : String} {q : Prepared} {u : Session} {run : Run (List Cell)}
    (hready : ready ⟨"pragma table_info(" ++ quoteIdentifier table ++ ")", []⟩ s = (.ok q, u))
    (hstep : step q u = (.ok run, t)) :
    tableInfo table s =
      ((collect run (plainRow q.names)).bind fun found => found.mapM ColumnDescription.ofRow, t) := by
  have hrows : rows ⟨"pragma table_info(" ++ quoteIdentifier table ++ ")", []⟩ s =
      (collect run (plainRow q.names), t) :=
    (bind_ok hready).trans ((bind_ok hstep).trans (ofExcept_apply _ _))
  unfold tableInfo
  cases hfound : collect run (plainRow q.names) with
  | error e => exact bind_error (hfound ▸ hrows)
  | ok found => exact bind_ok (hfound ▸ hrows)

/-- The columns of a table are asked for without any change; their names are those of the
content. -/
theorem tableInfo_steady (hs : s.Usable alone) (hc : s.Current) (table : String) :
    ∃ x t, tableInfo table s = (x, t) ∧ Steady alone s t ∧ t.nesting.rows = s.nesting.rows ∧
      ∀ present, x = .ok present → t.Informed ∧ NoZero table ∧ present.map ColumnDescription.name =
        ((s.nesting.rows.readable? table).map fun t => t.columns.map StoredColumn.name).getD [] := by
  obtain ⟨x, u, hx, hu, hrows, hq⟩ :=
    ready_steady hs hc ("pragma table_info(" ++ quoteIdentifier table ++ ")")
  cases x with
  | error e =>
    exact ⟨.error e, u, bind_error (bind_error hx), hu, hrows, fun present h => by cases h⟩
  | ok q =>
    obtain ⟨link, hl, hsane, halone⟩ := hu.usable
    have hcontent : Engine.content ⟨u.storage, link⟩ = s.nesting.rows :=
      (content_of_link hl).trans hrows
    have hreading : ∀ {run : Run (List Cell)} {r : Engine},
        Engine.run ⟨u.storage, link⟩ q = (run, r) → tableInfo table s =
          ((collect run (plainRow q.names)).bind fun found => found.mapM ColumnDescription.ofRow,
            u.withEngine r) := fun hrun => tableInfo_apply hx (step_apply hl hrun)
    have hfailed : ∀ {fault : EngineFault},
        collect ⟨[], some fault⟩ (plainRow q.names) = .error (Error.ofFault fault) := rfl
    cases hst : q.statement with
    | none =>
      have hrun := Engine.run_none (e := ⟨u.storage, link⟩) hst
      obtain ⟨hsteady, hrows'⟩ := steady_of_keeps hl hsane halone u.log
        ⟨.refl _, hsane, id⟩ (hu.current link hl)
      exact ⟨_, _, hreading hrun, hu.trans hsteady, hrows'.trans hcontent,
        fun present h => by cases h⟩
    | some st =>
      obtain ⟨hread, d, program, hof, hnames⟩ := hq q rfl st hst
      obtain ⟨hwhole, hsame⟩ := (Sql.readsAs_tableInfo table).of_ok hread
      obtain rfl := Option.some.inj (Prod.mk.inj hsame).1
      rw [Program.of_tableInfo] at hof
      obtain rfl := Except.ok.inj hof
      obtain ⟨run, r, hrun, hkeeps, hr, hrc, hresult⟩ :=
        Engine.run_tableInfo hsane (hu.current link hl) hst
      obtain ⟨hsteady, hrows'⟩ := steady_of_keeps hl hsane halone u.log hkeeps hr
      refine ⟨_, _, hreading hrun, hu.trans hsteady, hrows'.trans (hrc.trans hcontent), ?_⟩
      intro present hpresent
      rcases hresult with ⟨rfl, hinformed⟩ | ⟨fault, rfl⟩
      · refine ⟨⟨_, rfl, hinformed⟩, Sql.noZero_tableInfo.mp hwhole, ?_⟩
        obtain ⟨found, hfound, hpresent⟩ := ok_of_bind hpresent
        obtain ⟨items, hitems, hfound⟩ := ok_of_bind hfound
        cases hfound
        rw [hcontent, hnames] at hitems
        cases ht : s.nesting.rows.readable? table with
        | none =>
          rw [ht] at hitems
          cases hitems
          cases hpresent
          rfl
        | some t =>
          rw [ht] at hitems
          have hnames := names_ofRow t t.columns.zipIdx hitems hpresent
          rw [hnames]
          show t.columns.zipIdx.map (StoredColumn.name ∘ Prod.fst) = t.columns.map StoredColumn.name
          rw [← List.map_map, List.zipIdx_map_fst]
      · rw [hfailed] at hpresent
        cases hpresent

end Session

/-! ## Scripts -/

/-- The statements of a creation in order: the table or the columns that it lacks, then the
indices. -/
def Mapping.script (m : Mapping) (ticks : Bool) (present : List ColumnDescription)
    (plans : List IndexPlan) : List (Except Error String) :=
  (if present.isEmpty then [m.createStatement ticks]
    else (m.missingColumns present).map (m.addStatement ticks)) ++
  plans.map fun p => .ok (createIndexStatement p.name m.table (p.members.map Prod.snd) p.unique)

theorem Mapping.defines_script {m : Mapping} {ticks : Bool} {present : List ColumnDescription}
    {plans : List IndexPlan} {text : String} (h : .ok text ∈ m.script ticks present plans) :
    Sql.Defines text := by
  rcases List.mem_append.mp h with h | h
  · split at h
    · exact Mapping.defines_createStatement (List.mem_singleton.mp h).symm
    · obtain ⟨c, -, hc⟩ := List.mem_map.mp h
      exact Mapping.defines_addStatement hc
  · obtain ⟨p, -, hp⟩ := List.mem_map.mp h
    cases hp
    exact defines_createIndexStatement _ _ _ _

/-- What some texts make of a database, one after the other. -/
def Database.redefineAll? (d : Database) (texts : List String) : Option Database :=
  texts.foldlM Database.redefine? d

namespace Database

variable {d d' : Database}

theorem version_redefine? {text : String} (h : d.redefine? text = some d') :
    d' = d ∨ d.version < d'.version := by
  unfold redefine? at h
  split at h
  · split at h
    · rename_i definition _
      cases hrun : definition.run d with
      | error fault =>
        rw [hrun] at h
        cases h
      | ok e =>
        rw [hrun] at h
        cases h
        exact (Definition.version_run hrun).imp_left And.right
    · cases h
  · cases h

theorem redefineAll?_eq_iff {texts : List String} (h : d.redefineAll? texts = some d') :
    d.version ≤ d'.version ∧
      (d' = d ↔ ∀ text ∈ texts, d.redefine? text = some d) := by
  induction texts generalizing d with
  | nil =>
    cases h
    exact ⟨Nat.le_refl _, fun _ _ ht => absurd ht List.not_mem_nil, fun _ => rfl⟩
  | cons text rest ih =>
    unfold redefineAll? at h
    rw [List.foldlM_cons] at h
    obtain ⟨e, he, h⟩ := Option.bind_eq_some_iff.mp h
    obtain ⟨hle, hiff⟩ := ih h
    rcases version_redefine? he with rfl | hlt
    · refine ⟨hle, hiff.trans ⟨fun hall text' ht => ?_, fun hall text' ht => ?_⟩⟩
      · rcases List.mem_cons.mp ht with rfl | ht
        · exact he
        · exact hall text' ht
      · exact hall text' (List.mem_cons_of_mem _ ht)
    · refine ⟨by omega, fun hd => ?_, fun hall => ?_⟩
      · subst hd
        omega
      · have hsame := hall text List.mem_cons_self
        rw [he] at hsame
        cases hsame
        exact absurd hlt (Nat.lt_irrefl _)

end Database

namespace Session

open RecordMapper.Action

/-- Executes the statements of a script, up to the first that fails. -/
def perform : List (Except Error String) → SessionAction Unit
  | [] => pure ()
  | x :: rest => do
    let text ← .ofExcept x
    let _ ← executeText text
    perform rest

theorem forIn_perform {α : Type} (f : α → Except Error String) (as : List α) :
    (do for a in as do
          let text ← .ofExcept (f a)
          let _ ← executeText text : SessionAction Unit) = perform (as.map f) := by
  induction as with
  | nil => rfl
  | cons a rest ih =>
    rw [List.map_cons, perform, ← ih]
    rw [List.forIn_cons]
    simp only [bind_assoc, pure_bind]

theorem perform_append (xs ys : List (Except Error String)) :
    perform (xs ++ ys) = (do perform xs; perform ys) := by
  induction xs with
  | nil =>
    rw [List.nil_append, perform, pure_bind]
  | cons x rest ih =>
    rw [List.cons_append, perform, perform, ih]
    simp only [bind_assoc]

theorem ofExcept_ok_bind {α β : Type} (a : α) (f : α → SessionAction β) :
    ((Action.ofExcept (.ok a) : SessionAction α) >>= f) = f a := (rfl)

variable {alone : Bool} {s t : Session}

/-- A script of statements that define comes to its end, or to one that is refused; what came before
stays. -/
theorem perform_defines (script : List (Except Error String))
    (hdef : ∀ text, .ok text ∈ script → Sql.Defines text) (hs : s.Usable alone) (hc : s.Current) :
    ∃ x t, perform script s = (x, t) ∧ Steady alone s t ∧
      match x with
      | .ok _ => (s.Informed → t.Informed) ∧ ∃ texts, script = texts.map .ok ∧
          s.nesting.rows.redefineAll? texts = some t.nesting.rows
      | .error _ => ∃ done refused rest, script = done.map .ok ++ refused :: rest ∧
          s.nesting.rows.redefineAll? done = some t.nesting.rows := by
  induction script generalizing s with
  | nil => exact ⟨.ok (), s, rfl, .refl hs hc, id, [], rfl, rfl⟩
  | cons x rest ih =>
    cases x with
    | error e => exact ⟨.error e, s, rfl, .refl hs hc, [], _, rest, rfl, rfl⟩
    | ok text =>
      obtain ⟨y, u, hy, hu, hrows⟩ := executeText_defines (hdef text List.mem_cons_self) hs hc
      cases y with
      | error e =>
        have hperform : perform (.ok text :: rest) s = (.error e, u) :=
          (bind_ok (ofExcept_apply _ s)).trans (bind_error hy)
        refine ⟨.error e, u, hperform, hu, [], .ok text, rest, rfl, ?_⟩
        exact congrArg some hrows.symm
      | ok n =>
        obtain ⟨x, t, hx, ht, hend⟩ := ih (fun text' h => hdef text' (List.mem_cons_of_mem _ h))
          hu.usable hu.current
        have hperform : perform (.ok text :: rest) s = (x, t) := (bind_ok hy).trans hx
        have hall : ∀ texts, s.nesting.rows.redefineAll? (text :: texts) =
            u.nesting.rows.redefineAll? texts := by
          intro texts
          unfold Database.redefineAll?
          rw [List.foldlM_cons, hrows.1]
          rfl
        refine ⟨x, t, hperform, hu.trans ht, ?_⟩
        cases x with
        | ok _ =>
          obtain ⟨hinformed, texts, rfl, hend⟩ := hend
          exact ⟨fun _ => hinformed hrows.2, text :: texts, rfl, (hall texts).trans hend⟩
        | error e =>
          obtain ⟨done, refused, more, rfl, hend⟩ := hend
          exact ⟨text :: done, refused, more, rfl, (hall done).trans hend⟩

/-- A creation is its script, once the mapping, the plans and the columns are known. -/
theorem createTableWith_apply {conventions : Conventions} {d : Declaration} {m : Mapping}
    {plans : List IndexPlan} {present : List ColumnDescription} {s₁ s₂ : Session}
    (hm : mappingWith conventions d s = (.ok m, s₁)) (hp : IndexPlan.ofMapping m = .ok plans)
    (ht : tableInfo m.table s₁ = (.ok present, s₂))
    (hticks : s₂.connection.settings = s₁.connection.settings) :
    createTableWith conventions d s = (do
      perform (m.script s₁.connection.settings.ticks present plans)
      modify fun s =>
        { s with connection := { s.connection with created := d.typeName :: s.connection.created } }
      return if present.isEmpty then .created else .migrated : SessionAction Creation) s₂ := by
  have hplans : (Action.ofExcept ((IndexPlan.ofMapping m).mapError Error.schema) :
      SessionAction (List IndexPlan)) s₁ = (.ok plans, s₁) := by rw [hp]; rfl
  unfold createTableWith
  rw [bind_ok hm, bind_ok hplans, get_bind, bind_ok ht]
  unfold Mapping.script
  cases present.isEmpty with
  | true =>
    have hindices := forIn_perform (fun p : IndexPlan => .ok (createIndexStatement p.name m.table
      (p.members.map Prod.snd) p.unique)) plans
    simp only [ofExcept_ok_bind] at hindices
    simp only [if_true, perform_append, perform, bind_assoc, pure_bind, ← hindices]
    rfl
  | false =>
    have hindices := forIn_perform (fun p : IndexPlan => .ok (createIndexStatement p.name m.table
      (p.members.map Prod.snd) p.unique)) plans
    have hadds := forIn_perform (m.addStatement s₁.connection.settings.ticks)
      (m.missingColumns present)
    simp only [ofExcept_ok_bind] at hindices
    simp only [Bool.false_eq_true, if_false, perform_append, bind_assoc, pure_bind,
      ← hindices, ← hadds]
    unfold migrate
    rw [bind_assoc, get_bind, hticks]
    simp only [bind_assoc, pure_bind]
    rfl

/-- What a session creates the table of a record type by: its mapping, the plans of its indices, and
the columns that the table has already. The name of the table was read to its end when these were
asked for. -/
structure Prepares (s : Session) (conventions : Conventions) (d : Declaration) (m : Mapping)
    (plans : List IndexPlan) (present : List ColumnDescription) : Prop where
  mapping : (mappingWith conventions d s).1 = .ok m
  plans : IndexPlan.ofMapping m = .ok plans
  whole : NoZero m.table
  names : present.map ColumnDescription.name =
    ((s.nesting.rows.readable? m.table).map fun t => t.columns.map StoredColumn.name).getD []

def scriptOf (s : Session) (m : Mapping) (plans : List IndexPlan)
    (present : List ColumnDescription) :
    List (Except Error String) :=
  m.script s.connection.settings.ticks present plans

/-- How a creation may end: all of its statements are carried out, or those up to a refused one. -/
inductive Creates (alone : Bool) (s : Session) (conventions : Conventions) (d : Declaration) :
    Except Error Creation → Session → Prop
  | done {t : Session} {m : Mapping} {plans : List IndexPlan} {present : List ColumnDescription}
      {texts : List String} : Stays alone s t → t.Current → t.Informed →
      t.connection.created = d.typeName :: s.connection.created →
      t.connection.catalog = (mappingWith conventions d s).2.connection.catalog →
      t.connection.settings = s.connection.settings →
      Prepares s conventions d m plans present → scriptOf s m plans present = texts.map .ok →
      s.nesting.rows.redefineAll? texts = some t.nesting.rows →
      Creates alone s conventions d (.ok (if present.isEmpty then .created else .migrated)) t
  | unstarted {e : Error} {t : Session} : Stays alone s t →
    t.connection.created = s.connection.created →
      t.nesting.rows = s.nesting.rows → Creates alone s conventions d (.error e) t
  | refused {e : Error} {t : Session} {m : Mapping} {plans : List IndexPlan}
      {present : List ColumnDescription} {done : List String} {refused : Except Error String}
      {rest : List (Except Error String)} : Stays alone s t →
      t.connection.created = s.connection.created → Prepares s conventions d m plans present →
      scriptOf s m plans present = done.map .ok ++ refused :: rest →
      s.nesting.rows.redefineAll? done = some t.nesting.rows →
      Creates alone s conventions d (.error e) t

theorem creates_createTableWith (hs : s.Usable alone) (hc : s.Current) (conventions : Conventions)
    (d : Declaration) : Creates alone s conventions d (createTableWith conventions d s).1
      (createTableWith conventions d s).2 := by
  rcases hm : mappingWith conventions d s with ⟨x, s₁⟩
  have hs₁ : s₁ = { s with connection := { s.connection with
      catalog := (s.connection.catalog.request conventions d).2 } } := (Prod.mk.inj hm).2.symm
  have hu₁ : s₁.Usable alone := hs₁ ▸ hs
  have hc₁ : s₁.Current := hs₁ ▸ hc
  have hstays₁ : Stays alone s s₁ := hs₁ ▸ ⟨hs, rfl, rfl, rfl⟩
  have hn₁ : s₁.nesting = s.nesting := by rw [hs₁]; rfl
  have hcreated₁ : s₁.connection.created = s.connection.created := by rw [hs₁]
  have hsettings₁ : s₁.connection.settings = s.connection.settings := by rw [hs₁]
  cases x with
  | error e =>
    have hx : createTableWith conventions d s = (.error e, s₁) := bind_error hm
    rw [hx]
    exact .unstarted hstays₁ hcreated₁ (by rw [hn₁])
  | ok m =>
    cases hp : IndexPlan.ofMapping m with
    | error fault =>
      have hx : createTableWith conventions d s = (.error (.schema fault), s₁) := by
        refine (bind_ok hm).trans (bind_error ?_)
        rw [hp]
        rfl
      rw [hx]
      exact .unstarted hstays₁ hcreated₁ (by rw [hn₁])
    | ok plans =>
      obtain ⟨y, s₂, ht, hs₂, hrows₂, hnames⟩ := tableInfo_steady hu₁ hc₁ m.table
      have hstays₂ := hstays₁.trans hs₂.toStays
      rw [hn₁] at hrows₂ hnames
      cases y with
      | error e =>
        have hx : createTableWith conventions d s = (.error e, s₂) := by
          refine (bind_ok hm).trans ?_
          rw [hp]
          exact (bind_ok (a := plans) (t := s₁) rfl).trans ((get_bind _ _).trans (bind_error ht))
        rw [hx]
        exact .unstarted hstays₂ (hs₂.created.trans hcreated₁) hrows₂
      | ok present =>
        have hprepares : Prepares s conventions d m plans present :=
          ⟨by rw [hm], hp, (hnames present rfl).2.1, (hnames present rfl).2.2⟩
        obtain ⟨z, t, hperform, ht', hend⟩ := perform_defines
          (m.script s₁.connection.settings.ticks present plans)
          (fun text h => Mapping.defines_script h) hs₂.usable hs₂.current
        have hx := createTableWith_apply hm hp ht hs₂.settings
        rw [hsettings₁] at hperform hend hx
        have hstays := hstays₂.trans ht'.toStays
        rw [hrows₂] at hend
        cases z with
        | error e =>
          obtain ⟨done, refused, rest, hscript, hend⟩ := hend
          rw [hx, bind_error hperform]
          exact .refused hstays (ht'.created.trans (hs₂.created.trans hcreated₁)) hprepares hscript hend
        | ok _ =>
          obtain ⟨hinformed, texts, hscript, hend⟩ := hend
          rw [hx, bind_ok hperform, modify_bind, pure_apply]
          refine .done ⟨hstays.usable, hstays.depth, hstays.opening, hstays.savepoints⟩ ht'.current
            (hinformed (hnames present rfl).1) ?_ ?_ ?_ hprepares hscript hend
          · exact congrArg (d.typeName :: ·) (ht'.created.trans (hs₂.created.trans hcreated₁))
          · rw [hm]
            exact ht'.catalog.trans hs₂.catalog
          · exact ht'.settings.trans (hs₂.settings.trans hsettings₁)

/-- **What a creation that fails leaves.** The types whose tables were created are as before, and so
is the transaction. The statements before the refused one stay carried out; so all tables and
indices are as before just if none of these statements had changed any. -/
theorem createTableWith_error (hs : s.Usable alone) (hc : s.Current) {conventions : Conventions}
    {d : Declaration} {e : Error} (h : createTableWith conventions d s = (.error e, t)) :
    Stays alone s t ∧ (∀ d', t.isCreated d' = s.isCreated d') ∧
      ∃ done, s.nesting.rows.redefineAll? done = some t.nesting.rows ∧
        (t.nesting.rows = s.nesting.rows ↔ ∀ text ∈ done, s.nesting.rows.redefine? text =
          some s.nesting.rows) ∧
        (done ≠ [] → ∃ m plans present refused rest, Prepares s conventions d m plans present ∧
          scriptOf s m plans present = done.map .ok ++ refused :: rest) := by
  have hcreates := creates_createTableWith hs hc conventions d
  rw [h] at hcreates
  cases hcreates with
  | unstarted hstays hcreated hrows =>
    refine ⟨hstays, fun d' => by unfold isCreated; rw [hcreated], [], congrArg some hrows.symm,
      ⟨fun _ _ ht => absurd ht List.not_mem_nil, fun _ => hrows⟩, fun hne => absurd rfl hne⟩
  | @refused _ _ m plans present done refused rest hstays hcreated hprepares hscript hrows =>
    exact ⟨hstays, fun d' => by unfold isCreated; rw [hcreated], done, hrows,
      (Database.redefineAll?_eq_iff hrows).2,
      fun _ => ⟨m, plans, present, refused, rest, hprepares, hscript⟩⟩

/-- A record type whose index has the name of its table. -/
def selfNamed : Declaration :=
  ⟨"Note", "Note", false,
    [⟨"Body", none, ⟨.plain .text, false⟩, [.indexed { name := some "Note" }], .text ""⟩], []⟩

theorem current_fresh : fresh.Current := by
  rintro link ⟨⟩
  exact .of_unknown rfl

def half : Except Error Creation × Session := createTableWith .silent selfNamed fresh

theorem half_result : half.1.toOption = none ∧ half.2.nesting.rows.tables.length = 1 := by
  decide +kernel

theorem half_fails : ∃ e, half = (.error e, half.2) := by
  have hfails := half_result.1
  rcases hx : half with ⟨e | creation, t⟩
  · exact ⟨e, rfl⟩
  · rw [hx] at hfails
    cases hfails

/-- The name of the index is refused when the table is there already. -/
theorem createTableWith_error_half : fresh.Usable true ∧ fresh.Current ∧
    ∃ done m plans present refused rest, done ≠ [] ∧
      Prepares fresh .silent selfNamed m plans present ∧
      scriptOf fresh m plans present = done.map .ok ++ refused :: rest ∧
      fresh.nesting.rows.redefineAll? done = some half.2.nesting.rows := by
  obtain ⟨e, he⟩ := half_fails
  obtain ⟨-, -, done, hrows, -, hscript⟩ := createTableWith_error usable_fresh current_fresh he
  have hne : done ≠ [] := by
    rintro rfl
    have hsame := half_result.2
    rw [← Option.some.inj hrows] at hsame
    cases hsame
  obtain ⟨m, plans, present, refused, rest, hprepares, hs⟩ := hscript hne
  exact ⟨usable_fresh, current_fresh, done, m, plans, present, refused, rest, hne,
    hprepares, hs, hrows⟩

/-- A creation that fails outside any transaction does not always leave the tables as they were. -/
theorem not_always_createTableWith_error : ¬ ∀ {s t : Session} {conventions : Conventions}
    {d : Declaration} {e : Error}, s.Usable true → s.Current → s.nesting.opening = none →
    createTableWith conventions d s = (.error e, t) →
    t.nesting.rows = s.nesting.rows ∧ t.isCreated d = s.isCreated d := by
  intro hall
  obtain ⟨e, he⟩ := half_fails
  obtain ⟨hrows, -⟩ := hall usable_fresh current_fresh rfl he
  have hsame := half_result.2
  rw [hrows] at hsame
  cases hsame

end Session

end RecordMapper
