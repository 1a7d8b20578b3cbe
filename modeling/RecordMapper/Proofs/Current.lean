import RecordMapper.Proofs.EngineNesting
import RecordMapper.Proofs.Resolving

/-!
# Current definitions

A connection resolves names against the definitions that it read last. As long as these are the
definitions of the content, a statement means the same when it is prepared and when it runs.

1. `Database.bare`: a database without its rows. Tables, and the columns of what can be read, are
   those of the bare database.
2. `Engine.Readable`: the link's definitions are current and it may take part in reading.
3. `Engine.prepare_of`, `Engine.run_reading`: such a link prepares a statement by resolving it, and
   a statement that only reads gives the rows of the content.
-/

namespace RecordMapper

/-! ## Databases without rows -/

def Table.bare (t : Table) : Table := { t with rows := [] }

theorem Table.sameColumns_of_bare {t t' : Table} (h : t.bare = t'.bare) : t.SameColumns t' :=
  ⟨show t.bare.columns = t'.bare.columns by rw [h],
    show t.bare.rowidColumn = t'.bare.rowidColumn by rw [h]⟩

namespace Database

/-- A database without its rows and counters: what its definitions have made. -/
def bare (d : Database) : Database :=
  { d with tables := d.tables.map Table.bare, sequences := [], userVersion := 0 }

variable {d d' : Database}

theorem table?_bare (d : Database) (name : String) :
    d.bare.table? name = (d.table? name).map Table.bare := by
  unfold table? bare
  rw [List.find?_map]
  rfl

theorem keptTable?_bare (d : Database) (name : String) :
    (d.bare.keptTable? name).map Table.bare = (d.keptTable? name).map Table.bare := by
  unfold keptTable? bare
  dsimp only
  split
  · rfl
  · split
    · rfl
    · rfl

theorem readable?_of_table? {name : String} {t : Table} (h : d.table? name = some t) :
    d.readable? name = some t := by
  unfold readable?
  rw [h]
  rfl

/-- What can be read has the columns that it has without rows. -/
theorem readable?_bare (d : Database) (name : String) :
    (d.bare.readable? name).map Table.bare = (d.readable? name).map Table.bare := by
  unfold readable?
  cases h : d.table? name with
  | some t =>
    rw [table?_bare, h]
    rfl
  | none =>
    rw [table?_bare, h]
    exact keptTable?_bare d name

/-- The tables of two databases with the same definitions differ in their rows at most. -/
theorem table?_of_bare (h : d.bare = d'.bare) {name : String} {t : Table}
    (ht : d.table? name = some t) : ∃ t', d'.table? name = some t' ∧ t'.bare = t.bare := by
  have hmap : (d'.table? name).map Table.bare = some t.bare := by
    rw [← table?_bare, ← h, table?_bare, ht]
    rfl
  exact Option.map_eq_some_iff.mp hmap

theorem readable?_of_bare (h : d.bare = d'.bare) {name : String} {t : Table}
    (ht : d.readable? name = some t) : ∃ t', d'.readable? name = some t' ∧ t'.bare = t.bare := by
  have hmap : (d'.readable? name).map Table.bare = some t.bare := by
    rw [← readable?_bare, ← h, readable?_bare, ht]
    rfl
  exact Option.map_eq_some_iff.mp hmap

end Database

/-! ## Links with current definitions -/

/-- What a connection gives a formula: its counters. -/
def Link.scope (l : Link) : Scope :=
  { changes := l.changes, totalChanges := l.totalChanges, lastRowid := l.lastRowid }

namespace Engine

variable {e : Engine}

/-- The link's definitions are those of the content, and it may take part in reading. -/
structure Readable (e : Engine) : Prop where
  current : ∀ k, e.link.known = some k → k.bare = e.content.bare
  read : ∃ r, e.acquireRead = .ok r

/-- The definitions against which the link resolves names: those that it read last, or else those of
the content. -/
def definitions (e : Engine) : Database := e.link.known.getD e.content

def knowing (e : Engine) : Engine := { e with link := { e.link with known := some e.definitions } }

theorem Readable.bare_definitions (h : e.Readable) : e.definitions.bare = e.content.bare := by
  unfold definitions
  cases hk : e.link.known with
  | none => rfl
  | some k => exact h.current k hk

/-- A statement on tables is resolved against the definitions, unless they cannot be read. -/
theorem informed_cases {s : Sql.Statement} (hs : readsDefinitions s = true) :
    e.informed s = .ok e.knowing ∨ ∃ fault, e.informed s = .error fault ∧
    e.acquireRead = .error fault := by
  unfold informed refreshed
  rw [hs]
  cases hk : e.link.known with
  | some k =>
    have hknowing : e.knowing = e := by
      unfold knowing definitions
      rw [hk, Option.getD_some, ← hk]
    exact .inl (congrArg Except.ok hknowing.symm)
  | none =>
    cases hread : e.acquireRead with
    | error fault => exact .inr ⟨fault, rfl, rfl⟩
    | ok r =>
      have hknowing : e.knowing = { e with link := { e.link with known := some e.content } } := by
        unfold knowing definitions
        rw [hk]
        rfl
      exact .inl (congrArg Except.ok hknowing.symm)

theorem informed_knowing (s : Sql.Statement) : e.knowing.informed s = .ok e.knowing := by
  unfold informed
  rw [show e.knowing.link.known.isNone = false from rfl, Bool.and_false]
  rfl

section Resolved

variable {r : Engine} {text : String} {s : Sql.Statement} {ps : Sql.Parameters} {program : Program}

/-- What resolves is prepared. -/
theorem prepare_of_resolve (hread : Sql.readStatement text = .ok (some s, ps))
    (hi : e.informed s = .ok r) (hp : r.resolve ps s = .ok program) : e.prepare text =
      (.ok { text, statement := some s, parameters := ps, names := program.names }, r) := by
  unfold prepare
  simp only [hread, hi, hp]

/-- What resolves is not resolved against other definitions. -/
theorem renewed_of_resolve (hi : e.informed s = .ok r) (hp : r.resolve ps s = .ok program) :
    e.renewed ps s = .ok r := by
  unfold renewed
  simp only [hi, hp, bind, Except.bind]
  rfl

/-- A statement on tables is prepared by resolving it against the definitions. -/
theorem prepare_of (h : e.Readable) (hread : Sql.readStatement text = .ok (some s, ps))
    (hs : readsDefinitions s = true) (hp : Program.of e.definitions ps s = .ok program) :
    e.prepare text = (.ok { text, statement := some s, parameters := ps, names := program.names },
      e.knowing) := by
  rcases informed_cases hs with hi | ⟨fault, -, hfault⟩
  · exact prepare_of_resolve hread hi hp
  · obtain ⟨r, hr⟩ := h.read
    rw [hr] at hfault
    cases hfault

end Resolved

/-! ## Running -/

theorem acquireRead_content {r : Engine} (h : e.acquireRead = .ok r) :
    r.content = e.content ∧ r.link = e.link := by
  rcases acquireRead_spec h with rfl | rfl
  · exact ⟨rfl, rfl⟩
  · exact ⟨rfl, rfl⟩

theorem enter_knowing {p : Prepared} {s : Sql.Statement} {program : Program} (h : e.Readable)
    (hp : Program.of e.definitions p.parameters s = .ok program) {r : Engine}
    (ha : e.knowing.acquire program.need = .ok r) (hn : program.need ≠ .nothing)
    (hc : r.content = e.content) (hl : r.link.known = some e.definitions) :
    e.knowing.enter p s = .ok (program, r) := by
  have hresolve : e.knowing.resolve p.parameters s = .ok program := hp
  have hversion : (e.definitions.version == r.content.version) = true := by
    rw [hc, beq_iff_eq]
    show e.definitions.bare.version = e.content.bare.version
    rw [h.bare_definitions]
  have hrenewed : e.knowing.renewed p.parameters s = .ok e.knowing :=
    renewed_of_resolve (informed_knowing s) hresolve
  unfold enter engage
  simp only [hrenewed, hresolve, Except.mapError, bind, Except.bind, ha, if_neg hn, hl,
    Option.any_some, hversion, if_true]
  rfl

theorem Readable.knowing (h : e.Readable) : e.knowing.Readable where
  current := by
    rintro k ⟨⟩
    exact h.bare_definitions
  read := by
    obtain ⟨r, hr⟩ := h.read
    unfold acquireRead at hr ⊢
    split at hr
    · rename_i hlock
      exact ⟨_, if_pos hlock⟩
    · rename_i hlock
      split at hr
      · rename_i hothers
        exact ⟨_, (if_neg hlock).trans (if_pos hothers)⟩
      · cases hr

/-- A statement that only reads gives the rows of the content. -/
theorem run_reading {p : Prepared} {s : Sql.Statement} {program : Program} (h : e.Readable)
    (hs : p.statement = some s) (hp : Program.of e.definitions p.parameters s = .ok program)
    (hn : program.need = .reading) : ∃ r : Engine, r.content = e.content ∧
      e.knowing.run p = (program.rows e.content { e.link.scope with parameters := p.bindings }, r) := by
  obtain ⟨q, hq⟩ := h.knowing.read
  obtain ⟨hc, hl⟩ := acquireRead_content hq
  have henter : e.knowing.enter p s = .ok (program, q) := by
    refine enter_knowing h hp ?_ (by rw [hn]; nofun) hc (by rw [hl]; rfl)
    rw [hn]
    exact hq
  have hscope : q.scope p = { e.link.scope with parameters := p.bindings } := by
    unfold scope
    rw [hl]
    rfl
  refine ⟨q.settled, content_settled.trans hc, ?_⟩
  · rw [run_reads hs henter hn, hc, hscope]
    rfl

end Engine

end RecordMapper
