import RecordMapper.Proofs.Redefining
import RecordMapper.Session.Definition

/-!
# Statements that define

A statement that creates a table or an index, or adds a column, is carried out or changes nothing.

1. `Engine.Current`: the definitions that a link knows are those of the content, unless their
   version tells that they are not. Every step here keeps this.
2. `Engine.run_defines`: what such a statement leaves of an engine.
3. `Sql.Defines`: texts that can only be read as such statements, whatever they go on with. The
   texts of `create table`, of `create index` and of `alter table` are of this kind.
4. `Session.executeText_defines`: what the execution of such a text leaves of a session.
-/

namespace RecordMapper

/-! ## Engines -/

namespace Engine

variable {e r : Engine}

/-- The definitions that the link knows are those of the content, unless their version tells that
they are not. -/
def Current (e : Engine) : Prop :=
  ∀ k, e.link.known = some k → k.version = e.content.version → k.bare = e.content.bare

/-- The link knows the definitions of the content. -/
def Informed (e : Engine) : Prop := ∃ k, e.link.known = some k ∧ k.bare = e.content.bare

theorem informed_of_known (h : e.link.known = some e.content) : e.Informed := ⟨_, h, rfl⟩

theorem Informed.congr (hi : e.Informed) (hk : r.link.known = e.link.known)
    (h : r.content = e.content) :
    r.Informed := by
  unfold Informed
  rw [hk, h]
  exact hi

namespace Current

theorem of_unknown (h : e.link.known = none) : e.Current := fun k hk _ => by
  rw [h] at hk
  cases hk

theorem of_known (h : e.link.known = some e.content) : e.Current := fun k hk _ => by
  rw [h] at hk
  cases hk
  rfl

theorem congr (hc : e.Current) (hk : r.link.known = e.link.known) (h : r.content = e.content) :
    r.Current := by
  unfold Current
  rw [hk, h]
  exact hc

theorem of_knowing (hc : e.Current) {d : Option Database}
    (hd : d = e.link.known ∨ d = some e.content) :
    Current { e with link := { e.link with known := d } } := by
  rcases hd with rfl | rfl
  · exact hc
  · exact of_known rfl

end Current

theorem sane_acquire {need : Need} (hs : e.Sane) (h : e.acquire need = .ok r)
    (hn : e.inTransaction = true ∨ need ≠ .writing) : r.Sane := by
  rcases acquire_link h with hl | ⟨rfl, hl⟩
  · exact ⟨by rw [hl]; exact hs.clean, by rw [hl]; exact hs.bare⟩
  · have hopen : e.inTransaction = true := hn.resolve_right fun hw => hw rfl
    refine ⟨fun ho => ?_, fun hw => ?_⟩
    · rw [hl] at ho
      unfold inTransaction at hopen
      rw [show e.link.opening = none from ho] at hopen
      cases hopen
    · rw [hl] at hw
      cases hw

theorem acquire_scope {need : Need} (h : e.acquire need = .ok r) : r.link.scope = e.link.scope := by
  rcases acquire_link h with hl | ⟨-, hl⟩
  · rw [hl]
  · rw [hl]
    rfl

theorem anew_scope {need : Need} {w : Engine} (hw : e.acquire need = .ok w) :
    (e.anew w).link.scope = e.link.scope := by
  unfold anew
  cases e.inTransaction with
  | true =>
    have hscope : w.link.scope = e.link.scope := acquire_scope hw
    exact hscope
  | false => rfl

theorem sane_anew {need : Need} {w : Engine} (hs : e.Sane) (hw : e.acquire need = .ok w) :
    (e.anew w).Sane := by
  unfold anew
  cases hopen : e.inTransaction with
  | true =>
    have hsane := sane_acquire hs hw (.inl hopen)
    exact ⟨hsane.clean, hsane.bare⟩
  | false => exact ⟨hs.clean, hs.bare⟩

theorem engage_bare {p : Prepared} {s : Sql.Statement} {program : Program} (hc : e.Current)
    (hn : ∀ {d : Database} {program : Program}, Program.of d p.parameters s = .ok program →
      program.need ≠ .nothing)
    (h : e.engage p s = .ok (program, r)) :
    ∃ d, d.bare = e.content.bare ∧ Program.of d p.parameters s = .ok program ∧
    Alike e r ∧ r.Current ∧
      r.Informed ∧ r.link.scope = e.link.scope ∧ (program.need ≠ .writing → e.Sane → r.Sane) := by
  cases engages_of_engage h with
  | known hof hr hv =>
    obtain ⟨halike, hknown⟩ := acquire_alike hr
    have hversion := hv.resolve_left (hn hof)
    rw [hknown, halike.content] at hversion
    obtain ⟨k, hk, hkv⟩ := (Option.any_eq_true _ _).mp hversion
    have hbare := hc k hk (beq_iff_eq.mp hkv)
    have hinformed : e.Informed := ⟨k, hk, hbare⟩
    rw [hk] at hof
    exact ⟨k, hbare, hof, halike, hc.congr hknown halike.content, hinformed.congr hknown halike.content,
      acquire_scope hr, fun hw hsane => sane_acquire hsane hr (.inr hw)⟩
  | @anew _ _ w _ _ hw hof hr =>
    have hanew := alike_anew (acquire_alike hw).1
    obtain ⟨halike, hknown⟩ := acquire_alike hr
    have hcontent : r.link.known = some r.content := by
      rw [hknown, halike.content]
      rfl
    exact ⟨_, congrArg Database.bare hanew.content, hof, hanew.trans halike, .of_known hcontent,
      informed_of_known hcontent, (acquire_scope hr).trans (anew_scope hw),
      fun hread hsane => sane_acquire (sane_anew hsane hw) hr (.inr hread)⟩

/-- What a statement is entered with is what it means over the definitions of the content. -/
theorem enter_bare {p : Prepared} {s : Sql.Statement} {program : Program} (hc : e.Current)
    (hn : ∀ {d : Database} {program : Program}, Program.of d p.parameters s = .ok program →
      program.need ≠ .nothing)
    (h : e.enter p s = .ok (program, r)) :
    ∃ d, d.bare = e.content.bare ∧ Program.of d p.parameters s = .ok program ∧
    Alike e r ∧ r.Current ∧
      r.Informed ∧ r.link.scope = e.link.scope ∧ (program.need ≠ .writing → e.Sane → r.Sane) := by
  obtain ⟨q, hq, h⟩ := ok_of_bind h
  obtain ⟨known, hknown, rfl⟩ := renewed_alike hq
  obtain ⟨d, hbare, hof, halike, hcurrent, hinformed, hscope, hsane⟩ :=
    engage_bare (hc.of_knowing hknown) hn h
  exact ⟨d, hbare, hof, (Alike.knowing e known).trans halike, hcurrent, hinformed, hscope,
    fun hw hs => hsane hw ⟨hs.clean, hs.bare⟩⟩

/-- What a statement is entered with is what it means over the content, if its meaning is a matter
of the definitions only. -/
theorem enter_content {p : Prepared} {s : Sql.Statement} {program : Program} (hc : e.Current)
    (hs : ∀ {d d' : Database}, d.bare = d'.bare →
      Program.of d p.parameters s = Program.of d' p.parameters s)
    (hn : ∀ {d : Database} {program : Program}, Program.of d p.parameters s = .ok program →
      program.need ≠ .nothing)
    (hsane : e.Sane) (h : e.enter p s = .ok (program, r)) :
    Alike e r ∧ r.Current ∧ r.Informed ∧ Program.of e.content p.parameters s = .ok program ∧
      (program.need ≠ .writing → r.Sane) := by
  obtain ⟨d, hbare, hof, halike, hcurrent, hinformed, -, hread⟩ := enter_bare hc hn h
  exact ⟨halike, hcurrent, hinformed, (hs hbare).symm.trans hof, fun hw => hread hw hsane⟩

/-- What a change of the definitions leaves: it is carried out, or the content is as it was. -/
structure Redefines (e : Engine) (definition : Definition) (fault : Option EngineFault)
    (r : Engine) :
    Prop where
  keeps : Keeps e r
  current : r.Current
  done : fault = none → definition.run e.content = .ok r.content ∧ r.Informed
  undone : fault ≠ none → r.content = e.content

theorem current_rolledBack (hc : e.content.version = e.storage.content.version →
    ∀ k, e.link.known = some k → k.version = e.storage.content.version →
      k.bare = e.storage.content.bare) : e.rolledBack.Current := by
  have hcontent : e.rolledBack.content = e.storage.content := content_rolledBack
  have hknown : e.rolledBack.link.known =
      if e.content.version ≠ e.storage.content.version then none else e.link.known := by
    unfold rolledBack settled
    simp only
    split <;> rfl
  unfold Current
  rw [hcontent, hknown]
  split
  · exact nofun
  · rename_i hv
    exact hc (not_not.mp hv)

def working (e : Engine) (d : Database) (dirty : Bool) (known : Option Database) : Engine :=
  { e with link := { e.link with working := some d, dirty, known } }

theorem changed_refused (r : Engine) (definition : Definition) (fault : EngineFault) :
    ∃ dirty, r.changed (.define definition) { database := r.content, fault := some fault } =
      (some fault, if r.inTransaction then r.working r.content dirty r.link.known
        else (r.working r.content dirty r.link.known).rolledBack) := by
  refine ⟨r.link.dirty || false || false, ?_⟩
  show (if r.inTransaction then (some fault, _) else (some fault, _)) = _
  split
  · rfl
  · rfl

theorem changed_done (r : Engine) (definition : Definition) (d : Database) :
    ∃ dirty, r.changed (.define definition) { database := d } =
      if r.inTransaction then (none, r.working d dirty (some d))
      else match (r.working d dirty (some d)).committed with
        | (none, q) => (none, q)
        | (some fault, q) => (some fault, q.rolledBack) := by
  refine ⟨r.link.dirty || false || (true && (Program.define definition).writesAlways), ?_⟩
  rfl

/-- A commit makes the changes the content; one that is refused leaves them to be rolled back. -/
theorem committed_cases (e : Engine) :
    (∃ q, e.committed = (none, q) ∧ q.content = e.content ∧ q.link.known = e.link.known) ∨
      e.committed = (some .busy, e.withLock .pending) := by
  unfold committed
  split
  · exact .inr rfl
  · exact .inl ⟨_, rfl, content_settled, by rw [link_settled]⟩

/-- Outside of transactions, the content is what is stored. -/
theorem Alike.stored (ha : Alike e r) (hs : e.Sane) (hi : r.inTransaction = false) :
    r.storage.content = r.content := by
  rw [ha.storage, ha.content, hs.content_eq (opening_eq_none (ha.inTransaction_eq ▸ hi))]

theorem change_define (definition : Definition) (content : Database) (sc : Scope) :
    (Program.define definition).change content sc = match definition.run content with
      | .ok d => { database := d }
      | .error fault => { database := content, fault := some fault } := (rfl)

theorem redefines_refused (hs : e.Sane) (ha : Alike e r) (hc : r.Current) (definition : Definition)
    (fault : EngineFault) :
    let x := r.changed (.define definition) { database := r.content, fault := some fault }
    Redefines e definition x.1 x.2 := by
  intro x
  have hk : Keeps e x.2 := keeps_changed hs ha.same ha.alone (.define definition)
    (o := { database := r.content, fault := some fault }) rfl
  obtain ⟨dirty, hx⟩ := changed_refused r definition fault
  rw [show x = _ from hx] at hk ⊢
  cases hi : r.inTransaction with
  | true =>
    rw [hi] at hk
    exact ⟨hk, hc.congr rfl rfl, fun h => (by cases h), fun _ => ha.content⟩
  | false =>
    rw [hi] at hk
    have hstored : r.storage.content = r.content := ha.stored hs hi
    refine ⟨hk, current_rolledBack fun _ => ?_, fun h => (by cases h), fun _ => ?_⟩
    · show ∀ k, r.link.known = some k → k.version = r.storage.content.version →
        k.bare = r.storage.content.bare
      rw [hstored]
      exact hc
    · exact content_rolledBack.trans (hstored.trans ha.content)

/-- A definition that can be carried out becomes the content, unless its commit is refused. -/
theorem redefines_done (hs : e.Sane) (ha : Alike e r) {definition : Definition} {d : Database}
    (hrun : definition.run e.content = .ok d) :
    let x := r.changed (.define definition) { database := d }
    Redefines e definition x.1 x.2 := by
  intro x
  have hk : Keeps e x.2 :=
    keeps_changed hs ha.same ha.alone (.define definition) (o := { database := d }) rfl
  obtain ⟨dirty, hx⟩ := changed_done r definition d
  rw [show x = _ from hx] at hk ⊢
  cases hi : r.inTransaction with
  | true =>
    rw [hi] at hk
    exact ⟨hk, .of_known rfl, fun _ => ⟨hrun, informed_of_known rfl⟩, fun h => absurd rfl h⟩
  | false =>
    rw [hi] at hk
    simp only [Bool.false_eq_true, if_false] at hk ⊢
    rcases committed_cases (r.working d dirty (some d)) with ⟨q, hq, hqc, hqk⟩ | hq
    · rw [hq] at hk ⊢
      have hqd : q.content = d := hqc
      have hknown : q.link.known = some q.content := by
        rw [hqd]
        exact hqk
      refine ⟨hk, .of_known hknown, fun _ => ⟨?_, informed_of_known hknown⟩, fun h => absurd rfl h⟩
      rw [hqd]
      exact hrun
    · rw [hq] at hk ⊢
      have hstored : r.storage.content = e.content := (ha.stored hs hi).trans ha.content
      refine ⟨hk, current_rolledBack fun hv => ?_, fun h => (by cases h),
        fun _ => content_rolledBack.trans hstored⟩
      -- The changed definitions are forgotten, unless nothing has changed.
      have hd : d = r.storage.content := by
        rcases Definition.version_run hrun with ⟨-, rfl⟩ | hlt
        · exact hstored.symm
        · have hv' : d.version = e.content.version := hstored ▸ hv
          omega
      rintro k ⟨⟩ _
      exact congrArg Database.bare hd

theorem redefines_changed (hs : e.Sane) (ha : Alike e r) (hc : r.Current) (definition : Definition)
    (sc : Scope) :
    let x := r.changed (.define definition) ((Program.define definition).change r.content sc)
    Redefines e definition x.1 x.2 := by
  rw [change_define]
  cases hrun : definition.run r.content with
  | error fault => exact redefines_refused hs ha hc definition fault
  | ok d => exact redefines_done hs ha (ha.content ▸ hrun)

/-- A statement that defines either changes the definitions of the content, or leaves it as
it was. -/
theorem run_defines (hs : e.Sane) (hc : e.Current) {p : Prepared} {s : Sql.Statement}
    (hp : p.statement = some s) (hd : s.Defines) : ∃ fault r, e.run p = (⟨[], fault⟩, r) ∧
      Keeps e r ∧ r.Current ∧
      (fault = none → ∃ definition, Program.of e.content p.parameters s = .ok (.define definition) ∧
        definition.run e.content = .ok r.content ∧ r.Informed) ∧
      (fault ≠ none → r.content = e.content) := by
  have hneed : ∀ definition : Definition, (Program.define definition).need =
      if definition.isKeep then .reading else .writing := fun _ => rfl
  cases hx : e.enter p s with
  | error fault =>
    refine ⟨some fault, e, (run_error hp hx).trans ?_, ⟨.refl e, hs, id⟩, hc, nofun, fun _ => rfl⟩
    have hrefused : e.refused s = e := by
      cases s with
      | createTable _ _ | createIndex _ _ _ _ _ _ | addColumn _ _ _ => rfl
      | _ => cases hd
    rw [hrefused]
  | ok x =>
    obtain ⟨program, r⟩ := x
    obtain ⟨ha, hrc, hri, hof, hread⟩ := enter_content hc (fun h => Program.of_defines hd h)
      (fun h => by
        obtain ⟨definition, rfl, -⟩ := Program.define_of hd h
        rw [hneed]
        split
        · exact nofun
        · exact nofun) hs hx
    obtain ⟨definition, rfl, hdrop⟩ := Program.define_of hd hof
    cases hk : definition.isKeep with
    | true =>
      obtain rfl : definition = .keep := by
        cases definition with
        | keep => rfl
        | _ => cases hk
      refine ⟨none, r.settled, run_reads hp hx rfl, ?_, ?_, fun _ => ⟨.keep, hof, ?_, ?_⟩,
        fun h => absurd rfl h⟩
      · have hsane : r.Sane := hread nofun
        exact ⟨⟨by rw [link_settled]; exact ha.opening, by rw [link_settled]; exact ha.savepoints,
          fun _ => stored_settled.trans ha.storage⟩, sane_settled hsane, fun hal =>
            alone_settled (ha.alone hal)⟩
      · exact hrc.congr (by rw [link_settled]) content_settled
      · rw [content_settled, ha.content]
        rfl
      · exact hri.congr (by rw [link_settled]) content_settled
    | false =>
      have hw : (Program.define definition).need = .writing := by
        rw [hneed, hk]
        rfl
      have hrun := run_writes hp hx hw fun name h => hdrop name (Program.define.inj h)
      obtain ⟨hkeeps, hcur, hdone, hundone⟩ := redefines_changed hs ha hrc definition (r.scope p)
      exact ⟨_, _, hrun, hkeeps, hcur, fun h => ⟨definition, hof, hdone h⟩, hundone⟩

end Engine

/-! ## Texts -/

namespace Sql

/-- A text that can only be read as a statement that defines. -/
def Defines (text : String) : Prop :=
  ∀ s parameters, readStatement text = .ok (some s, parameters) → s.Defines

namespace Parser

variable {α β : Type} {P : β → Prop}

/-- Whatever a parser reads has a property. -/
def Gives (p : Parser β) (P : β → Prop) : Prop := ∀ ls b rest, p ls = .ok (b, rest) → P b

theorem Gives.pure {b : β} (h : P b) : Gives (Pure.pure b) P := by
  rintro ls b' rest ⟨⟩
  exact h

theorem Gives.bind {p : Parser α} {f : α → Parser β} (h : ∀ a, Gives (f a) P) :
    Gives (p >>= f) P := by
  intro ls b rest hb
  obtain ⟨a, r, -, hb⟩ := of_bind_ok hb
  exact h a r b rest hb

theorem Gives.ite {c : Prop} [Decidable c] {p q : Parser β} (hp : Gives p P) (hq : Gives q P) :
    Gives (if c then p else q) P := by
  split
  · exact hp
  · exact hq

theorem gives_createTable (text : String) : Gives (createTable text) Statement.Defines := by
  unfold createTable
  refine .bind fun _ => .bind fun _ => .bind fun _ => .bind fun _ => .bind fun _ => .bind fun _ =>
    .bind fun _ => .bind fun _ => ?_
  apply Gives.ite
  · refine .bind fun _ => ?_
    exact .ite (.bind fun _ => .pure trivial) (.bind fun _ => .pure trivial)
  · exact .ite (.bind fun _ => .pure trivial) (.bind fun _ => .pure trivial)

theorem gives_createIndex (text : String) (unique : Bool) :
    Gives (createIndex text unique) Statement.Defines :=
  .bind fun _ => .bind fun _ => .bind fun _ => .bind fun _ => .bind fun _ => .bind fun _ =>
    .bind fun _ => .bind fun _ => .bind fun _ => .pure trivial

theorem isWord_self {w : String} (hw : foldCase w = w) (o : Nat) :
    isWord w (wordAt w o) = true := by
  rw [isWord_wordAt, hw]
  exact beq_self_eq_true w

/-! ### Statements by their first words -/

theorem statement_create {text : String} {o : Nat} {ls : List Lexeme} :
    statement text (wordAt "create" o :: ls) = (do
      if ← takeWord "table" then createTable text
      else if ← takeWord "unique" then createIndex text true
      else createIndex text false : Parser Statement) ls := by
  have hc : foldCase "create" = "create" := by decide
  unfold statement
  simp only [choice_cons, isWord_wordAt, hc, String.reduceBEq, Bool.false_eq_true, if_false,
    beq_self_eq_true, if_true]

theorem statement_createTable {text : String} {o p : Nat} {ls : List Lexeme} :
    statement text (wordAt "create" o :: wordAt "table" p :: ls) = createTable text ls := by
  have htable : isWord "table" (wordAt "table" p) = true := isWord_self (by decide) p
  rw [statement_create, bind_apply, takeWord_cons, htable, if_pos rfl, ok_bind, if_pos rfl]

theorem statement_alter {text : String} {o : Nat} {ls : List Lexeme} :
    statement text (wordAt "alter" o :: ls) = alterTable text ls := by
  have ha : foldCase "alter" = "alter" := by decide
  unfold statement
  simp only [choice_cons, isWord_wordAt, ha, String.reduceBEq, Bool.false_eq_true, if_false,
    beq_self_eq_true, if_true]

theorem ifNotExists_read (a b c : Nat) (r : List Lexeme) :
    ifNotExists (wordAt "if" a :: wordAt "not" b :: wordAt "exists" c :: r) = .ok (true, r) := by
  have hif : isWord "if" (wordAt "if" a) = true := isWord_self (by decide) a
  have hnot : isWord "not" (wordAt "not" b) = true := isWord_self (by decide) b
  have hexists : isWord "exists" (wordAt "exists" c) = true := isWord_self (by decide) c
  unfold ifNotExists
  rw [choice_cons, hif, if_pos rfl, bind_apply, word_cons hnot, ok_bind, bind_apply,
    word_cons hexists]
  rfl

/-! ### What they give -/

theorem gives_create {text : String} {o : Nat} {ls rest : List Lexeme} {s : Statement}
    (h : statement text (wordAt "create" o :: ls) = .ok (s, rest)) : s.Defines := by
  rw [statement_create] at h
  have hgives : Gives (do
      if ← takeWord "table" then createTable text
      else if ← takeWord "unique" then createIndex text true
      else createIndex text false : Parser Statement) Statement.Defines :=
    .bind fun _ => .ite (gives_createTable text) (.bind fun _ =>
      .ite (gives_createIndex text true) (gives_createIndex text false))
  exact hgives _ _ _ h

theorem of_spelled {text spelling : String} {p : Parser α} {a : α} {ls rest : List Lexeme}
    (h : spelled text p ls = .ok ((a, spelling), rest)) : p ls = .ok (a, rest) := by
  unfold spelled at h
  cases hp : p ls with
  | error e =>
    rw [hp] at h
    cases h
  | ok x =>
    obtain ⟨b, r⟩ := x
    rw [hp] at h
    simp only [bind, Except.bind] at h
    split at h
    · cases h
      rfl
    · cases h
      rfl

theorem gives_add {text spelling table column spelling' : String} {o p q a b c : Nat}
    {ls rest : List Lexeme} {s : Statement}
    (h : statement text (wordAt "alter" o :: wordAt "table" p :: ⟨.name table, spelling, q⟩ ::
      wordAt "add" a :: wordAt "column" b :: ⟨.name column, spelling', c⟩ :: ls) = .ok (s, rest)) :
    ∃ spec spelling, s = .addColumn table spec spelling ∧ spec.name = column := by
  have hname : ∀ (name' spelling : String) (o : Nat) (ls : List Lexeme),
      name (⟨.name name', spelling, o⟩ :: ls) = .ok (name', ls) :=
    fun _ _ _ _ => name_of_nameOf? rfl (by rintro s ⟨⟩) _
  have hd : foldCase "add" = "add" := by decide
  have hr : isWord "rename" (wordAt "add" a) = false := by rw [isWord_wordAt, hd]; rfl
  have hw : isWord "table" (wordAt "table" p) = true := isWord_self (by decide) p
  have hcolumn : isWord "column" (wordAt "column" b) = true := isWord_self (by decide) b
  rw [statement_alter] at h
  unfold alterTable at h
  rw [bind_apply, word_cons hw, ok_bind, bind_apply, hname, ok_bind, choice_cons, hr,
    if_neg Bool.false_ne_true, bind_apply, word_cons (isWord_self hd a), ok_bind, bind_apply,
    takeWord_cons, hcolumn, if_pos rfl, ok_bind] at h
  obtain ⟨⟨spec, spelled⟩, r, hspec, h⟩ := of_bind_ok h
  cases h
  refine ⟨spec, spelled, rfl, ?_⟩
  have hread := of_spelled hspec
  unfold columnSpec at hread
  rw [bind_apply, hname, ok_bind] at hread
  obtain ⟨_, _, -, hread⟩ := of_bind_ok hread
  obtain ⟨_, _, -, hread⟩ := of_bind_ok hread
  cases hread
  rfl

theorem gives_createTable_named {text spelling table : String} {o p i j k q : Nat}
    {ls rest : List Lexeme} {s : Statement}
    (h : statement text (wordAt "create" o :: wordAt "table" p :: wordAt "if" i :: wordAt "not" j ::
      wordAt "exists" k :: ⟨.name table, spelling, q⟩ :: ls) = .ok (s, rest)) :
    ∃ spec, s = .createTable true spec ∧ spec.name = table := by
  have hname : name (⟨.name table, spelling, q⟩ :: ls) = .ok (table, ls) :=
    name_of_nameOf? rfl (by rintro s ⟨⟩) _
  rw [statement_createTable] at h
  unfold createTable at h
  rw [bind_apply, ifNotExists_read, ok_bind] at h
  obtain ⟨offset, _, hoffset, h⟩ := of_bind_ok h
  cases hoffset
  obtain ⟨⟨name, spelled⟩, _, hspelled, h⟩ := of_bind_ok h
  have hread := of_spelled hspelled
  rw [hname] at hread
  cases hread
  refine Gives.bind (P := fun s => ∃ spec, s = .createTable true spec ∧ spec.name = table) (fun _ => ?_)
    _ _ _ h
  refine .bind fun _ => .bind fun _ => .bind fun _ => .bind fun _ => ?_
  apply Gives.ite
  · refine .bind fun _ => ?_
    exact .ite (.bind fun _ => .pure ⟨_, rfl, rfl⟩) (.bind fun _ => .pure ⟨_, rfl, rfl⟩)
  · exact .ite (.bind fun _ => .pure ⟨_, rfl, rfl⟩) (.bind fun _ => .pure ⟨_, rfl, rfl⟩)

end Parser

theorem defines_create {text : String} {w : String} (hw : isName w = true) (rest : List Char)
    (ht : text.toList = "create ".toList ++ (w.toList ++ ' ' :: rest)) : Defines text := by
  intro s parameters h
  obtain ⟨tail, hs⟩ := statement_of_readStatement h
  have hnames : ∀ v ∈ ["create", w], isName v = true := by
    intro v hv
    rcases List.mem_pair.mp hv with rfl | rfl
    · decide
    · exact hw
  have ht' : text.toList = (["create", w].map fun w => w.toList ++ [' ']).flatten ++ rest := by
    rw [ht]
    simp
  obtain ⟨os, more, hlen, hfirst⟩ := firstStatement_words "create" [w] h hnames ht'
  obtain ⟨a, b, rfl⟩ := List.length_eq_two.mp hlen
  rw [hfirst] at hs
  exact Parser.gives_create hs

/-- Words with a blank before each. -/
def spacedWords (ws : List String) : List Char := (ws.map fun w => ' ' :: w.toList).flatten

end Sql

namespace Column

/-- The type that a table declares for a column. -/
def storedType? (c : Column) (ticks : Bool) : Option String :=
  if c.autoIncrement then some "integer" else c.dataType.columnType ticks c.maxLength

/-- What a table says of a column behind its type. -/
def words (c : Column) : List String :=
  (if c.isKey then ["primary", "key"] else []) ++
    (if c.autoIncrement then ["autoincrement"] else []) ++
      (if c.nullable then [] else ["not", "null"]) ++ c.collation.elim [] fun k => ["collate", k]

theorem toList_declared (c : Column) (type : String) :
    (quoteIdentifier c.name ++ " " ++ type
      ++ (if c.isKey then " primary key" else "") ++
        (if c.autoIncrement then " autoincrement" else "")
      ++ (if c.nullable then "" else " not null")
      ++ (match c.collation with
          | some collation => " collate " ++ collation
          | none => "")).toList =
      (quoteIdentifier c.name).toList ++ ' ' :: type.toList ++ Sql.spacedWords c.words := by
  unfold words Sql.spacedWords
  cases c.isKey <;> cases c.autoIncrement <;> cases c.nullable <;> cases c.collation <;> simp

/-- A declaration is the name in quotes, the type and the constraints. -/
theorem of_declaration {c : Column} {ticks : Bool} {text : String}
    (h : c.declaration ticks = .ok text) :
    ∃ type, c.storedType? ticks = some type ∧ text.toList =
      (quoteIdentifier c.name).toList ++ ' ' :: type.toList ++ Sql.spacedWords c.words := by
  unfold declaration at h
  unfold storedType?
  by_cases hauto : c.autoIncrement = true
  · rw [if_pos hauto] at h ⊢
    obtain rfl := Except.ok.inj h
    exact ⟨_, rfl, c.toList_declared _⟩
  · rw [if_neg hauto] at h ⊢
    cases htype : c.dataType.columnType ticks c.maxLength with
    | none =>
      rw [htype] at h
      cases h
    | some type =>
      rw [htype] at h
      obtain rfl := Except.ok.inj h
      exact ⟨type, rfl, c.toList_declared type⟩

end Column

namespace Mapping

open Sql Sql.Parser

variable {m : Mapping} {ticks : Bool} {text : String}

theorem defines_createStatement (h : m.createStatement ticks = .ok text) : Defines text := by
  obtain ⟨declarations, -, h⟩ := ok_of_bind h
  cases h
  refine defines_create (w := "table") (by decide) ?_ ?_
  · exact ("if not exists " ++ quoteIdentifier m.table ++ "(" ++ ", ".intercalate declarations ++ ")"
      ++ (if m.record.withoutRowid then " without rowid" else "")).toList
  · simp only [String.toList_append]
    simp

/-- The statement that creates the table can only be read as such. -/
theorem createTable_createStatement (h : m.createStatement ticks = .ok text) {s : Statement}
    {parameters : Parameters} (hs : readStatement text = .ok (some s, parameters)) :
    ∃ spec, s = .createTable true spec ∧ spec.name = m.table := by
  obtain ⟨declarations, -, h⟩ := ok_of_bind h
  cases h
  obtain ⟨rest, hstatement⟩ := statement_of_readStatement hs
  generalize hitems : ", ".intercalate declarations ++ ")"
    ++ (if m.record.withoutRowid then " without rowid" else "") = items
  have htext : ("create table if not exists " ++ quoteIdentifier m.table ++ "("
      ++ ", ".intercalate declarations ++ ")"
      ++ (if m.record.withoutRowid then " without rowid" else "")).toList =
      ("create".toList ++ [' '] ++ ("table".toList ++ [' ']) ++ ("if".toList ++ [' ']) ++
        ("not".toList ++ [' ']) ++ ("exists".toList ++ [' ']) ++ (quoteIdentifier m.table).toList)
          ++
      ('(' :: items.toList) := by
    rw [← hitems]
    simp only [String.toList_append]
    simp
  obtain ⟨p, i, j, k, q, hcut⟩ : ∃ p i j k q, Cut Ends 0
      ("create".toList ++ [' '] ++ ("table".toList ++ [' ']) ++ ("if".toList ++ [' ']) ++
        ("not".toList ++ [' ']) ++ ("exists".toList ++ [' ']) ++ (quoteIdentifier m.table).toList)
      [wordAt "create" 0, wordAt "table" p, wordAt "if" i, wordAt "not" j, wordAt "exists" k,
        ⟨.name m.table, quoteIdentifier m.table, q⟩] :=
    ⟨_, _, _, _, _, (((((Cut.wordBlank (by decide) _).andThen
      (Cut.wordBlank (by decide) _)).andThen (Cut.wordBlank (by decide) _)).andThen
        (Cut.wordBlank (by decide) _)).andThen
          (Cut.wordBlank (by decide) _)).andThen (Cut.quoted m.table)⟩
  obtain ⟨more, hfirst⟩ := hcut.firstStatement_of_ok ends_nil (ends_cons rfl _) htext hs
  rw [hfirst] at hstatement
  exact gives_createTable_named hstatement

/-- The statement that adds a column can only be read as such. -/
theorem addColumn_addStatement {c : Column} (h : m.addStatement ticks c = .ok text) {s : Statement}
    {parameters : Parameters} (hs : readStatement text = .ok (some s, parameters)) :
    ∃ spec spelling, s = .addColumn m.table spec spelling ∧ spec.name = c.name := by
  obtain ⟨declaration, hd, h⟩ := ok_of_bind h
  cases h
  obtain ⟨type, -, hd⟩ := Column.of_declaration hd
  obtain ⟨rest, hstatement⟩ := statement_of_readStatement hs
  have hquoted : ∀ name o, Cut Anything o (quoteIdentifier name ++ " ").toList
      [⟨.name name, quoteIdentifier name, o⟩] := by
    intro name o
    rw [String.toList_append]
    exact (Cut.quoted name).append .space fun _ _ => ends_cons rfl _
  obtain ⟨p, q, a, b, n, hcut⟩ : ∃ p q a b n, Cut Anything 0
      ("alter".toList ++ [' '] ++ ("table".toList ++ [' ']) ++ (quoteIdentifier m.table ++ " ").toList ++
        ("add".toList ++ [' ']) ++ ("column".toList ++ [' ']) ++
          (quoteIdentifier c.name ++ " ").toList)
      [wordAt "alter" 0, wordAt "table" p, ⟨.name m.table, quoteIdentifier m.table, q⟩,
        wordAt "add" a, wordAt "column" b, ⟨.name c.name, quoteIdentifier c.name, n⟩] :=
    ⟨_, _, _, _, _, (((((Cut.wordBlank (by decide) _).andThen
      (Cut.wordBlank (by decide) _)).andThen (hquoted _ _)).andThen
        (Cut.wordBlank (by decide) _)).andThen
          (Cut.wordBlank (by decide) _)).andThen (hquoted _ _)⟩
  have htext : ("alter table " ++ quoteIdentifier m.table ++ " add column " ++ declaration).toList =
      ("alter".toList ++ [' '] ++ ("table".toList ++ [' ']) ++ (quoteIdentifier m.table ++ " ").toList ++
        ("add".toList ++ [' ']) ++ ("column".toList ++ [' ']) ++
          (quoteIdentifier c.name ++ " ").toList) ++
      (type.toList ++ spacedWords c.words) := by
    rw [String.toList_append, hd]
    simp
  obtain ⟨more, hfirst⟩ := hcut.firstStatement_of_ok trivial trivial htext hs
  rw [hfirst] at hstatement
  exact gives_add hstatement

end Mapping

theorem Mapping.defines_addStatement {m : Mapping} {ticks : Bool} {c : Column} {text : String}
    (h : m.addStatement ticks c = .ok text) : Sql.Defines text := by
  intro s parameters hs
  obtain ⟨spec, spelling, rfl, -⟩ := Mapping.addColumn_addStatement h hs
  trivial

theorem defines_createIndexStatement (name table : String) (columns : List String) (unique : Bool) :
    Sql.Defines (createIndexStatement name table columns unique) := by
  unfold createIndexStatement
  cases unique with
  | true =>
    refine Sql.defines_create (w := "unique") (by decide) ?_ ?_
    · exact ("index if not exists " ++ quoteIdentifier name ++ " on " ++ quoteIdentifier table ++ "("
        ++ ", ".intercalate (columns.map quoteIdentifier) ++ ")").toList
    · simp only [String.toList_append]
      simp
  | false =>
    refine Sql.defines_create (w := "index") (by decide) ?_ ?_
    · exact ("if not exists " ++ quoteIdentifier name ++ " on " ++ quoteIdentifier table ++ "("
        ++ ", ".intercalate (columns.map quoteIdentifier) ++ ")").toList
    · simp only [String.toList_append]
      simp

/-! ## Sessions -/

/-- What a text that defines makes of a database; `none` if it is refused. -/
def Database.redefine? (d : Database) (text : String) : Option Database :=
  match Sql.readStatement text with
  | .ok (some s, parameters) =>
    match Program.of d parameters s with
    | .ok (.define definition) => (definition.run d).toOption
    | _ => none
  | _ => none

theorem Engine.current_prepare {e : Engine} (hc : e.Current) (text : String) :
    (e.prepare text).2.Current := by
  obtain ⟨d, hd, h⟩ := Engine.prepare_alike (e := e) text
  exact h ▸ hc.of_knowing hd

namespace Session

open RecordMapper.Action

/-- The link's definitions are those of the content, unless their version tells that they
are not. -/
def Current (s : Session) : Prop :=
  ∀ link, s.connection.link = some link → Engine.Current ⟨s.storage, link⟩

/-- The session knows the definitions of its content. -/
def Informed (s : Session) : Prop :=
  ∃ link, s.connection.link = some link ∧ Engine.Informed ⟨s.storage, link⟩

/-- A session that has stayed in its transaction, with all that the mapper itself keeps. -/
structure Steady (alone : Bool) (s t : Session) : Prop extends Stays alone s t where
  current : t.Current
  settings : t.connection.settings = s.connection.settings
  catalog : t.connection.catalog = s.connection.catalog
  created : t.connection.created = s.connection.created

variable {alone : Bool} {s t : Session}

theorem Steady.refl (hs : s.Usable alone) (hc : s.Current) : Steady alone s s :=
  ⟨.refl hs, hc, rfl, rfl, rfl⟩

theorem Steady.trans {u : Session} (h : Steady alone s t) (h' : Steady alone t u) :
    Steady alone s u :=
  ⟨h.toStays.trans h'.toStays, h'.current, h'.settings.trans h.settings, h'.catalog.trans h.catalog,
    h'.created.trans h.created⟩

/-- A step of the engine that keeps its transaction keeps the session steady. -/
theorem steady_of_keeps {link : Link} (hl : s.connection.link = some link)
    (hsane : Engine.Sane ⟨s.storage, link⟩) (halone : alone = true → Engine.Alone ⟨s.storage, link⟩)
    (log : List String) {r : Engine} (hk : Engine.Keeps ⟨s.storage, link⟩ r) (hr : r.Current) :
    Steady alone s (withEngine { s with log } r) ∧
      (withEngine { s with log } r).nesting.rows = r.content := by
  refine ⟨⟨stays_of_keeps hl hsane halone log hk, ?_, rfl, rfl, rfl⟩, rfl⟩
  rintro link' ⟨⟩
  exact hr

/-- Preparing a text without values leaves all as it is, and gives the statement that it is
read as. -/
theorem ready_steady (hs : s.Usable alone) (hc : s.Current) (text : String) :
    ∃ x t, ready (.positional text []) s = (x, t) ∧ Steady alone s t ∧
    t.nesting.rows = s.nesting.rows ∧
      ∀ q, x = .ok q → ∀ st, q.statement = some st →
        Sql.readStatement text = .ok (some st, q.parameters) ∧
          ∃ d program, Program.of d q.parameters st = .ok program ∧ q.names = program.names := by
  obtain ⟨link, hl, hsane, halone⟩ := hs
  have hcurrent := Engine.current_prepare (hc link hl) text
  obtain ⟨d, -, hd⟩ := Engine.prepare_alike (e := ⟨s.storage, link⟩) text
  rcases hp : Engine.prepare ⟨s.storage, link⟩ text with ⟨p, e⟩
  rw [hp] at hcurrent hd
  obtain rfl : e = ⟨s.storage, { link with known := d }⟩ := hd
  have hkeeps : Engine.Keeps ⟨s.storage, link⟩ ⟨s.storage, { link with known := d }⟩ :=
    ⟨⟨rfl, rfl, fun _ => rfl⟩, ⟨hsane.clean, hsane.bare⟩, id⟩
  obtain ⟨hsteady, hrows⟩ := steady_of_keeps hl hsane halone (text :: s.log) hkeeps hcurrent
  rw [nesting_of_link hl]
  have hprepare := prepare_apply hl hp
  cases p with
  | error fault => exact ⟨_, _, bind_error hprepare, hsteady, hrows, fun q hq => by cases hq⟩
  | ok p =>
    refine ⟨_, _, ready_apply (c := .positional text []) hprepare, hsteady, hrows, ?_⟩
    rintro q ⟨⟩ st hst
    exact Engine.statement_prepare (congrArg Prod.fst hp) hst

/-- A text that defines either changes the definitions, or leaves all as it was. -/
theorem executeText_defines {text : String} (ht : Sql.Defines text) (hs : s.Usable alone)
    (hc : s.Current) : ∃ x t, executeText text [] s = (x, t) ∧ Steady alone s t ∧
      match x with
      | .ok _ => s.nesting.rows.redefine? text = some t.nesting.rows ∧ t.Informed
      | .error _ => t.nesting.rows = s.nesting.rows := by
  obtain ⟨x, u, hx, hu, hrows, hq⟩ := ready_steady hs hc text
  cases x with
  | error e => exact ⟨.error e, u, bind_error hx, hu, hrows⟩
  | ok q =>
    have hexec : executeText text [] s = finishExecute q u := bind_ok hx
    obtain ⟨link, hl, hsane, halone⟩ := hu.usable
    have hcontent : Engine.content ⟨u.storage, link⟩ = s.nesting.rows :=
      (content_of_link hl).trans hrows
    cases hst : q.statement with
    | none =>
      have hrun := Engine.run_none (e := ⟨u.storage, link⟩) hst
      obtain ⟨hsteady, hrows'⟩ := steady_of_keeps hl hsane halone u.log
        ⟨.refl _, hsane, id⟩ (hu.current link hl)
      refine ⟨_, _, hexec.trans (finishExecute_apply hl hrun), hu.trans hsteady, ?_⟩
      exact hrows'.trans hcontent
    | some st =>
      obtain ⟨hread, -⟩ := hq q rfl st hst
      obtain ⟨fault, r, hrun, hkeeps, hr, hdone, hundone⟩ :=
        Engine.run_defines hsane (hu.current link hl) hst (ht st _ hread)
      obtain ⟨hsteady, hrows'⟩ := steady_of_keeps hl hsane halone u.log hkeeps hr
      refine ⟨_, _, hexec.trans (finishExecute_apply hl hrun), hu.trans hsteady, ?_⟩
      cases fault with
      | none =>
        obtain ⟨definition, hof, hd, hinformed⟩ := hdone rfl
        refine ⟨?_, _, rfl, hinformed⟩
        show s.nesting.rows.redefine? text = some r.content
        rw [hcontent] at hof hd
        unfold Database.redefine?
        simp only [hread, hof, hd]
        rfl
      | some fault => exact hrows'.trans ((hundone nofun).trans hcontent)

end Session

end RecordMapper
