import RecordMapper.Proofs.Clauses
import RecordMapper.Proofs.EngineNesting
import RecordMapper.Session.Storing

/-!
# Statements that store rows

What an insert or an update leaves of a session, whether the engine does it or not.

1. `Sql.Stores`: the texts of inserts and updates are read as such, and their conflict clauses undo
   the whole statement.
2. `Outcome.Whole`: a fault leaves the tables as they were.
3. `Session.Changes`: such a text stays in the transaction that is open, and changes nothing if it
   fails. There is one exception, a full table: the engine then ends the transaction.
-/

namespace RecordMapper

/-! ## Texts -/

namespace Sql

/-- The conflict clauses of statements that store rows. -/
def Statement.conflict? : Statement → Option Conflict
  | .insert mode .. | .update mode .. => some mode
  | _ => none

/-- Whether a fault undoes the whole statement and nothing else. -/
def Conflict.Undoes (mode : Conflict) : Prop := mode ≠ .fail ∧ mode ≠ .rollback

/-- A statement that stores rows, and that a fault undoes. -/
def Statement.Stores (s : Statement) : Prop := ∃ mode, s.conflict? = some mode ∧ mode.Undoes

/-- A text that can only be read as a statement that stores rows. -/
def Stores (text : String) : Prop :=
  ∀ s parameters, readStatement text = .ok (some s, parameters) → s.Stores

theorem Scans.ofText_append {text : String} {cs rest : List Char} {ls : List Lexeme}
    (ht : beforeZero text.toList = cs ++ rest) (h : Scans 0 cs ls rest) :
    ∃ more, Lexeme.ofText text = ls ++ more := by
  obtain ⟨k, hk, h⟩ := h
  have hlen : (cs ++ rest).length + 1 = ((cs ++ rest).length + 1 - k) + k := by
    rw [List.length_append]
    omega
  unfold Lexeme.ofText
  rw [ht]
  show ∃ more, Lexeme.scan ((cs ++ rest).length + 1) 0 (cs ++ rest) = ls ++ more
  rw [hlen, h]
  exact ⟨_, rfl⟩

theorem firstStatement_append {text : String} {l : Lexeme} {ls more : List Lexeme}
    (h : Lexeme.ofText text = l :: ls ++ more)
    (hs : ∀ x ∈ l :: ls, Parser.isSymbol ";" x = false) :
    ∃ more', firstStatement text = l :: ls ++ more' := by
  have hp : ∀ x ∈ l :: ls, (!Parser.isSymbol ";" x) = true := fun x hx => by rw [hs x hx]; rfl
  have hdrop : (l :: ls ++ more).dropWhile (Parser.isSymbol ";") = l :: ls ++ more := by
    rw [List.cons_append, List.dropWhile_cons, hs l List.mem_cons_self]
    rfl
  unfold firstStatement
  simp only [h, hdrop]
  rw [List.takeWhile_append_of_pos hp, List.append_assoc]
  exact ⟨_, rfl⟩

/-- A text that is read starts with the lexemes of its first part, which has no zero
character then. -/
theorem Cut.firstStatement_of_ok {E : List Char → Prop} [Following E] {text : String}
    {cs rest : List Char} {l : Lexeme} {ls : List Lexeme} {x : Option Statement × Parameters}
    (h : Cut E 0 cs (l :: ls)) (hend : E []) (hrest : E rest) (ht : text.toList = cs ++ rest)
    (hx : readStatement text = .ok x) : ∃ more, firstStatement text = l :: ls ++ more := by
  have hz : Zeroless cs := by
    by_contra hz
    obtain ⟨fault, hf⟩ := (h.spoils hz).refused hz ht
    cases hf.symm.trans hx
  have hfollows : E (beforeZero rest) := by
    cases rest with
    | nil => exact hend
    | cons c r =>
      unfold beforeZero
      rw [List.takeWhile_cons]
      split
      · exact Following.head hrest
      · exact hend
  obtain ⟨more, hmore⟩ := (h.scans _ hfollows).ofText_append (by rw [ht, beforeZero_append hz])
  exact firstStatement_append hmore fun x hx => (h.calm x hx).inner

theorem statement_of_readStatement {text : String} {s : Statement} {parameters : Parameters}
    (h : readStatement text = .ok (some s, parameters)) :
    ∃ rest, Parser.statement text (firstStatement text) = .ok (s, rest) := by
  unfold readStatement at h
  split at h
  · cases h
  · replace h := of_legally h
    cases hx : Parser.statement text (firstStatement text) with
    | error e =>
      simp only [hx, bind, Except.bind] at h
      cases h
    | ok x =>
      obtain ⟨q, rest⟩ := x
      simp only [hx, bind, Except.bind] at h
      have hq : q = s := by
        revert h
        cases rest with
        | nil =>
          intro h
          cases h
          rfl
        | cons l r =>
          show (if _ then _ else _) = _ → _
          split
          · intro h
            cases h
            rfl
          · nofun
      exact ⟨rest, hq ▸ rfl⟩

namespace Parser

variable {text : String} {mode : Conflict} {ls rest : List Lexeme} {s : Statement}

theorem conflict?_insertInto (h : insertInto text mode ls = .ok (s, rest)) :
    s.conflict? = some mode := by
  unfold insertInto at h
  obtain ⟨_, r₁, -, h⟩ := of_bind_ok h
  obtain ⟨_, r₂, -, h⟩ := of_bind_ok h
  obtain ⟨listed, r₃, -, h⟩ := of_bind_ok h
  extract_lets source at h
  -- the source of the values, with the columns that are listed or not
  have hsource : ∀ columns r, source columns r = .ok (s, rest) → s.conflict? = some mode := by
    intro columns r h
    obtain ⟨values, r₅, -, h⟩ := of_bind_ok h
    cases values with
    | true =>
      obtain ⟨_, r₆, -, h⟩ := of_bind_ok h
      cases h
      rfl
    | false =>
      obtain ⟨selected, r₆, -, h⟩ := of_bind_ok h
      cases selected with
      | true =>
        obtain ⟨_, r₇, -, h⟩ := of_bind_ok h
        cases h
        rfl
      | false =>
        obtain ⟨default, r₇, -, h⟩ := of_bind_ok h
        cases default with
        | true =>
          obtain ⟨_, r₈, -, h⟩ := of_bind_ok h
          cases h
          rfl
        | false => cases r₇ <;> cases h
  cases listed with
  | true =>
    obtain ⟨columns, r₄, -, h⟩ := of_bind_ok h
    exact hsource _ _ h
  | false =>
    obtain ⟨columns, r₄, -, h⟩ := of_bind_ok h
    exact hsource _ _ h

theorem conflict?_update {r : List Lexeme} (hc : conflict ls = .ok (mode, r))
    (h : update ls = .ok (s, rest)) : s.conflict? = some mode := by
  unfold update at h
  obtain ⟨_, r₁, hc', h⟩ := of_bind_ok h
  obtain ⟨⟨⟩, rfl⟩ := Prod.mk.inj (Except.ok.inj (hc.symm.trans hc'))
  obtain ⟨_, r₂, -, h⟩ := of_bind_ok h
  obtain ⟨_, r₃, -, h⟩ := of_bind_ok h
  obtain ⟨_, r₄, -, h⟩ := of_bind_ok h
  obtain ⟨_, r₅, -, h⟩ := of_bind_ok h
  cases h
  rfl

/-- Without `or` a fault undoes the statement. -/
theorem conflict_none {l : Lexeme} (h : isWord "or" l = false) :
    conflict (l :: ls) = .ok (.abort, l :: ls) := by
  unfold conflict
  rw [choice_cons, h, if_neg Bool.false_ne_true]
  rfl

theorem conflict_replace {o p : Nat} :
    conflict (wordAt "or" o :: wordAt "replace" p :: ls) = .ok (.replace, ls) := by
  have ho : foldCase "or" = "or" := by decide
  have hr : foldCase "replace" = "replace" := by decide
  unfold conflict
  simp only [choice_cons, isWord_wordAt, ho, hr, beq_self_eq_true, if_true]
  rfl

theorem statement_insert {o : Nat} {r : List Lexeme} (hc : conflict ls = .ok (mode, r)) :
    statement text (wordAt "insert" o :: ls) = insertInto text mode r := by
  have hi : foldCase "insert" = "insert" := by decide
  unfold statement
  simp only [choice_cons, isWord_wordAt, hi, String.reduceBEq, Bool.false_eq_true, if_false,
    beq_self_eq_true, if_true]
  rw [bind_apply, hc, ok_bind]

theorem statement_update {o : Nat} : statement text (wordAt "update" o :: ls) = update ls := by
  have hu : foldCase "update" = "update" := by decide
  unfold statement
  simp only [choice_cons, isWord_wordAt, hu, String.reduceBEq, Bool.false_eq_true, if_false,
    beq_self_eq_true, if_true]

end Parser

theorem Cut.wordBlank {w : String} (hw : isName w = true) (o : Nat) :
    Cut Anything o (w.toList ++ [' ']) [wordAt w o] :=
  (Cut.word_blank hw).append .space fun rest _ => ⟨rest, rfl⟩

theorem cut_words (ws : List String) (o : Nat) (hw : ∀ v ∈ ws, isName v = true) :
    ∃ os, os.length = ws.length ∧
      Cut Anything o (ws.map fun v => v.toList ++ [' ']).flatten (List.zipWith wordAt ws os) := by
  induction ws generalizing o with
  | nil => exact ⟨[], rfl, .nil⟩
  | cons v r ih =>
    obtain ⟨os, hlen, h⟩ := ih (o + Bytes.lengthOf (v.toList ++ [' ']))
      fun x hx => hw x (List.mem_cons_of_mem _ hx)
    refine ⟨o :: os, by rw [List.length_cons, hlen, List.length_cons], ?_⟩
    exact (Cut.wordBlank (hw v List.mem_cons_self) o).andThen h

/-- The words at the start of a text that is read are its first lexemes. -/
theorem firstStatement_words {text : String} (w : String) (ws : List String) {rest : List Char}
    {x : Option Statement × Parameters} (hx : readStatement text = .ok x)
    (hw : ∀ v ∈ w :: ws, isName v = true)
    (ht : text.toList = ((w :: ws).map fun v => v.toList ++ [' ']).flatten ++ rest) :
    ∃ os more, os.length = (w :: ws).length ∧
      firstStatement text = List.zipWith wordAt (w :: ws) os ++ more := by
  obtain ⟨os, hlen, h⟩ := cut_words (w :: ws) 0 hw
  obtain ⟨o, os, rfl⟩ : ∃ o r, os = o :: r := List.exists_cons_of_length_eq_add_one hlen
  obtain ⟨more, hfirst⟩ := h.firstStatement_of_ok trivial trivial ht hx
  exact ⟨o :: os, more, hlen, hfirst⟩

end Sql

namespace Mapping

open Sql Sql.Parser

variable (m : Mapping)

theorem insertStatement_starts (mode : InsertMode) :
    ∃ rest, m.insertStatement mode = mode.keyword ++ " " ++ rest := by
  unfold insertStatement
  simp only
  split
  · exact ⟨quoteIdentifier m.table ++ " default values", by simp only [String.append_assoc]⟩
  · exact ⟨_, by simp only [String.append_assoc]; rfl⟩

theorem stores_insertStatement (mode : InsertMode) : Stores (m.insertStatement mode) := by
  intro s parameters h
  obtain ⟨rest, hs⟩ := statement_of_readStatement h
  obtain ⟨tail, ht⟩ := m.insertStatement_starts mode
  cases mode with
  | plain =>
    obtain ⟨os, more, hlen, hfirst⟩ := firstStatement_words "insert" ["into"] h (by decide)
      (show _ = _ ++ tail.toList by rw [ht]; simp [InsertMode.keyword])
    obtain ⟨a, b, rfl⟩ := List.length_eq_two.mp hlen
    have hinto : foldCase "into" = "into" := by decide
    have hor : isWord "or" (wordAt "into" b) = false := by
      rw [isWord_wordAt, hinto]
      rfl
    rw [hfirst] at hs
    exact ⟨.abort, conflict?_insertInto ((statement_insert (conflict_none hor)).symm.trans hs),
      nofun, nofun⟩
  | replace =>
    obtain ⟨os, more, hlen, hfirst⟩ := firstStatement_words "insert"
      ["or", "replace", "into"] h (by decide) (show _ = _ ++ tail.toList by rw [ht]; simp [InsertMode.keyword])
    obtain ⟨a, b, c, d, rfl⟩ : ∃ a b c d, os = [a, b, c, d] := List.length_eq_four.mp hlen
    rw [hfirst] at hs
    exact ⟨.replace, conflict?_insertInto ((statement_insert conflict_replace).symm.trans hs),
      nofun, nofun⟩

theorem stores_updateStatement (key : Column) : Stores (m.updateStatement key) := by
  intro s parameters h
  obtain ⟨rest, hs⟩ := statement_of_readStatement h
  obtain ⟨tail, ht⟩ : ∃ tail, (m.updateStatement key).toList =
      ("update".toList ++ [' '] ++ (quoteIdentifier m.table).toList) ++ ' ' :: tail := by
    unfold updateStatement
    exact ⟨_, by simp [String.toList_append]; rfl⟩
  have hcut := (Cut.wordBlank (w := "update") (by decide) 0).andThen (Cut.quoted m.table)
  obtain ⟨more, hfirst⟩ := hcut.firstStatement_of_ok ends_nil (ends_cons rfl _) ht h
  rw [hfirst] at hs
  have hor : isWord "or" ⟨.name m.table, quoteIdentifier m.table, Bytes.lengthOf ("update".toList ++ [' '])⟩ = false :=
    isWord_other fun _ => nofun
  exact ⟨.abort, conflict?_update (conflict_none hor) (statement_update.symm.trans hs), nofun, nofun⟩

end Mapping

/-! ## Outcomes -/

namespace Outcome

/-- What a statement that started on some tables leaves: a fault brings them back, and ends the
transaction only if a table is full. -/
structure Whole (before : Database) (o : Outcome) : Prop where
  undone : o.fault ≠ none → o.database = before
  falls : o.stands = false
  ends : o.endsTransaction = true → o.fault = some .full

variable {before : Database} {mode : Sql.Conflict}

theorem whole_failed (hm : mode.Undoes) {o : Outcome} (ho : o.stands = false)
    (fault : EngineFault) :
    Whole before (failed before mode o fault) := by
  unfold failed
  rw [if_neg hm.1]
  exact ⟨fun _ => rfl, ho, fun h => absurd (of_decide_eq_true h) hm.2⟩

theorem whole_steps {α : Type} {step : Outcome → α → Except EngineFault Outcome} (hm : mode.Undoes)
    (hstep : ∀ o a p, step o a = .ok p → p.fault = o.fault ∧ p.stands = o.stands ∧
      p.endsTransaction = o.endsTransaction) {o : Outcome} (hf : o.fault = none)
    (hs : o.stands = false) (he : o.endsTransaction = false) (as : List α) :
    Whole before (steps before mode step o as) := by
  induction as generalizing o with
  | nil =>
    rw [steps]
    exact ⟨fun h => absurd hf h, hs, fun h => by rw [he] at h; cases h⟩
  | cons a rest ih =>
    rw [steps]
    cases hx : step o a with
    | ok p =>
      obtain ⟨hpf, hps, hpe⟩ := hstep o a p hx
      exact ih (hpf.trans hf) (hps.trans hs) (hpe.trans he)
    | error fault =>
      simp only
      split
      · exact ih hf hs he
      · exact whole_failed hm hs fault

end Outcome

open Outcome

theorem InsertPlan.whole_run {p : InsertPlan} (hm : p.mode.Undoes) (d : Database) (s : Scope) :
    Whole d (p.run d s) := by
  have hstep : ∀ o a q, p.step o a = .ok q → q.fault = o.fault ∧ q.stands = o.stands ∧
      q.endsTransaction = o.endsTransaction := by
    intro o values q h
    unfold step at h
    split at h
    · obtain ⟨draft, -, h⟩ := ok_of_bind h
      obtain ⟨x, -, h⟩ := ok_of_bind h
      cases h
      exact ⟨rfl, rfl, rfl⟩
    · cases h
  have hsteps : Whole d (steps d p.mode p.step { database := d } (p.sourceRows d s).items) :=
    whole_steps hm hstep rfl rfl rfl _
  unfold run
  extract_lets rows o o'
  have ho' : Whole d o' := by
    unfold o'
    split
    · exact whole_failed hm hsteps.falls _
    · exact hsteps
  split
  · rename_i h
    exact ⟨ho'.undone, ho'.falls, fun _ => of_decide_eq_true (Bool.and_eq_true_iff.mp h).1⟩
  · exact ho'

theorem UpdatePlan.whole_run {p : UpdatePlan} (hm : p.mode.Undoes) (d : Database) (s : Scope)
    (visited : List Row) : Whole d (p.run d s visited) := by
  have hstep : ∀ o id q, p.step s o id = .ok q → q.fault = o.fault ∧ q.stands = o.stands ∧
      q.endsTransaction = o.endsTransaction := by
    intro o id q h
    unfold step at h
    split at h
    · split at h
      · cases h
        exact ⟨rfl, rfl, rfl⟩
      · obtain ⟨draft, -, h⟩ := ok_of_bind h
        obtain ⟨x, -, h⟩ := ok_of_bind h
        cases h
        exact ⟨rfl, rfl, rfl⟩
    · cases h
  unfold run
  split
  · exact ⟨fun _ => rfl, rfl, nofun⟩
  · exact whole_steps hm hstep rfl rfl rfl _

/-! ## Engines -/

namespace Program

/-- A statement that stores rows, with its names resolved. -/
inductive Stores : Program → Prop
  | insert {plan : InsertPlan} : plan.mode.Undoes → Stores (.insert plan)
  | update {plan : UpdatePlan} : plan.mode.Undoes → Stores (.update plan)

theorem mode_of {d : Database} {parameters : Sql.Parameters} {mode : Sql.Conflict} {table : String}
    {columns : Option (List String)} {source : Sql.InsertSource} {plan : InsertPlan}
    (h : InsertPlan.of d parameters mode table columns source = .ok plan) : plan.mode = mode := by
  unfold InsertPlan.of at h
  obtain ⟨t, -, h⟩ := ok_of_bind h
  extract_lets resolved at h
  have hresolved : ∀ wanted, resolved wanted = .ok plan → plan.mode = mode := by
    intro wanted h
    obtain ⟨⟨source, count⟩, -, h⟩ := ok_of_bind h
    revert h
    cases count with
    | none =>
      intro h
      cases h
      rfl
    | some n =>
      show (if _ then _ else _) = _ → _
      split
      · intro h
        cases h
      · intro h
        cases h
        rfl
  cases columns with
  | none => exact hresolved _ h
  | some names =>
    obtain ⟨wanted, -, h⟩ := ok_of_bind h
    exact hresolved wanted h

theorem stores_of {d : Database} {parameters : Sql.Parameters} {s : Sql.Statement} {p : Program}
    (hs : s.Stores) (h : of d parameters s = .ok p) : p.Stores := by
  obtain ⟨mode, hmode, hm⟩ := hs
  cases s with
  | insert mode' table columns source =>
    cases hmode
    obtain ⟨plan, hplan, h⟩ := ok_of_bind h
    cases h
    refine .insert ?_
    rw [mode_of hplan]
    exact hm
  | update mode' table settings condition =>
    cases hmode
    obtain ⟨plan, hplan, h⟩ := ok_of_bind h
    cases h
    refine .update ?_
    obtain ⟨t, -, h⟩ := ok_of_bind hplan
    obtain ⟨settings, -, h⟩ := ok_of_bind h
    obtain ⟨condition, -, h⟩ := ok_of_bind h
    cases h
    exact hm
  | _ => cases hmode

variable {p : Program}

theorem Stores.need (hp : p.Stores) : p.need = .writing := by
  cases hp <;> rfl

theorem Stores.whole (hp : p.Stores) (d : Database) (s : Scope) : (p.change d s).Whole d := by
  cases hp with
  | insert hm => exact InsertPlan.whole_run hm d s
  | update hm => exact UpdatePlan.whole_run hm d s _

end Program

namespace Engine

variable {e r : Engine}

/-- Two engines that differ in locks, counters and known definitions only. -/
structure Alike (e r : Engine) : Prop where
  opening : r.link.opening = e.link.opening
  savepoints : r.link.savepoints = e.link.savepoints
  storage : r.storage.content = e.storage.content
  content : r.content = e.content
  alone : e.Alone → r.Alone

namespace Alike

theorem refl (e : Engine) : Alike e e := ⟨rfl, rfl, rfl, rfl, id⟩

theorem trans {q : Engine} (h : Alike e r) (h' : Alike r q) : Alike e q :=
  ⟨h'.opening.trans h.opening, h'.savepoints.trans h.savepoints, h'.storage.trans h.storage,
    h'.content.trans h.content, h'.alone ∘ h.alone⟩

theorem inTransaction_eq (h : Alike e r) : r.inTransaction = e.inTransaction :=
  congrArg Option.isSome h.opening

theorem same (h : Alike e r) : SameTransaction e r := ⟨h.opening, h.savepoints, fun _ => h.storage⟩

theorem knowing (e : Engine) (d : Option Database) :
    Alike e { e with link := { e.link with known := d } } := ⟨rfl, rfl, rfl, rfl, id⟩

end Alike

theorem alike_acquireWrite (h : e.acquireWrite = .ok r) : Alike e r := by
  have ⟨hsame, ha⟩ := acquireWrite_spec h
  have hkept : r.storage.content = e.storage.content ∧ r.content = e.content := by
    unfold acquireWrite at h
    split at h
    · cases h
    · split at h
      · cases h
        exact ⟨rfl, rfl⟩
      · split at h
        · cases h
        · rename_i q hq
          split at h
          · cases h
            rcases acquireRead_spec hq with rfl | rfl
            · exact ⟨rfl, rfl⟩
            · exact ⟨rfl, rfl⟩
          · cases h
  exact ⟨hsame.opening, hsame.savepoints, hkept.1, hkept.2, ha⟩

/-- Taking locks leaves the link as it is, but for the working content that it may open. -/
theorem acquire_link {need : Need} (h : e.acquire need = .ok r) :
    r.link = e.link ∨ need = .writing ∧ r.link = { e.link with working := some e.content } := by
  have hread : ∀ {q : Engine}, e.acquireRead = .ok q → q.link = e.link ∧ q.content = e.content := by
    intro q hq
    rcases acquireRead_spec hq with rfl | rfl
    · exact ⟨rfl, rfl⟩
    · exact ⟨rfl, rfl⟩
  cases need with
  | nothing =>
    cases h
    exact .inl rfl
  | reading => exact .inl (hread h).1
  | writing =>
    change e.acquireWrite = .ok r at h
    unfold acquireWrite at h
    split at h
    · cases h
    · split at h
      · cases h
        exact .inl rfl
      · split at h
        · cases h
        · rename_i q hq
          split at h
          · cases h
            refine .inr ⟨rfl, ?_⟩
            show { q.link with working := some q.content } = _
            rw [(hread hq).1, (hread hq).2]
          · cases h

theorem acquire_alike {need : Need} (h : e.acquire need = .ok r) :
    Alike e r ∧ r.link.known = e.link.known := by
  refine ⟨?_, ?_⟩
  · cases need with
    | nothing =>
      cases h
      exact .refl e
    | reading =>
      rcases acquireRead_spec h with rfl | rfl
      · exact .refl _
      · exact ⟨rfl, rfl, rfl, rfl, alone_withLock.mpr⟩
    | writing => exact alike_acquireWrite h
  · rcases acquire_link h with hl | ⟨-, hl⟩
    · rw [hl]
    · rw [hl]

/-- Reading the definitions changes nothing else. -/
theorem of_refreshed (h : e.refreshed = .ok r) :
    r = { e with link := { e.link with known := some e.content } } := by
  obtain ⟨_, -, h⟩ := ok_of_bind h
  cases h
  rfl

/-- A statement is resolved in an engine in which at most the definitions that are known are others:
they are those of the content. -/
theorem informed_alike {s : Sql.Statement} (h : e.informed s = .ok r) :
    ∃ d, (d = e.link.known ∨ d = some e.content) ∧
    r = { e with link := { e.link with known := d } } := by
  unfold informed at h
  split at h
  · exact ⟨_, .inr rfl, of_refreshed h⟩
  · cases h
    exact ⟨e.link.known, .inl rfl, rfl⟩

theorem renewed_alike {ps : Sql.Parameters} {s : Sql.Statement} (h : e.renewed ps s = .ok r) :
    ∃ d, (d = e.link.known ∨ d = some e.content) ∧
    r = { e with link := { e.link with known := d } } := by
  obtain ⟨q, hq, h⟩ := ok_of_bind h
  obtain ⟨d, hd, rfl⟩ := informed_alike hq
  split at h
  · cases h
    exact ⟨d, hd, rfl⟩
  · split at h
    · have hr := of_refreshed h
      exact ⟨_, .inr rfl, hr⟩
    · cases h
      exact ⟨d, hd, rfl⟩

theorem of_resolve {ps : Sql.Parameters} {s : Sql.Statement} {program : Program}
    (h : (e.resolve ps s).mapError LocatedFault.fault = .ok program) :
    Program.of (e.link.known.getD {}) ps s = .ok program := by
  unfold resolve at h
  cases hof : Program.of (e.link.known.getD {}) ps s with
  | error fault =>
    rw [hof] at h
    cases h
  | ok x =>
    rw [hof] at h
    cases h
    rfl

/-- The engine in which a statement is engaged anew, once it has read the definitions. -/
def anew (e w : Engine) : Engine :=
  let q := if e.inTransaction then w else e
  { q with link := { q.link with known := some q.content } }

/-- What a statement is engaged with: its meaning over the definitions that are known, or anew that
over the definitions of the content. -/
inductive Engages (e : Engine) (p : Prepared) (s : Sql.Statement) : Program → Engine → Prop
  | known {program : Program} {r : Engine}
    (hof : Program.of (e.link.known.getD {}) p.parameters s = .ok program)
    (hr : e.acquire program.need = .ok r)
    (hv : program.need = .nothing ∨
      (r.link.known.any fun k => k.version == r.content.version) = true) : Engages e p s program r
  | anew {first program : Program} {w r : Engine}
    (hfirst : Program.of (e.link.known.getD {}) p.parameters s = .ok first)
    (hw : e.acquire first.need = .ok w)
    (hof : Program.of (e.anew w).content p.parameters s = .ok program)
    (hr : (e.anew w).acquire program.need = .ok r) : Engages e p s program r

theorem engages_of_engage {p : Prepared} {s : Sql.Statement} {program : Program}
    (h : e.engage p s = .ok (program, r)) : Engages e p s program r := by
  unfold engage at h
  obtain ⟨first, hfirst, h⟩ := ok_of_bind h
  obtain ⟨w, hw, h⟩ := ok_of_bind h
  split at h
  · rename_i hneed
    cases h
    exact .known (of_resolve hfirst) hw (.inl hneed)
  split at h
  · rename_i hversion
    cases h
    exact .known (of_resolve hfirst) hw (.inr hversion)
  · obtain ⟨second, hsecond, h⟩ := ok_of_bind h
    obtain ⟨v, hv, h⟩ := ok_of_bind h
    cases h
    exact .anew (of_resolve hfirst) hw (of_resolve hsecond) hv

theorem alike_anew {w : Engine} (hw : Alike e w) : Alike e (e.anew w) := by
  unfold anew
  cases e.inTransaction with
  | true => exact hw.trans (.knowing w _)
  | false => exact .knowing e _

theorem engage_stores {p : Prepared} {s : Sql.Statement} {program : Program} (hs : s.Stores)
    (h : e.engage p s = .ok (program, r)) : program.Stores ∧ Alike e r := by
  cases engages_of_engage h with
  | known hof hr =>
    have hstores := Program.stores_of hs hof
    rw [hstores.need] at hr
    exact ⟨hstores, alike_acquireWrite hr⟩
  | anew hfirst hw hof hr =>
    have hstores := Program.stores_of hs hof
    rw [(Program.stores_of hs hfirst).need] at hw
    rw [hstores.need] at hr
    exact ⟨hstores, (alike_anew (alike_acquireWrite hw)).trans (alike_acquireWrite hr)⟩

/-- A statement that stores rows is entered with the right to write. -/
theorem enter_stores {p : Prepared} {s : Sql.Statement} {program : Program} (hs : s.Stores)
    (h : e.enter p s = .ok (program, r)) : program.Stores ∧ Alike e r := by
  obtain ⟨q, hq, h⟩ := ok_of_bind h
  obtain ⟨d, -, rfl⟩ := renewed_alike hq
  obtain ⟨hstores, halike⟩ := engage_stores hs h
  exact ⟨hstores, (Alike.knowing e d).trans halike⟩

/-- What a statement that stores rows leaves: it stays in the transaction, and a fault brings back
the content; where a table is full, the fault may also have ended the transaction. -/
inductive Leaves (e : Engine) : Option EngineFault → Engine → Prop
  | done {r : Engine} : Keeps e r → Leaves e none r
  | failed {fault : EngineFault} {r : Engine} : Keeps e r → r.content = e.content →
      Leaves e (some fault) r
  | ended {r : Engine} : e.inTransaction = true → r.nesting = { rows := e.storage.content } →
      r.Sane → (e.Alone → r.Alone) → Leaves e (some .full) r

theorem content_rolledBack : e.rolledBack.content = e.storage.content :=
  congrArg Nesting.rows nesting_rolledBack

/-- A fault that does not end the transaction brings back the content. -/
theorem content_changed (hs : e.Sane) (ha : Alike e r) {program : Program} {o : Outcome}
    (ho : o.Whole e.content) (he : o.endsTransaction = false) {fault : EngineFault} {q : Engine}
    (h : r.changed program o = (some fault, q)) : q.content = e.content := by
  have hin := ha.inTransaction_eq
  have hclosed : e.inTransaction = false → e.storage.content = e.content := fun hno =>
    (hs.content_eq (opening_eq_none hno)).symm
  unfold changed at h
  extract_lets dirty known l r₁ r₂ l₂ r₃ at h
  have hstorage : r₂.storage.content = e.storage.content := by
    rw [← ha.storage]
    show (if program.counts then r₁.counted o else r₁).storage.content = _
    split <;> rfl
  have hworking : r₂.link.working = some o.database := by
    show (if program.counts then r₁.counted o else r₁).link.working = _
    split <;> rfl
  cases hf : o.fault with
  | some f =>
    simp only [hf, he, Bool.false_eq_true, if_false, ho.falls, hin] at h
    split at h
    · rw [← (Prod.mk.inj h).2]
      show r₃.link.working.getD r₃.storage.content = _
      rw [show r₃.link.working = some o.database from hworking]
      exact ho.undone (by rw [hf]; exact Option.some_ne_none _)
    · rename_i hno
      rw [← (Prod.mk.inj h).2, content_rolledBack, show r₃.storage.content = _ from hstorage,
        hclosed (Bool.eq_false_of_not_eq_true hno)]
  | none =>
    simp only [hf, hin] at h
    split at h
    · cases h
    · rename_i hno
      rcases hc : r₂.committed with ⟨_ | f, w⟩
      · rw [hc] at h
        cases h
      · have hw : w.storage.content = r₂.storage.content := by
          unfold committed at hc
          split at hc
          · cases hc
            rfl
          · cases hc
        rw [hc] at h
        cases h
        rw [content_rolledBack, ← hclosed (Bool.eq_false_of_not_eq_true hno), ← hstorage, ← hw]
        split <;> rfl

/-- A fault that ends the transaction rolls all of it back. -/
theorem changed_ends (program : Program) {o : Outcome} {fault : EngineFault}
    (hf : o.fault = some fault) (he : o.endsTransaction = true) :
    ∃ w : Engine, r.changed program o = (some fault, w.rolledBack) ∧ w.storage = r.storage ∧
      w.link.id = r.link.id := by
  unfold changed
  simp only [hf, he, if_true]
  refine ⟨_, rfl, ?_⟩
  cases program.counts
  · exact ⟨rfl, rfl⟩
  · exact ⟨rfl, rfl⟩

theorem leaves_changed (hs : e.Sane) (ha : Alike e r) (program : Program) {o : Outcome}
    (ho : o.Whole e.content) : Leaves e (r.changed program o).1 (r.changed program o).2 := by
  cases he : o.endsTransaction with
  | false =>
    have hk := keeps_changed hs ha.same ha.alone program he
    rcases hx : r.changed program o with ⟨_ | fault, q⟩
    · exact .done (hx ▸ hk)
    · exact .failed (hx ▸ hk) (content_changed hs ha ho he hx)
  | true =>
    have hf := ho.ends he
    obtain ⟨w, hw, hstorage, hid⟩ := changed_ends (r := r) program hf he
    have hwa : e.Alone → w.Alone := by
      intro hal
      have := ha.alone hal
      unfold Alone at this ⊢
      rwa [hstorage, hid]
    have hcontent : w.storage.content = e.storage.content := by rw [hstorage, ha.storage]
    rw [hw]
    cases hin : e.inTransaction with
    | true =>
      exact .ended hin (by rw [nesting_rolledBack, hcontent]) sane_rolledBack
        fun hal => alone_rolledBack (hwa hal)
    | false =>
      have hopening := opening_eq_none hin
      refine .failed (keeps_rolledBack hs hopening hwa) ?_
      rw [content_rolledBack, hcontent, hs.content_eq hopening]

theorem fault_changed {program : Program} {o : Outcome} {q : Engine}
    (h : r.changed program o = (none, q)) :
    o.fault = none := by
  cases hf : o.fault with
  | none => rfl
  | some fault =>
    unfold changed at h
    simp only [hf] at h
    split at h
    · cases h
    · split at h
      · cases h
      · cases h

theorem of_committed {q : Engine} (h : r.committed = (none, q)) : q.content = r.content ∧
    q.link.changes = r.link.changes ∧ q.link.lastRowid = r.link.lastRowid ∧
      q.link.known = r.link.known := by
  unfold committed at h
  split at h
  · cases h
  · cases h
    exact ⟨content_settled, by rw [link_settled], by rw [link_settled], by rw [link_settled]⟩

/-- A change of rows that is carried out makes the content what it gives, and counts its rows. -/
theorem counted_changed {program : Program} (hp : program.counts = true) {o : Outcome} {q : Engine}
    (h : r.changed program o = (none, q)) : q.content = o.database ∧ q.link.changes = o.count ∧
      q.link.lastRowid = o.lastRowid.getD r.link.lastRowid ∧ q.link.known = r.link.known := by
  have hf := fault_changed h
  unfold changed at h
  extract_lets dirty known l r₁ r₂ l₂ r₃ at h
  have hknown : known = r.link.known := by
    unfold known
    cases program with
    | define definition => cases hp
    | _ => rfl
  have hr₂ : r₂.content = o.database ∧ r₂.link.changes = o.count ∧
      r₂.link.lastRowid = o.lastRowid.getD r.link.lastRowid ∧ r₂.link.known = r.link.known := by
    unfold r₂
    rw [if_pos hp]
    exact ⟨rfl, rfl, rfl, hknown⟩
  simp only [hf] at h
  split at h
  · obtain rfl := (Prod.mk.inj h).2
    exact hr₂
  · split at h
    · rename_i w hw
      obtain rfl := (Prod.mk.inj h).2
      obtain ⟨hcontent, hchanges, hlast, hknown'⟩ := of_committed hw
      exact ⟨hcontent.trans hr₂.1, hchanges.trans hr₂.2.1, hlast.trans hr₂.2.2.1,
        hknown'.trans hr₂.2.2.2⟩
    · cases h

/-- Statements that store rows run as changes, and give no rows. -/
theorem run_changes {p : Prepared} {s : Sql.Statement} {program : Program}
    (hp : p.statement = some s) (hx : e.enter p s = .ok (program, r)) (hs : program.Stores) :
    e.run p = (⟨[], (r.changed program (program.change r.content (r.scope p))).1⟩,
      (r.changed program (program.change r.content (r.scope p))).2) := by
  refine run_writes hp hx hs.need fun name h => ?_
  rw [h] at hs
  cases hs

/-- A prepared statement that stores rows gives none, and leaves what such a statement may leave. -/
theorem run_stores (hs : e.Sane) {p : Prepared} (hp : ∀ s, p.statement = some s → s.Stores) :
    ∃ fault r, e.run p = (⟨[], fault⟩, r) ∧ Leaves e fault r := by
  cases hst : p.statement with
  | none =>
    exact ⟨some .noStatement, e, run_none hst, .failed ⟨.refl e, hs, id⟩ rfl⟩
  | some s =>
    cases hx : e.enter p s with
    | error fault =>
      refine ⟨some fault, e.refused s, run_error hst hx, ?_⟩
      unfold refused
      split
      all_goals exact .failed ⟨⟨rfl, rfl, fun _ => rfl⟩, ⟨hs.clean, hs.bare⟩, id⟩ rfl
    | ok x =>
      obtain ⟨hprogram, ha⟩ := enter_stores (hp s hst) hx
      exact ⟨_, _, run_changes hst hx hprogram,
        leaves_changed hs ha x.1 (ha.content ▸ hprogram.whole x.2.content (x.2.scope p))⟩

/-- Preparing a text changes at most the definitions that are known: they become those of the
content. -/
theorem prepare_alike (text : String) : ∃ d, (d = e.link.known ∨ d = some e.content) ∧
    (e.prepare text).2 = { e with link := { e.link with known := d } } := by
  unfold prepare
  split
  · exact ⟨e.link.known, .inl rfl, rfl⟩
  · exact ⟨e.link.known, .inl rfl, rfl⟩
  · simp only
    split
    · exact ⟨e.link.known, .inl rfl, rfl⟩
    · rename_i s parameters hread _ r hr
      obtain ⟨d, hd, rfl⟩ := informed_alike hr
      split
      · exact ⟨d, hd, rfl⟩
      · split
        · exact ⟨d, hd, rfl⟩
        · rename_i q hq
          rw [of_refreshed hq]
          split
          · exact ⟨_, .inr rfl, rfl⟩
          · exact ⟨d, hd, rfl⟩

/-- What is prepared is what was read, without values and with the columns that it gives. -/
theorem of_prepare {text : String} {p : Prepared} (h : (e.prepare text).1 = .ok p) :
    Sql.readStatement text = .ok (p.statement, p.parameters) ∧ p.bindings = [] ∧
      ∀ s, p.statement = some s →
        ∃ d program, Program.of d p.parameters s = .ok program ∧ p.names = program.names := by
  unfold prepare at h
  split at h
  · cases h
  · rename_i parameters hread
    cases h
    exact ⟨hread, rfl, fun s hs => (by cases hs)⟩
  · rename_i s' parameters hread
    have hmade : ∃ (q : Engine) (program : Program), q.resolve parameters s' = .ok program ∧
        p = { text, statement := some s', parameters, names := program.names } := by
      simp only at h
      split at h
      · cases h
      · split at h
        · rename_i program hx
          cases h
          exact ⟨_, program, hx, rfl⟩
        · split at h
          · cases h
          · rename_i q hq
            split at h
            · cases hx : q.resolve parameters s' with
              | error fault =>
                rw [hx] at h
                cases h
              | ok program =>
                rw [hx] at h
                cases h
                exact ⟨q, program, hx, rfl⟩
            · cases h
    obtain ⟨q, program, hx, rfl⟩ := hmade
    refine ⟨hread, rfl, fun s hs => ?_⟩
    cases hs
    exact ⟨_, program, hx, rfl⟩

/-- What is prepared is the statement that was read, with the columns that it gives. -/
theorem statement_prepare {text : String} {p : Prepared} (h : (e.prepare text).1 = .ok p)
    {s : Sql.Statement} (hp : p.statement = some s) :
    Sql.readStatement text = .ok (some s, p.parameters) ∧
      ∃ d program, Program.of d p.parameters s = .ok program ∧ p.names = program.names := by
  obtain ⟨hread, -, hprogram⟩ := of_prepare h
  exact ⟨hp ▸ hread, hprogram s hp⟩

end Engine

/-! ## Sessions -/

namespace Session

open RecordMapper.Action

theorem statement_bindEach {ticks : Bool} {values : List Binding} {p q : Prepared} {next : Nat}
    (h : (bindEach ticks p next values).1 = .ok q) : q.statement = p.statement := by
  induction values generalizing p next with
  | nil =>
    cases h
    rfl
  | cons b rest ih =>
    unfold bindEach at h
    split at h
    · cases h
    · simp only at h
      split at h
      · cases h
      · split at h
        · cases h
        · rename_i cell _ r hr
          have hrp : r.statement = p.statement := by
            unfold Prepared.bind at hr
            split at hr
            · cases hr
            · split at hr
              · cases hr
              · cases hr
                rfl
          exact (ih h).trans hrp

/-- On a closed connection a text is logged, and nothing else happens. -/
theorem prepare_closed {s : Session} (hl : s.connection.link = none) (text : String) :
    ∃ e, prepare text s = (.error e, { s with log := text :: s.log }) := by
  have he : ∃ e, engine { s with log := text :: s.log } =
      (.error e, { s with log := text :: s.log }) := by
    unfold engine
    simp only [hl]
    exact ⟨_, rfl⟩
  obtain ⟨e, he⟩ := he
  refine ⟨e, ?_⟩
  unfold prepare
  rw [modify_bind, bind_error he]

/-- A text is logged when it is prepared, and what is prepared is what was read. -/
theorem prepare_cases (text : String) (s : Session) : (prepare text s).2.log = text :: s.log ∧
    ∀ p, (prepare text s).1 = .ok p → p.bindings = [] ∧
      Sql.readStatement text = .ok (p.statement, p.parameters) := by
  cases hl : s.connection.link with
  | none =>
    obtain ⟨e, he⟩ := prepare_closed hl text
    rw [he]
    exact ⟨rfl, fun p h => (by cases h)⟩
  | some link =>
    rcases hx : Engine.prepare ⟨s.storage, link⟩ text with ⟨prepared, e⟩
    rw [prepare_apply hl hx]
    refine ⟨rfl, fun p h => ?_⟩
    cases prepared with
    | error fault => cases h
    | ok q =>
      cases h
      obtain ⟨hread, hnone, -⟩ := Engine.of_prepare (congrArg Prod.fst hx)
      exact ⟨hnone, hread⟩

/-- A command that is ready has what its text is read as, and its values can be stored. -/
theorem of_ready {text : String} {values : List HostValue} {s u : Session} {p : Prepared}
    (h : ready (.positional text values) s = (.ok p, u)) :
    Sql.readStatement text = .ok (p.statement, p.parameters) ∧
      Stored u.connection.settings.ticks values p.bindings := by
  obtain ⟨p₀, t, hp, h⟩ := of_bind_ok h
  rw [get_bind, ofExcept_apply] at h
  obtain ⟨hbind, rfl⟩ := Prod.mk.inj h
  obtain ⟨hnone, hread⟩ := (prepare_cases text s).2 p₀ (congrArg Prod.fst hp)
  have hown := of_bindEach (p := p₀) (q := p) (by rw [hnone]; exact hbind)
  obtain ⟨own, hstored, rfl⟩ := hown
  rw [hnone, List.nil_append]
  exact ⟨hread, hstored⟩

/-- A session that has stayed in its transaction. -/
structure Stays (alone : Bool) (s t : Session) : Prop where
  usable : t.Usable alone
  depth : t.depth = s.depth
  opening : t.nesting.opening = s.nesting.opening
  savepoints : t.nesting.savepoints = s.nesting.savepoints

/-- What steps that store rows may leave of a session. -/
inductive Changes {α : Type} (alone : Bool) (s : Session) : Except Error α → Session → Prop
  | done {a : α} {t : Session} : Stays alone s t → Changes alone s (.ok a) t
  | failed {e : Error} {t : Session} : Stays alone s t → t.nesting.rows = s.nesting.rows →
      Changes alone s (.error e) t
  | ended {t : Session} : t.Usable alone → t.depth = s.depth →
      s.nesting.follow .rollback = some t.nesting → Changes alone s (.error (.ofFault .full)) t

variable {alone : Bool} {s t : Session}

theorem Stays.refl (hs : s.Usable alone) : Stays alone s s := ⟨hs, rfl, rfl, rfl⟩

theorem Stays.trans {u : Session} (h : Stays alone s t) (h' : Stays alone t u) : Stays alone s u :=
  ⟨h'.usable, h'.depth.trans h.depth, h'.opening.trans h.opening, h'.savepoints.trans h.savepoints⟩

/-- Where nothing has changed, the same may follow. -/
theorem Changes.of_stays {α : Type} {u : Session} {x : Except Error α} (hu : Stays alone s u)
    (hn : u.nesting = s.nesting) (h : Changes alone u x t) : Changes alone s x t := by
  cases h with
  | done ht => exact .done (hu.trans ht)
  | failed ht hr => exact .failed (hu.trans ht) (by rw [hr, hn])
  | ended hus hd hf => exact .ended hus (hd.trans hu.depth) (hn ▸ hf)

/-- Preparing a command and binding its values leaves the transaction as it is. -/
theorem ready_stores {text : String} (ht : Sql.Stores text) (hs : s.Usable alone)
    (values : List HostValue) :
    Stays alone s (ready (.positional text values) s).2 ∧
      (ready (.positional text values) s).2.nesting = s.nesting ∧
      ∀ q, (ready (.positional text values) s).1 = .ok q →
        ∀ st, q.statement = some st → st.Stores := by
  obtain ⟨link, hl, hsane, halone⟩ := hs
  rcases hp : Engine.prepare ⟨s.storage, link⟩ text with ⟨p, e⟩
  obtain ⟨d, rfl⟩ : ∃ d, e = ⟨s.storage, { link with known := d }⟩ := by
    obtain ⟨d, -, hd⟩ := Engine.prepare_alike (e := ⟨s.storage, link⟩) text
    exact ⟨d, by rw [← hd, hp]⟩
  let u := withEngine { s with log := text :: s.log } ⟨s.storage, { link with known := d }⟩
  have hn : u.nesting = s.nesting := by
    rw [nesting_of_link hl]
    rfl
  have hu : Stays alone s u :=
    ⟨⟨_, rfl, ⟨hsane.clean, hsane.bare⟩, halone⟩, rfl, by rw [hn], by rw [hn]⟩
  have hprepare := prepare_apply hl hp
  cases p with
  | error fault =>
    have hready : ready (.positional text values) s = (.error (.ofLocated text fault), u) :=
      bind_error hprepare
    rw [hready]
    exact ⟨hu, hn, fun q hq => by cases hq⟩
  | ok p =>
    have hready : ready (.positional text values) s = ((bindEach u.connection.settings.ticks p 1
        (Command.positional text values).bindings).1, u) :=
      ready_apply (c := .positional text values) hprepare
    rw [hready]
    refine ⟨hu, hn, fun q hq st hst => ?_⟩
    rw [statement_bindEach hq] at hst
    exact ht st _ (Engine.statement_prepare (by rw [hp]) hst).1

/-- A step of the engine that keeps its transaction keeps that of the session. -/
theorem stays_of_keeps {link : Link} (hl : s.connection.link = some link)
    (hsane : Engine.Sane ⟨s.storage, link⟩) (halone : alone = true → Engine.Alone ⟨s.storage, link⟩)
    (log : List String) {r : Engine} (hk : Engine.Keeps ⟨s.storage, link⟩ r) :
    Stays alone s (withEngine { s with log } r) := by
  refine ⟨⟨_, rfl, hk.sane, fun ha => hk.alone (halone ha)⟩, rfl, ?_, ?_⟩
  · rw [nesting_of_link hl]
    exact hk.same.nesting_opening
  · rw [nesting_of_link hl]
    exact hk.same.nesting_savepoints hsane

theorem finishExecute_changes {q : Prepared} (hq : ∀ st, q.statement = some st → st.Stores)
    (hs : s.Usable alone) : Changes alone s (finishExecute q s).1 (finishExecute q s).2 := by
  obtain ⟨link, hl, hsane, halone⟩ := hs
  obtain ⟨fault, r, hrun, hleaves⟩ := Engine.run_stores hsane hq
  have hstays : Engine.Keeps ⟨s.storage, link⟩ r → Stays alone s (s.withEngine r) :=
    stays_of_keeps hl hsane halone s.log
  rw [finishExecute_apply hl hrun]
  cases hleaves with
  | done hk => exact .done (hstays hk)
  | failed hk hc =>
    refine .failed (hstays hk) ?_
    rw [nesting_of_link hl]
    exact hc
  | ended hin hn hrs hra =>
    refine .ended ⟨_, rfl, hrs, fun ha => hra (halone ha)⟩ rfl ?_
    obtain ⟨o, ho⟩ := Option.isSome_iff_exists.mp hin
    rw [nesting_of_link hl, Nesting.follow, Engine.nesting, show link.opening = some o from ho]
    exact congrArg some hn.symm

/-- A text that stores rows stays in the transaction that is open, and changes nothing if it fails;
where a table is full, the engine may have ended the transaction. -/
theorem executeText_changes {text : String} (ht : Sql.Stores text) (hs : s.Usable alone)
    (values : List Value) :
    Changes alone s (executeText text values s).1 (executeText text values s).2 := by
  obtain ⟨hu, hn, hq⟩ := ready_stores ht hs (values.map .scalar)
  rcases hx : ready (.positional text (values.map .scalar)) s with ⟨e | q, u⟩
  · rw [show executeText text values s = (.error e, u) from bind_error hx]
    rw [hx] at hu hn
    exact .failed hu (congrArg Nesting.rows hn)
  · rw [show executeText text values s = finishExecute q u from bind_ok hx]
    rw [hx] at hu hn hq
    exact (finishExecute_changes (hq q rfl) hu.usable).of_stays hu hn

end Session

end RecordMapper
