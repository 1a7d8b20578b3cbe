import RecordMapper.Proofs.TransactionStatements

/-!
# Transactions as an engine keeps them

What a connection sees of its transaction, and what the statements of transactions make of it.

1. `Nesting` is the rows with the transaction that is open and its savepoints.
2. `Nesting.follow` gives the effect of a statement, or `none` if it names nothing that is open.
3. `TransactionHost.Lawful`: a host whose engine follows the statements. It may refuse one for a
   cause that passes, and leaves all as it was then.
-/

namespace RecordMapper

/-! ## Statements -/

namespace Control

/-- The text that the transaction functions write for a statement. -/
def text : Control → String
  | begin _ => "begin transaction"
  | commit => "commit"
  | rollback => "rollback"
  | savepoint name => "savepoint" ++ " " ++ name
  | release name => "release" ++ " " ++ name
  | rollbackTo name => "rollback to" ++ " " ++ name

/-- Whether the transaction functions write such a statement: savepoints are named by tokens. -/
def Formed : Control → Prop
  | begin mode => mode = .deferred
  | commit | rollback => True
  | savepoint name | release name | rollbackTo name => Token.Formed name

/-- The statement that is read from the text; it needs no definitions. -/
theorem readStatement_text {c : Control} (h : c.Formed) : ∃ s, Sql.readStatement c.text =
    .ok (some s, {}) ∧ Engine.readsDefinitions s = false ∧
      ∀ d p, Program.of d p s = .ok (.control c) := by
  cases c with
  | begin mode => cases h; exact ⟨_, Sql.Parser.readStatement_begin, rfl, fun _ _ => rfl⟩
  | commit => exact ⟨_, Sql.Parser.readStatement_commit, rfl, fun _ _ => rfl⟩
  | rollback => exact ⟨_, Sql.Parser.readStatement_rollback, rfl, fun _ _ => rfl⟩
  | savepoint name => exact ⟨_, Sql.Parser.readStatement_savepoint h, rfl, fun _ _ => rfl⟩
  | release name => exact ⟨_, Sql.Parser.readStatement_release h, rfl, fun _ _ => rfl⟩
  | rollbackTo name => exact ⟨_, Sql.Parser.readStatement_rollbackTo h, rfl, fun _ _ => rfl⟩

end Control

/-! ## The open transaction -/

/-- What a connection sees: the rows, how the transaction was opened and on which rows, and the
savepoints with the rows that they keep, the newest first. -/
structure Nesting (δ : Type) where
  rows : δ
  opening : Option (Opening × δ) := none
  savepoints : List (String × δ) := []

namespace Nesting

variable {δ : Type} (n : Nesting δ)

def isOpen : Bool := n.opening.isSome

/-- The same rows with no transaction. -/
def closed : Nesting δ := { rows := n.rows }

/-- The newest savepoint of a name and the older ones. -/
def savepointsFrom (name : String) : List (String × δ) :=
  n.savepoints.dropWhile fun s => !sameFolded s.1 name

/-- The nesting after the savepoints down to an older part are given up. A transaction that a
savepoint opened ends with it. -/
def keepSavepoints (older : List (String × δ)) : Nesting δ :=
  match older, n.opening with
  | [], some (.savepoint, _) => n.closed
  | _, _ => { n with savepoints := older }

/-- What a statement makes of the nesting; `none` if there is nothing that it could be about. -/
def follow : Control → Option (Nesting δ)
  | .begin _ => if n.isOpen then none else some { n with opening := some (.statement, n.rows) }
  | .commit => if n.isOpen then some n.closed else none
  | .rollback => n.opening.map fun (_, rows) => { rows }
  | .savepoint name => some { n with
      opening := n.opening.or (some (.savepoint, n.rows))
      savepoints := (name, n.rows) :: n.savepoints }
  | .release name =>
    match n.savepointsFrom name with
    | [] => none
    | _ :: older => some (n.keepSavepoints older)
  | .rollbackTo name =>
    match n.savepointsFrom name with
    | [] => none
    | s :: older => some { n with rows := s.2, savepoints := s :: older }

end Nesting

/-! ## Hosts -/

namespace TransactionHost

variable {σ δ : Type}

/-- What the engine may do with a statement: follow it, refuse it for a cause that passes, or refuse
it as there is nothing that it could be about. A rollback of an open transaction is not refused. -/
def Answers (c : Control) (before after : Nesting δ) : Except Error Unit → Prop
  | .ok () => before.follow c = some after
  | .error e => after = before ∧ e.isTransient = (before.follow c).isSome ∧
      (c = .rollback → before.follow c = none)

/-- A host whose engine keeps transactions as documented. `view` is what the connection sees, and
`ready` holds of the states in which it can be used. -/
structure Lawful (h : TransactionHost σ) (δ : Type) where
  view : σ → Nesting δ
  ready : σ → Prop
  depth_setDepth : ∀ d s, h.depth (h.setDepth d s) = d
  view_setDepth : ∀ d s, view (h.setDepth d s) = view s
  ready_setDepth : ∀ {d s}, ready s → ready (h.setDepth d s)
  depth_nonce : ∀ s, h.depth (h.nonce s).2 = h.depth s
  view_nonce : ∀ s, view (h.nonce s).2 = view s
  ready_nonce : ∀ {s}, ready s → ready (h.nonce s).2
  depth_execute : ∀ {c : Control} {s}, c.Formed → ready s →
    h.depth (h.execute c.text s).2 = h.depth s
  ready_execute : ∀ {c : Control} {s}, c.Formed → ready s → ready (h.execute c.text s).2
  answers : ∀ {c : Control} {s}, c.Formed → ready s →
    Answers c (view s) (view (h.execute c.text s).2) (h.execute c.text s).1

namespace Lawful

variable {h : TransactionHost σ} (L : h.Lawful δ)

/-- The engine refuses only what there is nothing to do about. -/
def Steady : Prop :=
  ∀ (c : Control) (s : σ), c.Formed → L.ready s → ((L.view s).follow c).isSome →
    (h.execute c.text s).1 = .ok ()

/-- Steps between the transaction functions: they may change the rows, and leave the transaction and
its savepoints as they are. -/
structure Work where
  act : σ → σ
  depth_act : ∀ {s}, L.ready s → h.depth (act s) = h.depth s
  ready_act : ∀ {s}, L.ready s → L.ready (act s)
  opening_act : ∀ {s}, L.ready s → (L.view (act s)).opening = (L.view s).opening
  savepoints_act : ∀ {s}, L.ready s → (L.view (act s)).savepoints = (L.view s).savepoints

end Lawful

end TransactionHost

end RecordMapper
