import RecordMapper.Session.Basic

/-!
# Nested transactions

The depth counts the nested transactions. It is positive exactly while the engine has one open, as
long as the engine carries out the statement that ends the outermost of them and ends none by
itself. Where it refuses that statement for a cause that passes, the transaction stays open at depth
zero; where a full table makes it roll all back, a positive depth stays though nothing is open.

A savepoint is named by a token `S<nonce>D<depth>` that keeps the depth to go back to, so that
ending a savepoint ends all that were taken after it.

The functions need little of their host: a depth, statements without rows, and fresh nonces. They
are stated for any such host, so that they also run on several connections at once.
-/

namespace RecordMapper

/-- What the transaction functions work on. -/
structure TransactionHost (σ : Type) where
  depth : σ → Nat
  setDepth : Nat → σ → σ
  /-- Runs a statement without parameters. -/
  execute : String → Action σ Unit
  /-- A number for the next token. -/
  nonce : σ → Nat × σ

/-- Why the body of a transaction does not come to its end. -/
inductive Interruption
  | error (e : Error)
  | panic
  deriving Inhabited

namespace Token

/-- The token of a savepoint that was taken at a depth. -/
def text (nonce depth : Nat) : String := "S" ++ toString nonce ++ "D" ++ toString depth

/-- The greatest depth that a token may tell. -/
def maxDepth : Nat := twoTo 64 - 1

def depth? (token : String) : Option Nat :=
  match token.toList with
  | 'S' :: rest =>
    let nonce := rest.takeWhile (· != 'D')
    match rest.dropWhile (· != 'D') with
    | 'D' :: depth =>
      if nonce.isEmpty || depth.isEmpty || !nonce.all isDigit || !depth.all isDigit then none
      else
        let d := digitsValue depth
        if d ≤ maxDepth then some d else none
    | _ => none
  | _ => none

end Token

namespace TransactionHost

variable {σ τ α : Type} (h : TransactionHost σ)

/-- The same host beside another state. -/
def first : TransactionHost (σ × τ) where
  depth s := h.depth s.1
  setDepth d s := (h.setDepth d s.1, s.2)
  execute text := (h.execute text).first
  nonce s :=
    let (n, t) := h.nonce s.1
    (n, t, s.2)

/-- Sets the depth and gives what it was. -/
def swapDepth (depth : Nat) : Action σ Nat := fun s => (.ok (h.depth s), h.setDepth depth s)

/-- Rolls back and does not mind whether the engine does. -/
def forceRollback : Action σ Unit := do
  let _ ← h.swapDepth 0
  let _ ← (h.execute "rollback").attempt

/-- Rolls back what is open and does not mind whether the engine does. -/
def quietRollback : Action σ Unit := do
  if 0 < (← h.swapDepth 0) then
    let _ ← (h.execute "rollback").attempt

/-- Undoes the count of a transaction that could not be opened. Where the engine may have given up
all of it, all of it is rolled back. -/
def recoverOpening (e : Error) : Action σ Unit := do
  if e.isTransient then h.quietRollback
  else
    let _ ← h.swapDepth (h.depth (← get) - 1)

def opening (text : String) : Action σ Unit := do
  match ← (h.execute text).attempt with
  | .ok () => return
  | .error e =>
    h.recoverOpening e
    throw e

def begin : Action σ Unit := do
  if h.depth (← get) ≠ 0 then throw (.transaction .alreadyOpen)
  let _ ← h.swapDepth 1
  h.opening "begin transaction"

/-- Takes a savepoint and gives its token. -/
def savepoint : Action σ String := do
  let depth := h.depth (← get)
  let _ ← h.swapDepth (depth + 1)
  let nonce ← modifyGet h.nonce
  let token := Token.text nonce depth
  h.opening ("savepoint " ++ token)
  return token

def rollback : Action σ Unit := do
  if 0 < (← h.swapDepth 0) then h.execute "rollback"

def endSavepoint (token verb : String) : Action σ Unit := do
  let current := h.depth (← get)
  match Token.depth? token with
  | none => throw (.transaction (.badToken token))
  | some target =>
    if current ≤ target then throw (.transaction (.badToken token))
    let _ ← h.swapDepth target
    match ← (h.execute (verb ++ " " ++ token)).attempt with
    | .ok () => return
    | .error e =>
      if e.isTransient then h.quietRollback
      else
        let _ ← h.swapDepth current
      throw e

/-- Runs a statement after whose failure nothing stays open. -/
def orForceRollback (text : String) : Action σ Unit := do
  match ← (h.execute text).attempt with
  | .ok () => return
  | .error e =>
    h.forceRollback
    throw e

/-- Undoes what was done since a savepoint and ends it; the empty token stands for all. -/
def rollbackTo (token : String) : Action σ Unit := do
  if token.isEmpty then h.rollback
  else
    h.endSavepoint token "rollback to"
    h.orForceRollback ("release " ++ token)

/-- Keeps what was done since a savepoint and ends it. -/
def release (token : String) : Action σ Unit := h.endSavepoint token "release"

/-- Keeps all that was done. -/
def commit : Action σ Unit := do
  if (← h.swapDepth 0) ≠ 0 then h.orForceRollback "commit"

/-- Runs a body inside a savepoint, which is kept if the body comes to its end and undone
otherwise. A body may be interrupted by more than errors; `raise` says what an error of the
savepoint is then. -/
def runWith {ε : Type} (raise : Error → ε) (body : ExceptT ε (StateM σ) α) :
    ExceptT ε (StateM σ) α := fun s =>
  match h.savepoint s with
  | (.error e, s) => (.error (raise e), s)
  | (.ok token, s) =>
    match body s with
    | (.ok a, s) =>
      match h.release token s with
      | (.ok (), s) => (.ok a, s)
      | (.error e, s) => (.error (raise e), s)
    | (.error e, s) =>
      let (_, s) := h.rollbackTo token s
      (.error e, s)

def runAction (body : Action σ α) : Action σ α := h.runWith id body

/-- Runs a body that may panic inside a savepoint. -/
def run (body : ExceptT Interruption (StateM σ) α) : ExceptT Interruption (StateM σ) α :=
  h.runWith .error body

end TransactionHost

namespace Session

/-- A session as a host of transactions. -/
def host : TransactionHost Session where
  depth := depth
  setDepth := setDepth
  execute text := do
    let _ ← executeText text
  nonce s :=
    (s.supply.nonces s.supply.savepoints,
      { s with supply := { s.supply with savepoints := s.supply.savepoints + 1 } })

end Session

end RecordMapper
