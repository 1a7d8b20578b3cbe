import RecordMapper.Session.World

/-!
# Opening connections

A connection needs a path. Of files only those in the current directory can be opened, and to read
only there would have to be one; `:memory:` and the empty path need none. Keys are refused: the
engine has no cipher.
-/

namespace RecordMapper

inductive EncryptionKey
  | passphrase (text : String)
  | raw (bytes : Bytes)
  deriving DecidableEq, Repr

/-- What a connection is asked to be. -/
structure OpenRequest where
  path : Option String
  key : Option EncryptionKey := none
  settings : Settings := {}

namespace EncryptionKey

/-- The number of bytes of a raw key. -/
def rawLength : Nat := 32

def refusal : EncryptionKey → String
  | raw bytes =>
    if bytes.length = rawLength then withoutCipher
    else (Error.connection "" ("raw key must be " ++ toString rawLength ++ " bytes, got "
      ++ toString bytes.length)).message
  | passphrase _ => withoutCipher
where
  withoutCipher : String :=
    "encryption is not available: the engine was built without a cipher (enable the `sqlcipher` feature)"

end EncryptionKey

namespace OpenRequest

/-- Whether the path can be opened. -/
def isReachable (path : String) (readOnly : Bool) : Bool :=
  path.isEmpty || path == ":memory:" || (!path.toList.contains '/' && !readOnly)

/-- A connection as it was asked for. -/
def run (r : OpenRequest) : Except Error Connection := do
  let some path := r.path | throw (.connection "" "no database path configured")
  if !isReachable path r.settings.readOnly then
    throw (.connection path ("unable to open database file: " ++ path))
  match r.key with
  | some key => throw (.connection path key.refusal)
  | none =>
    return {
      settings := { r.settings with path }
      link := some { id := 0, readOnly := r.settings.readOnly } }

end OpenRequest

namespace Connection

def isOpen (c : Connection) : Bool := c.link.isSome

def isInTransaction (c : Connection) : Bool := 0 < c.depth

def diagnostic (c : Connection) : String :=
  "Connection \x7b path: " ++ diagnosticText c.settings.path ++ ", open: "
    ++ diagnosticBool c.isOpen ++ ", transaction_depth: " ++ toString c.depth
    ++ ", store_timestamps_as_ticks: " ++ diagnosticBool c.settings.ticks ++ ", .. \x7d"

end Connection

namespace Session

/-- Sets how long a locked database is waited for; a closed connection refuses. -/
def setBusyTimeout (milliseconds : Nat) : SessionAction Unit := do
  let _ ← engine
  modify fun s => { s with connection := { s.connection with
    settings := { s.connection.settings with busyTimeout := milliseconds } } }

end Session

end RecordMapper
