import RecordMapper.Session.Definition
import RecordMapper.Session.Storing
import RecordMapper.Session.Stream

/-!
# Several connections

Connections side by side, each on its own storage or all on one. An action on one of them sees the
storage as the others left it.
-/

namespace RecordMapper

/-- Closes the connection: what is not committed is lost, and all that was remembered is
forgotten. -/
def Session.close : StateM Session Unit := fun s =>
  match s.connection.link with
  | none => ((), s)
  | some link =>
    let storage := Engine.closed ⟨s.storage, link⟩
    ((), { s with storage, connection :=
      { settings := s.connection.settings, link := none } })

structure World where
  /-- The connections, each with the place of its storage. -/
  connections : List (Connection × Nat) := []
  storages : List Storage := []
  supply : Supply
  /-- The statements of all connections, the last one first. -/
  log : List String := []
  /-- The number of the next link. -/
  nextLink : Nat := 0

instance : Inhabited World := ⟨{ supply := default }⟩

namespace World

def session (w : World) (i : Nat) : Session :=
  let (connection, place) := w.connections[i]?.getD (default, 0)
  { connection, storage := w.storages[place]?.getD {}, supply := w.supply, log := w.log }

def put (w : World) (i : Nat) (s : Session) : World :=
  let place := (w.connections[i]?.map Prod.snd).getD 0
  { w with
    connections := w.connections.set i (s.connection, place)
    storages := w.storages.set place s.storage
    supply := s.supply
    log := s.log }

/-- Does something on one connection. -/
def on {α : Type} (i : Nat) (x : StateM Session α) : StateM World α := fun w =>
  let (a, s) := x (w.session i)
  (a, w.put i s)

def act {α : Type} (i : Nat) (x : SessionAction α) : Action World α := on i x

/-- One connection of the world as a host of transactions. -/
def host (i : Nat) : TransactionHost World where
  depth w := (w.session i).depth
  setDepth d w := w.put i ((w.session i).setDepth d)
  execute text := act i (Session.host.execute text)
  nonce := on i Session.host.nonce

/-! ## Opening and closing -/

def fresh (w : World) (settings : Settings) : Connection × World :=
  ({ settings, link := some { id := w.nextLink, readOnly := settings.readOnly } },
    { w with nextLink := w.nextLink + 1 })

def openAlone (settings : Settings) (w : World) : World :=
  let (c, w) := w.fresh settings
  { w with
    connections := w.connections ++ [(c, w.storages.length)], storages := w.storages ++ [{}] }

def openOn (place : Nat) (settings : Settings) (w : World) : World :=
  let (c, w) := w.fresh settings
  { w with connections := w.connections ++ [(c, place)] }

/-- Opens connections, all on one storage or each on its own. -/
def start (settings : Settings) (supply : Supply) (count : Nat) (shared : Bool) : World :=
  let open_ (w : World) : World := if shared then openOn 0 settings w else openAlone settings w
  (List.range count).foldl (fun w _ => open_ w) { storages := if shared then [{}] else [], supply }

def close (i : Nat) : StateM World Unit := on i Session.close

/-- Opens a new connection in the place of one, which is closed. -/
def reopen (i : Nat) (shared : Bool) : StateM World Unit := fun w =>
  let settings := (w.session i).connection.settings
  let ((), w) := close i w
  let place := (w.connections[i]?.map Prod.snd).getD 0
  let storages := if shared then w.storages else w.storages.set place {}
  let (c, w) := World.fresh { w with storages } settings
  ((), { w with connections := w.connections.set i (c, place) })

end World

end RecordMapper
