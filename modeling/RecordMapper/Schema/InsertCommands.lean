import RecordMapper.Schema.Statement

/-!
# Kept inserts

Every record type keeps the command of its last insert, so that its text is not made again while the
mode stays the same.
-/

namespace RecordMapper

structure InsertCommands where
  commands : List (String × InsertCommand) := []

namespace InsertCommands

def get? (c : InsertCommands) (typeName : String) : Option InsertCommand :=
  (c.commands.find? fun (name, _) => name == typeName).map Prod.snd

/-- All but the command of a record type. -/
def forget (c : InsertCommands) (typeName : String) : InsertCommands where
  commands := c.commands.filter fun (name, _) => name != typeName

/-- The command that stores records of a mapping's type: the kept one if it has the mode, otherwise
a new one, which is kept instead. -/
def request (c : InsertCommands) (m : Mapping) (mode : InsertMode) :
    InsertCommand × InsertCommands :=
  match (c.get? m.typeName).filter fun command => command.mode == mode with
  | some command => (command, c)
  | none =>
    let command := m.insertCommand mode
    (command, { commands := (m.typeName, command) :: (c.forget m.typeName).commands })

end InsertCommands

end RecordMapper
