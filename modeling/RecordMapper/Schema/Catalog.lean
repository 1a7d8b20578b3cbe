import RecordMapper.Schema.Mapping

/-!
# Catalogs

The mappings built so far. The conventions of the first successful request for a record type decide
its mapping; later requests get the same mapping whatever conventions they ask for.
-/

namespace RecordMapper

structure Catalog where
  mappings : List (String × Mapping) := []
  deriving DecidableEq, Inhabited

namespace Catalog

def get? (c : Catalog) (typeName : String) : Option Mapping :=
  (c.mappings.find? fun (name, _) => name == typeName).map Prod.snd

/-- The mapping of a record type, built on the first request. A failed build leaves no trace. -/
def request (c : Catalog) (conventions : Conventions) (d : Declaration) :
    Except Error Mapping × Catalog :=
  match c.get? d.typeName with
  | some m => (.ok m, c)
  | none =>
    match Mapping.build conventions d with
    | .ok m => (.ok m, { c with mappings := c.mappings ++ [(d.typeName, m)] })
    | .error fault => (.error (.schema fault), c)

def size (c : Catalog) : Nat := c.mappings.length

/-- The names of the mapped tables in order. -/
def tables (c : Catalog) : List String :=
  (c.mappings.map fun (_, m) => m.table).mergeSort fun a b => decide (a ≤ b)

def diagnostic (c : Catalog) : String :=
  namedParts "MappingCatalog" [("mappings", toString c.size)]

end Catalog

end RecordMapper
