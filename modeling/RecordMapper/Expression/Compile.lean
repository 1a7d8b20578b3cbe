import RecordMapper.Expression.Basic
import RecordMapper.Schema.Mapping
import RecordMapper.Text.LowerCase
import RecordMapper.Value.Coercion

/-!
# Compiled expressions

An expression over a mapped record becomes the text of a condition; the values of its placeholders
go to the end of a list of arguments, in the order in which the placeholders stand in the text.
Constants never enter the text.

1. Comparison with null is `is` and `is not`.
2. A substring test is a pattern match between per cent signs; a membership test is `in`.
3. A call without a rule of its own is the function of that name in lower case.
-/

namespace RecordMapper

/-- The outcome of compiling one node. -/
structure Compiled where
  text : String
  /-- The value of the node, where it is a placeholder. -/
  value : Option HostValue := none
  /-- The type of a mapped column or of a conversion. -/
  type : Option DataType := none

instance : Inhabited Compiled := ⟨"", none, none⟩

/-- A step of compiling: the arguments so far may change. -/
abbrev Compiling := StateT (List HostValue) (Except Error)

namespace Compiled

/-- Whether the node stands for null. -/
def carriesNull (c : Compiled) : Bool := c.value.any HostValue.isNull

def isText (c : Compiled) : Bool :=
  c.type.any DataType.isText
    || match c.value with
      | some (.scalar v) => v.isText
      | _ => false

/-- The placeholder of a value: one for a value or an object, one for each item of a list. -/
def placeholder (v : HostValue) : Compiling Compiled := do
  match v with
  | .list items =>
    modify (· ++ items.map .scalar)
    return { text := "(" ++ ",".intercalate (items.map fun _ => "?") ++ ")", value := some v }
  | v =>
    modify (· ++ [v])
    return { text := "?", value := some v }

/-- Compiles with arguments of its own, which are given back. -/
def alone (x : Compiling Compiled) : Compiling (Compiled × List HostValue) := fun arguments => do
  let compiled ← x []
  return (compiled, arguments)

/-- Two operands with something around and between them. -/
def join (opening : String) (a : Compiled) (between : String) (b : Compiled) (closing : String) :
    Compiled :=
  { text := opening ++ a.text ++ between ++ b.text ++ closing }

/-- One operand with something around it. -/
def wrap (opening : String) (a : Compiled) (closing : String) : Compiled :=
  { text := opening ++ a.text ++ closing }

/-- The sign of an operation: equality with null has its own. -/
def sign (op : BinaryOperator) (spelling : String) (null : Bool) : String :=
  match op, null with
  | .eq, true => "is"
  | .ne, true => "is not"
  | _, _ => spelling

def operation (op : BinaryOperator) (spelling : String) (a b : Compiled) : Compiled :=
  join "(" a (" " ++ sign op spelling (a.carriesNull || b.carriesNull) ++ " ") b ")"

def function (name : String) (arguments : List Compiled) : Compiled :=
  { text := lowerCase name ++ "(" ++ ",".intercalate (arguments.map Compiled.text) ++ ")" }

/-- Compiles the arguments of a call from left to right. -/
def each (arguments : List (Compiling Compiled)) : Compiling (List Compiled) := arguments.mapM id

/-- A call without a receiver. A membership test has its item before the collection in the text. -/
def call (name : String) (arguments : List (Compiling Compiled)) : Compiling Compiled :=
  match name, arguments with
  | "like", [a, b] => do
    let a ← a
    let b ← b
    return join "(" a " like " b ")"
  | "contains", [collection, item] => do
    let (collection, own) ← alone collection
    let item ← item
    modify (· ++ own)
    return join "(" item " in " collection ")"
  | name, arguments => do return function name (← each arguments)

/-- A call with a receiver. A function without a rule of its own ignores the receiver. -/
def method (receiver : Compiling Compiled) (name : String)
    (arguments : List (Compiling Compiled)) : Compiling Compiled :=
  match name, arguments with
  | "contains", [item] => do
    let (receiver, own) ← alone receiver
    if receiver.isText then
      modify (· ++ own)
      let item ← item
      return join "(" receiver " like ('%'||" item "||'%'))"
    else
      let item ← item
      modify (· ++ own)
      return join "(" item " in " receiver ")"
  | "starts_with", [head] => do
    let receiver ← receiver
    let head ← head
    return join "(" receiver " like (" head "||'%'))"
  | "ends_with", [tail] => do
    let receiver ← receiver
    let tail ← tail
    return join "(" receiver " like ('%'||" tail "))"
  | "equals", [other] => do
    let receiver ← receiver
    let other ← other
    return join "(" receiver " = (" other "))"
  | "to_lower", [] => do return wrap "(lower(" (← receiver) "))"
  | "to_upper", [] => do return wrap "(upper(" (← receiver) "))"
  | name, arguments => do return function name (← each arguments)

def replaceLast (v : HostValue) (arguments : List HostValue) : List HostValue :=
  if arguments.isEmpty then [] else arguments.dropLast ++ [v]

/-- A conversion: the value of a placeholder is coerced and takes the place of its argument. -/
def convert (a : Compiled) (target : DataType) : Compiling Compiled := do
  match a.value with
  | some (.scalar v) =>
    if v.isNull then return { a with type := some target }
    else
      match v.coerce target with
      | .ok v' =>
        modify (replaceLast (.scalar v'))
        return { text := a.text, value := some (.scalar v'), type := some target }
      | .error fault => throw (.type fault)
  | _ => return { a with type := some target }

/-- A member of a host object, which takes the place of the object. -/
def hostMember (a : Compiled) (name kind : String) : Compiling Compiled := do
  match a.value with
  | some (.object typeName members) =>
    modify List.dropLast
    match (HostValue.object typeName members).member? name with
    | some v => placeholder v
    | none => throw (.expression (.noMember typeName name))
  | _ => throw (.expression (.notAnObject name kind))

end Compiled

namespace Mapping

def memberColumn (m : Mapping) (name : String) : Except Error Column :=
  match m.findProperty name with
  | some c => .ok c
  | none => .error (.expression (.noMappedMember m.typeName name))

def property (m : Mapping) (name : String) : Except Error Compiled := do
  let c ← m.memberColumn name
  return { text := quoteIdentifier c.name, type := some c.dataType }

mutual

/-- Compiles an expression over records of the mapping. -/
def compile (m : Mapping) : Expression → Compiling Compiled
  | .constant v => Compiled.placeholder v
  | .member .parameter name => m.property name
  | .member object name => do (← m.compile object).hostMember name object.kind
  | .binary op left right =>
    match op.spelling with
    | none => throw (.expression (.noOperator op.name))
    | some spelling => do
      let a ← m.compile left
      let b ← m.compile right
      return Compiled.operation op spelling a b
  | .call name arguments => Compiled.call name (m.compileEach arguments)
  | .method receiver name arguments =>
    Compiled.method (m.compile receiver) name (m.compileEach arguments)
  | .convert operand target => do (← m.compile operand).convert target
  | e => throw (.expression (.notCompilable e.kind))

def compileEach (m : Mapping) : List Expression → List (Compiling Compiled)
  | [] => []
  | e :: r => m.compile e :: m.compileEach r

end

def orderingColumn (m : Mapping) : Expression → Except Error String
  | .member .parameter name => do return (← m.memberColumn name).name
  | .convert operand _ => m.orderingColumn operand
  | e => .error (.expression (.notOrderable e.kind))

end Mapping

/-- A record as an object whose members are its mapped properties. -/
def Mapping.host (m : Mapping) (r : Record) : HostValue :=
  .object m.typeName <| m.columns.filterMap fun c =>
    match m.valueOf c r with
    | .ok v => some (c.property, .scalar v)
    | .error _ => none

end RecordMapper
